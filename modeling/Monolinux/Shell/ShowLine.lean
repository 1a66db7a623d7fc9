import Monolinux.Shell.Editor
import Monolinux.Lib.Terminal

/-!
# Showing the line

`showLine` is what `show_line` prints when the line has changed from `prevLine` to
`line`; `render` is the same on the texts the lines hold.  The terminal shows the
prompt and the old text, with its cursor where the old line has it.

* `show_line_renders`: afterwards it shows the new text, with its cursor where the new
  line has it, if and only if the change is not `Garbled`;
* `show_line_garbles`: recalling a command from the history can be such a change;
* `keys_shown`: an editing key is not, so after any number of them the terminal shows
  the line.
-/

namespace Monolinux

/-- `PROMPT`. -/
def prompt : List UInt8 := [0x24, 0x20]

/-- `ESC [ n final`. -/
def controlSequence (n : ℤ) (final : UInt8) : List UInt8 := [0x1b, 0x5b] ++ decimal n ++ [final]

/-- The bytes that are printed. -/
def showLine (prevLine line : Line) : Option (List UInt8) := do
  let cursor := prevLine.cursor
  let length := prevLine.length
  let newLength := line.length
  let newCursor := line.cursor
  let minLength := min prevLine.length newLength
  let buf ← cstr line.buf 0
  let prevBuf ← cstr prevLine.buf 0
  -- Was the line edited?
  if buf ≠ prevBuf then
    -- Only output the change if the last part of the string shall be deleted.
    if buf.take minLength.toNat = prevBuf.take minLength.toNat ∧ newCursor = newLength then
      if length < newLength then
        -- New character.
        cstr line.buf cursor
      else
        -- spaces up to the end of the old line, then `"\x08 \x08"` for each character it is longer
        return List.replicate (length - cursor).toNat 0x20 ++
          (List.replicate (length - newLength).toNat [8, 0x20, 8]).flatten
    else
      return (if cursor > 0 then controlSequence cursor 0x44 else []) ++ [0x1b, 0x5b, 0x4b] ++ buf ++
        if newCursor < newLength then controlSequence (newLength - newCursor) 0x44 else []
  else if cursor < newCursor then return controlSequence (newCursor - cursor) 0x43
  else if newCursor < cursor then return controlSequence (cursor - newCursor) 0x44
  else return []

/-! ## On texts -/

def render (prev text : Text) : List UInt8 :=
  if text.all ≠ prev.all then
    if text.all.take (min prev.all.length text.all.length) = prev.all.take (min prev.all.length text.all.length) ∧
        text.after = [] then
      if prev.all.length < text.all.length then text.all.drop prev.before.length
      else
        List.replicate prev.after.length 0x20 ++
          (List.replicate (prev.all.length - text.all.length) [8, 0x20, 8]).flatten
    else
      (if 0 < prev.before.length then controlSequence prev.before.length 0x44 else []) ++ [0x1b, 0x5b, 0x4b] ++
        text.all ++ if 0 < text.after.length then controlSequence text.after.length 0x44 else []
  else if prev.before.length < text.before.length then
    controlSequence (text.before.length - prev.before.length : ℕ) 0x43
  else if text.before.length < prev.before.length then
    controlSequence (prev.before.length - text.before.length : ℕ) 0x44
  else []

theorem showLine_eq {prevLine line : Line} {prev text : Text} (hprev : prevLine.Holds prev) (h : line.Holds text) :
    showLine prevLine line = some (render prev text) := by
  have hbuf : cstr line.buf 0 = some text.all := h.cstr_eq (Nat.zero_le _)
  have hprevBuf : cstr prevLine.buf 0 = some prev.all := hprev.cstr_eq (Nat.zero_le _)
  have hmin : (min prevLine.length line.length).toNat = min prev.all.length text.all.length := by
    rw [h.length_all, hprev.length_all]
    omega
  have hend : line.cursor = line.length ↔ text.after = [] := by
    rw [h.cursor, h.length, ← List.length_eq_zero_iff]
    omega
  have hlt : prevLine.length < line.length ↔ prev.all.length < text.all.length := by
    rw [h.length_all, hprev.length_all]
    omega
  have hspaces : (prevLine.length - prevLine.cursor).toNat = prev.after.length := by
    rw [hprev.length, hprev.cursor]
    omega
  have hlonger : (prevLine.length - line.length).toNat = prev.all.length - text.all.length := by
    rw [h.length_all, hprev.length_all]
    omega
  have hpos : prevLine.cursor > 0 ↔ 0 < prev.before.length := by
    rw [hprev.cursor]
    omega
  have hinside : line.cursor < line.length ↔ 0 < text.after.length := by
    rw [h.cursor, h.length]
    omega
  have hafter : line.length - line.cursor = text.after.length := by
    rw [h.cursor, h.length]
    omega
  have hright : prevLine.cursor < line.cursor ↔ prev.before.length < text.before.length := by
    rw [h.cursor, hprev.cursor]
    omega
  have hleft : line.cursor < prevLine.cursor ↔ text.before.length < prev.before.length := by
    rw [h.cursor, hprev.cursor]
    omega
  unfold showLine render
  rw [hbuf, hprevBuf]
  simp only [Option.bind_eq_bind, Option.bind_some, hmin, hend, hlt, hspaces, hlonger, hpos, hinside, hafter, hright,
    hleft]
  have hlength := prev.length_all
  split
  · split
    · split
      · next hnew =>
        rw [hprev.cursor]
        exact h.cstr_eq (by omega)
      · rfl
    · rw [hprev.cursor]
      rfl
  · split
    · next hr =>
      rw [h.cursor, hprev.cursor, Int.natCast_sub (Nat.le_of_lt hr)]
      rfl
    · split
      · next hl =>
        rw [h.cursor, hprev.cursor, Int.natCast_sub (Nat.le_of_lt hl)]
        rfl
      · rfl

/-! ## On the terminal -/

section Terminal

open Terminal

/-- The old text starts with the new one, the cursor goes to the end of that, and the old
cursor is in front of a character of it that is not a space.  What is printed to get to the
end of the old line blanks it. -/
def Garbled (prev text : Text) : Prop :=
  text.all <+: prev.all ∧ text.all ≠ prev.all ∧ text.after = [] ∧ ∃ c ∈ text.all.drop prev.before.length, c ≠ 0x20

/-- What the terminal is to show. -/
def lineScreen (width : ℕ) (text : Text) : Terminal :=
  screen width (prompt ++ text.all) (prompt.length + text.before.length)

variable {width : ℕ} {prev text : Text}

theorem take_min_eq_iff {s t : List UInt8} :
    s.take (min t.length s.length) = t.take (min t.length s.length) ↔ s <+: t ∨ t <+: s := by
  rcases Nat.le_total s.length t.length with h | h
  · rw [Nat.min_eq_right h, List.take_length, ← List.prefix_iff_eq_take]
    constructor
    · exact .inl
    · rintro (hp | hp)
      · exact hp
      · rw [hp.eq_of_length_le h]
  · rw [Nat.min_eq_left h, List.take_length, eq_comm, ← List.prefix_iff_eq_take]
    constructor
    · exact .inr
    · rintro (hp | hp)
      · rw [hp.eq_of_length_le h]
      · exact hp

theorem Text.take_before (text : Text) : text.all.take text.before.length = text.before := List.take_left

/-- Only the cursor moves. -/
theorem feed_move (hall : text.all = prev.all) (hwidth : prompt.length + text.all.length < width) :
    feed (lineScreen width prev, .ground) (render prev text) = some (lineScreen width text, .ground) := by
  have hlen := text.length_all
  unfold render lineScreen
  rw [if_neg (not_not_intro hall), hall]
  split
  · next hr =>
    have hcol : prompt.length + prev.before.length + (text.before.length - prev.before.length) =
        prompt.length + text.before.length := by omega
    unfold controlSequence
    rw [feed_forward _ (by omega) (by omega), hcol]
  · split
    · have hcol : prompt.length + prev.before.length - (prev.before.length - text.before.length) =
          prompt.length + text.before.length := by omega
      unfold controlSequence
      rw [feed_back _ _ _ (by omega), hcol]
    · have hcol : prev.before.length = text.before.length := by omega
      rw [hcol]
      rfl

/-- Characters are appended. -/
theorem feed_new (hstart : prev.all <+: text.all) (hafter : text.after = []) (hlt : prev.all.length < text.all.length)
    (hprint : ∀ c ∈ text.all, isPrintable c = true) (hwidth : prompt.length + text.all.length < width) :
    feed (lineScreen width prev, .ground) (render prev text) = some (lineScreen width text, .ground) := by
  have hne : text.all ≠ prev.all := by
    intro h
    rw [h] at hlt
    exact absurd hlt (Nat.lt_irrefl _)
  have hlen := prev.length_all
  have hend : text.all.length = text.before.length := by
    rw [text.length_all, hafter]
    rfl
  have hdrop : (text.all.drop prev.before.length).length = text.all.length - prev.before.length := List.length_drop
  have hcol : prompt.length + prev.before.length + (text.all.drop prev.before.length).length =
      prompt.length + text.before.length := by omega
  have hrow : (prompt ++ prev.all).take (prompt.length + prev.before.length) ++ text.all.drop prev.before.length ++
      (prompt ++ prev.all).drop (prompt.length + text.before.length) = prompt ++ text.all := by
    have htake : prev.all.take prev.before.length = text.all.take prev.before.length := by
      obtain ⟨tail, htail⟩ := hstart
      rw [← htail, List.take_append_of_le_length (by omega)]
    rw [List.take_append, List.take_of_length_le (by omega), Nat.add_sub_cancel_left, htake, List.append_assoc prompt,
      List.take_append_drop, List.drop_of_length_le (by rw [List.length_append]; omega), List.append_nil]
  unfold render lineScreen
  rw [if_pos hne, if_pos ⟨take_min_eq_iff.mpr (.inr hstart), hafter⟩, if_pos hlt,
    feed_text (fun c hc => hprint c (List.mem_of_mem_drop hc)) (by rw [List.length_append]; omega)
      (by omega), hcol, hrow]

/-- The line is printed anew. -/
theorem feed_redraw (hne : text.all ≠ prev.all)
    (hredraw : ¬((text.all <+: prev.all ∨ prev.all <+: text.all) ∧ text.after = []))
    (hprint : ∀ c ∈ text.all, isPrintable c = true) (hwidth : prompt.length + text.all.length < width) :
    feed (lineScreen width prev, .ground) (render prev text) = some (lineScreen width text, .ground) := by
  have hlen := text.length_all
  -- back to the prompt
  have hback : feed (lineScreen width prev, .ground)
      (if 0 < prev.before.length then controlSequence prev.before.length 0x44 else []) =
      some (screen width (prompt ++ prev.all) prompt.length, .ground) := by
    unfold lineScreen controlSequence
    split
    · next hpos => rw [feed_back _ _ _ hpos, Nat.add_sub_cancel]
    · next hzero =>
      have : prev.before.length = 0 := by omega
      rw [this]
      rfl
  have herase : feed (screen width (prompt ++ prev.all) prompt.length, .ground) [0x1b, 0x5b, 0x4b] =
      some (screen width prompt prompt.length, .ground) := by
    rw [feed_erase (by rw [List.length_append]; omega), List.take_left]
  have htext : feed (screen width prompt prompt.length, .ground) text.all =
      some (screen width (prompt ++ text.all) (prompt.length + text.all.length), .ground) := by
    rw [feed_text hprint (Nat.le_refl _) hwidth, List.take_length, List.drop_of_length_le (by omega), List.append_nil]
  -- to the cursor
  have hcursor : feed (screen width (prompt ++ text.all) (prompt.length + text.all.length), .ground)
      (if 0 < text.after.length then controlSequence text.after.length 0x44 else []) =
      some (lineScreen width text, .ground) := by
    unfold lineScreen controlSequence
    split
    · next hpos =>
      have hcol : prompt.length + text.all.length - text.after.length = prompt.length + text.before.length := by omega
      rw [feed_back _ _ _ hpos, hcol]
    · have hcol : text.all.length = text.before.length := by omega
      rw [hcol]
      rfl
  unfold render
  rw [if_pos hne, if_neg (fun h => hredraw ⟨take_min_eq_iff.mp h.1, h.2⟩), feed_append, feed_append, feed_append, hback,
    Option.bind_some, herase, Option.bind_some, htext, Option.bind_some, hcursor]

/-- Characters at the end are removed: what is behind the old cursor is blanked first. -/
theorem feed_cut (hstart : text.all <+: prev.all) (hne : text.all ≠ prev.all) (hafter : text.after = [])
    (hwidth : prompt.length + prev.all.length < width) :
    feed (lineScreen width prev, .ground) (render prev text) =
      some (screen width (prompt ++ text.all.take prev.before.length) (prompt.length + text.before.length), .ground) := by
  have hle := hstart.length_le
  have hlen := prev.length_all
  have hend : text.all.length = text.before.length := by
    rw [text.length_all, hafter]
    rfl
  -- the old line with spaces from its cursor on
  have hspaces : feed (lineScreen width prev, .ground) (List.replicate prev.after.length 0x20) =
      some (screen width (prompt ++ prev.before ++ List.replicate prev.after.length 0x20)
        (prompt.length + prev.all.length), .ground) := by
    have hprint : ∀ c ∈ List.replicate prev.after.length (0x20 : UInt8), isPrintable c = true := by
      intro c hc
      rw [(List.mem_replicate.mp hc).2]
      rfl
    have hrow : (prompt ++ prev.all).take (prompt.length + prev.before.length) = prompt ++ prev.before := by
      rw [List.take_append, List.take_of_length_le (by omega), Nat.add_sub_cancel_left, prev.take_before]
    have hdrop : (prompt ++ prev.all).drop (prompt.length + prev.all.length) = [] :=
      List.drop_of_length_le (by rw [List.length_append])
    have hcol : prompt.length + prev.before.length + prev.after.length = prompt.length + prev.all.length := by omega
    unfold lineScreen
    rw [feed_text hprint (by rw [List.length_append]; omega) (by rw [List.length_replicate]; omega), List.length_replicate,
      hcol, hrow, hdrop, List.append_nil]
  have hrowlen : (prompt ++ prev.before ++ List.replicate prev.after.length (0x20 : UInt8)).length =
      prompt.length + text.before.length + (prev.all.length - text.all.length) := by
    rw [List.length_append, List.length_append, List.length_replicate]
    omega
  have hrub := feed_rubout width hrowlen (by omega)
  have hcol : prompt.length + text.before.length + (prev.all.length - text.all.length) =
      prompt.length + prev.all.length := by omega
  rw [hcol] at hrub
  -- of the old line up to the new end, spaces are not seen
  have htake : shown ((prompt ++ prev.before ++ List.replicate prev.after.length 0x20).take
      (prompt.length + text.before.length)) = shown (prompt ++ text.all.take prev.before.length) := by
    have hbefore : text.all.take prev.before.length = prev.before.take text.before.length := by
      have hall : prev.all.take text.before.length = text.all := by
        rw [← hend]
        exact (List.prefix_iff_eq_take.mp hstart).symm
      calc text.all.take prev.before.length = (prev.all.take text.before.length).take prev.before.length := by rw [hall]
        _ = (prev.all.take prev.before.length).take text.before.length := by
          rw [List.take_take, List.take_take, Nat.min_comm]
        _ = prev.before.take text.before.length := by rw [prev.take_before]
    rw [List.append_assoc, List.take_append, List.take_of_length_le (by omega), Nat.add_sub_cancel_left, List.take_append,
      List.take_replicate, ← List.append_assoc, shown_append_spaces, hbefore]
  unfold render
  rw [if_pos hne, if_pos ⟨take_min_eq_iff.mpr (.inl hstart), hafter⟩, if_neg (by omega), feed_append, hspaces,
    Option.bind_some, hrub]
  unfold screen
  rw [htake]

/-- What is printed takes the terminal to a screen with the cursor at its place. -/
theorem feed_render (width : ℕ) (prev : Text) (hprint : ∀ c ∈ text.all, isPrintable c = true)
    (hwidth : prompt.length + prev.all.length < width) (hwidth' : prompt.length + text.all.length < width) :
    ∃ row, feed (lineScreen width prev, .ground) (render prev text) =
        some (screen width row (prompt.length + text.before.length), .ground) ∧
      (shown row = shown (prompt ++ text.all) ↔ ¬Garbled prev text) := by
  by_cases hall : text.all = prev.all
  · exact ⟨_, feed_move hall hwidth', iff_of_true rfl fun hg => hg.2.1 hall⟩
  by_cases hredraw : (text.all <+: prev.all ∨ prev.all <+: text.all) ∧ text.after = []
  · obtain ⟨hstart, hafter⟩ := hredraw
    by_cases hcut : text.all <+: prev.all
    · refine ⟨_, feed_cut hcut hall hafter hwidth, ?_⟩
      have hsplit : prompt ++ text.all =
          (prompt ++ text.all.take prev.before.length) ++ text.all.drop prev.before.length := by
        rw [List.append_assoc, List.take_append_drop]
      rw [eq_comm, hsplit, shown_append_eq_iff]
      constructor
      · rintro hspaces ⟨-, -, -, c, hc, hne⟩
        exact hne (hspaces c hc)
      · intro hg c hc
        by_contra hne
        exact hg ⟨hcut, hall, hafter, c, hc, hne⟩
    · have hnew := hstart.resolve_left hcut
      have hlt : prev.all.length < text.all.length := by
        rcases Nat.lt_or_ge prev.all.length text.all.length with hlt | hge
        · exact hlt
        · exact absurd (hnew.eq_of_length_le hge).symm hall
      exact ⟨_, feed_new hnew hafter hlt hprint hwidth', iff_of_true rfl fun hg => hcut hg.1⟩
  · exact ⟨_, feed_redraw hall hredraw hprint hwidth', iff_of_true rfl fun hg => hredraw ⟨.inl hg.1, hg.2.2.1⟩⟩

/-- **What the terminal shows is the line**, unless the change is garbled. -/
theorem show_line_renders (prevLine line : Line) (prev text : Text) (hprev : prevLine.Holds prev) (h : line.Holds text)
    (hprint : ∀ c ∈ prev.all ++ text.all, isPrintable c = true) (t : Terminal)
    (hwidth : prompt.length + prev.all.length < t.width ∧ prompt.length + text.all.length < t.width)
    (hshows : t.Shows (prompt ++ prev.all) (prompt.length + prev.before.length)) :
    ∃ out, showLine prevLine line = some out ∧
      ((∃ t', t.interpret out = some t' ∧ t'.Shows (prompt ++ text.all) (prompt.length + text.before.length)) ↔
        ¬Garbled prev text) := by
  obtain ⟨row, hfeed, hrow⟩ := feed_render t.width prev
    (fun c hc => hprint c (List.mem_append_right _ hc)) hwidth.1 hwidth.2
  have hscreen : t = lineScreen t.width prev := hshows.eq_screen
  have hinterpret : t.interpret (render prev text) =
      some (screen t.width row (prompt.length + text.before.length)) := by
    rw [hscreen]
    exact interpret_of_feed hfeed
  refine ⟨render prev text, showLine_eq hprev h, ?_⟩
  rw [← hrow, hinterpret]
  constructor
  · rintro ⟨t', ht', hcells, -⟩
    rw [← Option.some_inj.mp ht'] at hcells
    exact hcells
  · intro hcells
    exact ⟨_, rfl, hcells, rfl⟩

/-- A character is inserted. -/
theorem show_line_renders_insert :
    ∃ out t', showLine ⟨[0x61, 0x62] ++ List.replicate 254 0, 2, 1⟩ ⟨[0x61, 0x20, 0x62] ++ List.replicate 253 0, 3, 2⟩ =
        some out ∧
      (screen 80 (prompt ++ [0x61, 0x62]) 3).interpret out = some t' ∧ t'.Shows (prompt ++ [0x61, 0x20, 0x62]) 4 := by
  have hfree : NulFree [0x61, 0x62] ∧ NulFree [0x61, 0x20, 0x62] := by decide
  have hlen (s : List UInt8) (n : ℕ) : (s ++ List.replicate n 0).length = s.length + n := by
    rw [List.length_append, List.length_replicate]
  have hng : ¬Garbled ⟨[0x61], [0x62]⟩ ⟨[0x61, 0x20], [0x62]⟩ := fun h => absurd h.2.2.1 (by decide)
  obtain ⟨out, hout, hiff⟩ := show_line_renders ⟨[0x61, 0x62] ++ List.replicate 254 0, 2, 1⟩
    ⟨[0x61, 0x20, 0x62] ++ List.replicate 253 0, 3, 2⟩ ⟨[0x61], [0x62]⟩ ⟨[0x61, 0x20], [0x62]⟩
    ⟨rfl, rfl, ⟨List.replicate 253 0, rfl⟩, hlen _ _, hfree.1⟩ ⟨rfl, rfl, ⟨List.replicate 252 0, rfl⟩, hlen _ _, hfree.2⟩
    (List.all_eq_true.mp rfl) (screen 80 (prompt ++ [0x61, 0x62]) 3) (by decide) ⟨rfl, rfl⟩
  obtain ⟨t', ht', hshows⟩ := hiff.mpr hng
  exact ⟨out, t', hout, ht', hshows⟩

/-- `ab` has been typed, and `Ctrl+A`; `UP` recalls `a`, and the terminal shows nothing behind
the prompt. -/
theorem show_line_garbles :
    ∃ prevLine line out t',
      (lineInit ⟨List.replicate 256 0, 0, 0⟩ >>= fun line =>
        [EditKey.other 0x61, .other 0x62, .ctrlA].foldlM (fun line key => key.handle line) line) = some prevLine ∧
      (lineInit prevLine >>= fun line => lineInsertString line [0x61]) = some line ∧
      showLine prevLine line = some out ∧ (screen 80 (prompt ++ [0x61, 0x62]) 2).interpret out = some t' ∧
      ¬t'.Shows (prompt ++ [0x61]) 3 := by
  refine ⟨⟨[0x61, 0x62] ++ List.replicate 254 0, 2, 0⟩, ⟨[0x61, 0] ++ List.replicate 254 0, 1, 1⟩, [0x20, 0x20, 8, 0x20, 8],
    _, by decide +kernel, by decide +kernel, by decide +kernel, rfl, ?_⟩
  rintro ⟨hcells, -⟩
  exact absurd (congrFun hcells 2) (by decide)

/-! ## Any number of keys -/

/-- A key is handled, and the line shown. -/
def typeKey (s : Line × Terminal) (key : EditKey) : Option (Line × Terminal) := do
  let line ← key.handle s.1
  let t ← s.2.interpret (← showLine s.1 line)
  return (line, t)

theorem length_swapAt {α : Type*} (s : List α) (i j : ℕ) : (swapAt s i j).length = s.length := by
  unfold swapAt
  split
  · rw [List.length_set, List.length_set]
  · rfl

theorem mem_of_mem_swapAt {α : Type*} {s : List α} {i j : ℕ} {c : α} (h : c ∈ swapAt s i j) : c ∈ s := by
  unfold swapAt at h
  split at h
  · next a b ha hb =>
    rcases List.mem_or_eq_of_mem_set h with h | rfl
    · rcases List.mem_or_eq_of_mem_set h with h | rfl
      · exact h
      · exact List.mem_of_getElem? hb
    · exact List.mem_of_getElem? ha
  · exact h

theorem swap_all (text : Text) : text.swap.all = text.all ∨
    text.swap.all = swapAt text.all (min text.before.length (text.all.length - 1) - 1)
      (min text.before.length (text.all.length - 1)) := by
  unfold Text.swap
  split
  · exact .inr (List.take_append_drop _ _)
  · exact .inl rfl

/-! The keys that move the cursor leave the line as it is. -/

theorem edit_ctrlE_all (text : Text) : (text.edit .ctrlE).all = text.all := List.append_nil _

theorem edit_right_all (text : Text) : (text.edit .right).all = text.all := by
  show text.before ++ text.after.take 1 ++ text.after.drop 1 = text.all
  rw [List.append_assoc, List.take_append_drop]
  rfl

theorem edit_left_all (text : Text) : (text.edit .left).all = text.all := by
  show text.before.dropLast ++ (text.before.getLast?.toList ++ text.after) = text.before ++ text.after
  rcases List.eq_nil_or_concat' text.before with hb | ⟨u, c, hb⟩
  · rw [hb]
    rfl
  · rw [hb, List.dropLast_concat, List.getLast?_concat, ← List.append_assoc]
    rfl

/-- No editing key moves the cursor away from a character that it removes the end of the line behind. -/
theorem not_garbled_edit (text : Text) (key : EditKey) : ¬Garbled text (text.edit key) := by
  have hcut {t : Text} (hall : t.all.length ≤ text.before.length) : ¬Garbled text t := by
    rintro ⟨-, -, -, c, hc, -⟩
    rw [List.drop_of_length_le hall] at hc
    exact List.not_mem_nil hc
  have hsame {t : Text} (hall : t.all.length = text.all.length) : ¬Garbled text t := by
    rintro ⟨hstart, hne, -⟩
    exact hne (hstart.eq_of_length hall)
  cases key with
  | other ch =>
    show ¬Garbled text (if text.all.length = 255 then text else ⟨text.before ++ [ch], text.after⟩)
    split
    · exact hsame rfl
    · rintro ⟨hstart, -, -⟩
      have hle := hstart.length_le
      simp only [Text.all, List.length_append, List.length_cons, List.length_nil] at hle
      omega
  | backspace =>
    intro hg
    have hafter : text.after = [] := hg.2.2.1
    refine hcut ?_ hg
    show (text.before.dropLast ++ text.after).length ≤ _
    rw [hafter, List.append_nil, List.length_dropLast]
    exact Nat.sub_le _ _
  | ctrlA => exact hsame rfl
  | home => exact hsame rfl
  | ctrlE => exact hsame (congrArg List.length (edit_ctrlE_all text))
  | endKey => exact hsame (congrArg List.length (edit_ctrlE_all text))
  | ctrlD =>
    intro hg
    have hafter : text.after.tail = [] := hg.2.2.1
    refine hcut ?_ hg
    show (text.before ++ text.after.tail).length ≤ _
    rw [hafter, List.append_nil]
  | ctrlK => exact hcut (by show (text.before ++ []).length ≤ _; rw [List.append_nil])
  | ctrlT =>
    apply hsame
    show text.swap.all.length = _
    rcases swap_all text with h | h
    · rw [h]
    · rw [h, length_swapAt]
  | altD =>
    intro hg
    refine hcut ?_ hg
    rw [Text.length_all, hg.2.2.1]
    exact Nat.le_refl _
  | right => exact hsame (congrArg List.length (edit_right_all text))
  | left => exact hsame (congrArg List.length (edit_left_all text))

/-- A key brings no characters into the line but its own. -/
theorem mem_edit {text : Text} {key : EditKey} {c : UInt8} (h : c ∈ (text.edit key).all) :
    c ∈ text.all ∨ key = .other c := by
  have hsub {b a : List UInt8} (hb : b.Sublist text.before) (ha : a.Sublist text.after) (h : c ∈ b ++ a) : c ∈ text.all :=
    (hb.append ha).subset h
  cases key with
  | other ch =>
    replace h : c ∈ (if text.all.length = 255 then text else ⟨text.before ++ [ch], text.after⟩ : Text).all := h
    split at h
    · exact .inl h
    · simp only [Text.all, List.mem_append, List.mem_singleton] at h ⊢
      rcases h with (h | rfl) | h
      · exact .inl (.inl h)
      · exact .inr rfl
      · exact .inl (.inr h)
  | backspace => exact .inl (hsub (List.dropLast_sublist _) (List.Sublist.refl _) h)
  | ctrlA => exact .inl h
  | home => exact .inl h
  | ctrlE => exact .inl (edit_ctrlE_all text ▸ h)
  | endKey => exact .inl (edit_ctrlE_all text ▸ h)
  | ctrlD => exact .inl (hsub (List.Sublist.refl _) (List.tail_sublist _) h)
  | ctrlK => exact .inl (hsub (List.Sublist.refl _) (List.nil_sublist _) h)
  | ctrlT =>
    replace h : c ∈ text.swap.all := h
    rcases swap_all text with hs | hs
    · exact .inl (hs ▸ h)
    · exact .inl (mem_of_mem_swapAt (hs ▸ h))
  | altD =>
    exact .inl (hsub (List.Sublist.refl _) ((List.dropWhile_sublist _).trans (List.dropWhile_sublist _)) h)
  | right => exact .inl (edit_right_all text ▸ h)
  | left => exact .inl (edit_left_all text ▸ h)

/-- **After any number of editing keys** the terminal shows the line. -/
theorem keys_shown {keys : List EditKey} (hkeys : ∀ ch, .other ch ∈ keys → isPrintable ch = true)
    (hprint : ∀ c ∈ text.all, isPrintable c = true) (hwidth : prompt.length + 255 < width) {line : Line}
    (h : line.Holds text) :
    ∃ line', keys.foldlM typeKey (line, lineScreen width text) =
        some (line', lineScreen width (keys.foldl Text.edit text)) ∧ line'.Holds (keys.foldl Text.edit text) := by
  induction keys generalizing line text with
  | nil => exact ⟨line, rfl, h⟩
  | cons key keys ih =>
    have hprint' : ∀ c ∈ (text.edit key).all, isPrintable c = true := by
      intro c hc
      rcases mem_edit hc with hc | rfl
      · exact hprint c hc
      · exact hkeys c List.mem_cons_self
    have hkey : key ≠ .other 0 := by
      rintro rfl
      exact absurd (hkeys 0 List.mem_cons_self) (by decide)
    obtain ⟨line₁, hhandle, h₁⟩ := handle_holds key hkey h
    have hfits := h.fits
    have hfits₁ := h₁.fits
    obtain ⟨row, hfeed, hrow⟩ := feed_render width text hprint'
      (by rw [Text.length_all]; omega) (by rw [Text.length_all]; omega)
    have hscreen : screen width row (prompt.length + (text.edit key).before.length) = lineScreen width (text.edit key) := by
      unfold lineScreen screen
      rw [hrow.mpr (not_garbled_edit text key)]
    have hstep : typeKey (line, lineScreen width text) key = some (line₁, lineScreen width (text.edit key)) := by
      unfold typeKey
      rw [hscreen] at hfeed
      simp [hhandle, showLine_eq h h₁, interpret_of_feed hfeed]
    obtain ⟨line₂, hrun, h₂⟩ := ih (fun ch hch => hkeys ch (List.mem_cons_of_mem _ hch)) hprint' h₁
    refine ⟨line₂, ?_, h₂⟩
    rw [List.foldlM_cons, hstep]
    exact hrun

end Terminal

end Monolinux
