import Monolinux.Shell.Line

/-!
# The editing keys

`readKey` is what `read_command` and `handle_alt` read from stdin for one key, and
`EditKey.handle` what the handler of an editing key does to the line.  `Text.edit` is
what the key is for: an editor on a text with a cursor.

* `handle_holds`: a handler takes a line that holds a text to one that holds the
  edited text;
* `line_refines_editor`: so does every sequence of keys, from `line_init` on; no
  access leaves the buffer and every loop ends.
-/

namespace Monolinux

/-! ## Keys -/

/-- The keys whose handler works on the line only. -/
inductive EditKey
  | other (ch : UInt8)
  | backspace
  | ctrlA
  | ctrlE
  | ctrlD
  | ctrlK
  | ctrlT
  | altD
  | home
  | endKey
  | right
  | left
  deriving DecidableEq, Repr

inductive Key
  | edit (key : EditKey)
  | tab
  | carriageReturn
  | newline
  | ctrlR
  | up
  | down
  | unknown
  deriving DecidableEq, Repr

/-- What `handle_alt` reads.  At the end of the input the program exits (`none`). -/
def readAlt : List UInt8 → Option (Key × List UInt8)
  | [] => none
  | 0x64 :: input => some (.edit .altD, input) -- d
  | 0x4f :: input => -- O
    match input with
    | [] => none
    | 0x48 :: input => some (.edit .home, input) -- H
    | 0x46 :: input => some (.edit .endKey, input) -- F
    | _ :: input => some (.unknown, input)
  | 0x5b :: input => -- [
    match input with
    | [] => none
    | 0x41 :: input => some (.up, input) -- A
    | 0x42 :: input => some (.down, input) -- B
    | 0x43 :: input => some (.edit .right, input) -- C
    | 0x44 :: input => some (.edit .left, input) -- D
    | _ :: input => some (.unknown, input)
  | _ :: input => some (.unknown, input)

/-- The `switch` of `read_command`. -/
def readKey : List UInt8 → Option (Key × List UInt8)
  | [] => none
  | 9 :: input => some (.tab, input)
  | 13 :: input => some (.carriageReturn, input)
  | 10 :: input => some (.newline, input)
  | 127 :: input => some (.edit .backspace, input)
  | 8 :: input => some (.edit .backspace, input)
  | 1 :: input => some (.edit .ctrlA, input)
  | 5 :: input => some (.edit .ctrlE, input)
  | 4 :: input => some (.edit .ctrlD, input)
  | 11 :: input => some (.edit .ctrlK, input)
  | 20 :: input => some (.edit .ctrlT, input)
  | 18 :: input => some (.ctrlR, input)
  | 27 :: input => readAlt input
  | ch :: input => some (.edit (.other ch), input)

/-- What is typed for a key. -/
def EditKey.bytes : EditKey → List UInt8
  | other ch => [ch]
  | backspace => [8]
  | ctrlA => [1]
  | ctrlE => [5]
  | ctrlD => [4]
  | ctrlK => [11]
  | ctrlT => [20]
  | altD => [27, 0x64]
  | home => [27, 0x4f, 0x48]
  | endKey => [27, 0x4f, 0x46]
  | right => [27, 0x5b, 0x43]
  | left => [27, 0x5b, 0x44]

/-- The bytes that are handled by another handler than `handle_other`. -/
def handledBytes : List UInt8 := [9, 13, 10, 127, 8, 1, 5, 4, 11, 20, 18, 27]

theorem readKey_bytes (key : EditKey) (hkey : ∀ ch ∈ handledBytes, key ≠ .other ch) (input : List UInt8) :
    readKey (key.bytes ++ input) = some (.edit key, input) := by
  cases key with
  | other ch =>
    have hch : ch ∉ handledBytes := fun h => hkey ch h rfl
    unfold handledBytes at hch
    simp only [List.mem_cons, List.not_mem_nil, or_false, not_or] at hch
    show readKey (ch :: input) = _
    unfold readKey
    split <;> simp_all
  | _ => rfl

/-! ## Handlers -/

def handleBackspace (line : Line) : Option Line :=
  let (line, moved) := lineSeek line (-1)
  if moved then lineDelete line else some line

def handleCtrlA (line : Line) : Option Line := some (lineSeekBegin line)

def handleCtrlE (line : Line) : Option Line := some (lineSeekEnd line)

def handleCtrlD (line : Line) : Option Line := lineDelete line

def handleCtrlK (line : Line) : Option Line := lineTruncate line

def handleCtrlT (line : Line) : Option Line :=
  -- Cannot swap if the cursor is at the beginning of the line.
  if line.cursor = 0 then some line
  -- Cannot swap if there are less than two characters.
  else if line.length < 2 then some line
  else do
    -- Move the cursor to the second character.
    let line := if line.cursor = line.length then (lineSeek line (-1)).1 else line
    -- Swap the two characters.
    let ch ← linePeek line
    let line ← lineDelete line
    let line := (lineSeek line (-1)).1
    let (line, _) ← lineInsert line ch
    return (lineSeek line 1).1

def isblank (ch : UInt8) : Bool := ch == 0x20 || ch == 9

/-- The loops of `handle_alt`: `while (cond(line_peek())) line_delete();`, not over after `fuel` tests: `none`. -/
def deleteWhile (cond : UInt8 → Bool) : ℕ → Line → Option Line
  | 0, _ => none
  | fuel + 1, line => do
    let ch ← linePeek line
    if cond ch then deleteWhile cond fuel (← lineDelete line) else return line

/-- Alt+D. -/
def handleAltD (line : Line) : Option Line := do
  let line ← deleteWhile isblank (line.length.toNat + 1) line
  deleteWhile (fun ch => !isblank ch && ch != 0) (line.length.toNat + 1) line

def handleOther (ch : UInt8) (line : Line) : Option Line := do
  let (line, _) ← lineInsert line ch
  return line

def EditKey.handle : EditKey → Line → Option Line
  | other ch => handleOther ch
  | backspace => handleBackspace
  | ctrlA => handleCtrlA
  | ctrlE => handleCtrlE
  | ctrlD => handleCtrlD
  | ctrlK => handleCtrlK
  | ctrlT => handleCtrlT
  | altD => handleAltD
  | home => fun line => some (lineSeekBegin line)
  | endKey => fun line => some (lineSeekEnd line)
  | right => fun line => some (lineSeek line 1).1
  | left => fun line => some (lineSeek line (-1)).1

/-! ## The editor -/

/-- The elements at `i` and `j` change places. -/
def swapAt {α : Type*} (s : List α) (i j : ℕ) : List α :=
  match s[i]?, s[j]? with
  | some a, some b => (s.set i b).set j a
  | _, _ => s

/-- The characters in front of and at `c` change places, and the cursor is behind them. -/
def Text.swap (text : Text) : Text :=
  if 0 < text.before.length ∧ 2 ≤ text.all.length then
    let c := min text.before.length (text.all.length - 1)
    let all := swapAt text.all (c - 1) c
    ⟨all.take (c + 1), all.drop (c + 1)⟩
  else text

def Text.edit (text : Text) : EditKey → Text
  | .other ch => if text.all.length = 255 then text else ⟨text.before ++ [ch], text.after⟩
  | .backspace => ⟨text.before.dropLast, text.after⟩
  | .ctrlA | .home => ⟨[], text.all⟩
  | .ctrlE | .endKey => ⟨text.all, []⟩
  | .ctrlD => ⟨text.before, text.after.tail⟩
  | .ctrlK => ⟨text.before, []⟩
  | .ctrlT => text.swap
  | .altD => ⟨text.before, (text.after.dropWhile isblank).dropWhile fun ch => !isblank ch⟩
  | .right => ⟨text.before ++ text.after.take 1, text.after.drop 1⟩
  | .left => ⟨text.before.dropLast, text.before.getLast?.toList ++ text.after⟩

/-! ## Handlers refine the editor -/

section Refinement

variable {line : Line} {text : Text} {before after : List UInt8}

theorem handleOther_holds (h : line.Holds text) {ch : UInt8} (hch : ch ≠ 0) :
    ∃ line', handleOther ch line = some line' ∧ line'.Holds (text.edit (.other ch)) := by
  have hall : text.all.length = text.before.length + text.after.length := List.length_append
  have hedit : text.edit (.other ch) =
      if text.all.length = 255 then text else ⟨text.before ++ [ch], text.after⟩ := rfl
  unfold handleOther
  by_cases hfull : text.all.length = 255
  · rw [hedit, if_pos hfull, lineInsert_of_full h (by omega)]
    exact ⟨line, rfl, h⟩
  · have hfits := h.fits
    obtain ⟨line', hins, h'⟩ := lineInsert_of_room h (by omega) hch
    rw [hedit, if_neg hfull, hins]
    exact ⟨line', rfl, h'⟩

theorem handleBackspace_holds (h : line.Holds text) :
    ∃ line', handleBackspace line = some line' ∧ line'.Holds (text.edit .backspace) := by
  obtain ⟨before, after⟩ := text
  unfold handleBackspace
  rcases List.eq_nil_or_concat' before with rfl | ⟨u, c, rfl⟩
  · rw [lineSeek_left_of_begin h]
    exact ⟨line, rfl, h⟩
  · obtain ⟨line₁, hseek, h₁⟩ := lineSeek_left h
    obtain ⟨line₂, hdel, h₂⟩ := lineDelete_of_cons h₁
    rw [hseek]
    refine ⟨line₂, hdel, ?_⟩
    show line₂.Holds ⟨(u ++ [c]).dropLast, after⟩
    rwa [List.dropLast_concat]

theorem lineDelete_holds (h : line.Holds text) :
    ∃ line', lineDelete line = some line' ∧ line'.Holds (text.edit .ctrlD) := by
  obtain ⟨before, after⟩ := text
  cases after with
  | nil => exact ⟨line, lineDelete_of_end h, h⟩
  | cons c after => exact lineDelete_of_cons h

theorem lineSeek_right_holds (h : line.Holds text) : (lineSeek line 1).1.Holds (text.edit .right) := by
  obtain ⟨before, after⟩ := text
  cases after with
  | nil =>
    rw [lineSeek_right_of_end h]
    show line.Holds ⟨before ++ [], []⟩
    rwa [List.append_nil]
  | cons c after =>
    obtain ⟨line', hseek, h'⟩ := lineSeek_right h
    rw [hseek]
    exact h'

theorem lineSeek_left_holds (h : line.Holds text) : (lineSeek line (-1)).1.Holds (text.edit .left) := by
  obtain ⟨before, after⟩ := text
  rcases List.eq_nil_or_concat' before with rfl | ⟨u, c, rfl⟩
  · rw [lineSeek_left_of_begin h]
    exact h
  · obtain ⟨line', hseek, h'⟩ := lineSeek_left h
    rw [hseek]
    show line'.Holds ⟨(u ++ [c]).dropLast, (u ++ [c]).getLast?.toList ++ after⟩
    rwa [List.dropLast_concat, List.getLast?_concat]

/-- An iteration deletes a character, so the loop comes to an end. -/
theorem deleteWhile_holds (cond : UInt8 → Bool) (hnul : cond 0 = false) (h : line.Holds ⟨before, after⟩) {fuel : ℕ}
    (hfuel : after.length < fuel) :
    ∃ line', deleteWhile cond fuel line = some line' ∧ line'.Holds ⟨before, after.dropWhile cond⟩ := by
  induction after generalizing line fuel with
  | nil =>
    obtain ⟨fuel, rfl⟩ := Nat.exists_eq_add_of_lt hfuel
    refine ⟨line, ?_, h⟩
    simp [deleteWhile, linePeek_of_end h, hnul]
  | cons c after ih =>
    obtain ⟨fuel, rfl⟩ : ∃ k, fuel = k + 1 := ⟨fuel - 1, by omega⟩
    rw [List.length_cons] at hfuel
    cases hc : cond c with
    | false =>
      refine ⟨line, ?_, ?_⟩
      · simp [deleteWhile, linePeek_of_cons h, hc]
      · rwa [List.dropWhile_cons_of_neg (by simp [hc])]
    | true =>
      obtain ⟨line₁, hdel, h₁⟩ := lineDelete_of_cons h
      obtain ⟨line₂, hloop, h₂⟩ := ih h₁ (Nat.lt_of_succ_lt_succ hfuel)
      refine ⟨line₂, ?_, ?_⟩
      · simp [deleteWhile, linePeek_of_cons h, hc, hdel, hloop]
      · rwa [List.dropWhile_cons_of_pos hc]

theorem handleAltD_holds (h : line.Holds text) :
    ∃ line', handleAltD line = some line' ∧ line'.Holds (text.edit .altD) := by
  obtain ⟨before, after⟩ := text
  have hfuel {line : Line} {after : List UInt8} (h : line.Holds ⟨before, after⟩) :
      after.length < line.length.toNat + 1 := by
    have := h.length
    dsimp only at this
    omega
  obtain ⟨line₁, hblanks, h₁⟩ := deleteWhile_holds isblank rfl h (hfuel h)
  obtain ⟨line₂, hword, h₂⟩ := deleteWhile_holds (fun ch => !isblank ch && ch != 0) rfl h₁ (hfuel h₁)
  refine ⟨line₂, ?_, ?_⟩
  · unfold handleAltD
    rw [hblanks]
    exact hword
  · -- the line holds no NUL, so the test for it changes nothing
    have hfree : NulFree (after.dropWhile isblank) :=
      (nulFree_append.mp h.nulFree).2.sublist (List.dropWhile_sublist _)
    have hcond : (after.dropWhile isblank).dropWhile (fun ch => !isblank ch && ch != 0) =
        (after.dropWhile isblank).dropWhile fun ch => !isblank ch := by
      generalize after.dropWhile isblank = s at hfree
      induction s with
      | nil => rfl
      | cons c s ih =>
        obtain ⟨hc, hs⟩ := nulFree_cons.mp hfree
        simp only [List.dropWhile_cons, bne_iff_ne.mpr hc, Bool.and_true, ih hs]
    show line₂.Holds ⟨before, _⟩
    rwa [← hcond]

theorem swapAt_append (u : List UInt8) (a b : UInt8) (v : List UInt8) :
    swapAt (u ++ a :: b :: v) u.length (u.length + 1) = u ++ b :: a :: v := by
  have ha : (u ++ a :: b :: v)[u.length]? = some a := by simp
  have hb : (u ++ a :: b :: v)[u.length + 1]? = some b := by simp
  unfold swapAt
  rw [ha, hb]
  simp

/-- What the editor does between two characters. -/
theorem swap_eq {u v : List UInt8} {a b : UInt8} (hall : text.all = u ++ a :: b :: v)
    (hc : min text.before.length (text.all.length - 1) = u.length + 1) :
    text.swap = ⟨u ++ [b, a], v⟩ := by
  have hlen := congrArg List.length hall
  simp only [List.length_append, List.length_cons] at hlen
  unfold Text.swap
  rw [if_pos (by omega), hc, hall]
  dsimp only
  rw [Nat.add_sub_cancel, swapAt_append]
  have htake : (u ++ b :: a :: v).take (u.length + 1 + 1) = u ++ [b, a] := by
    rw [List.take_append, List.take_of_length_le (by omega)]
    simp [Nat.add_assoc]
  have hdrop : (u ++ b :: a :: v).drop (u.length + 1 + 1) = v := by
    rw [List.drop_append, List.drop_of_length_le (by omega)]
    simp [Nat.add_assoc]
  rw [htake, hdrop]

/-- The two characters around the cursor are swapped. -/
theorem swapCharacters {u v : List UInt8} {a b : UInt8} (h : line.Holds ⟨u ++ [a], b :: v⟩) :
    ∃ line₁ line₂ line₃ line₄, linePeek line = some b ∧ lineDelete line = some line₁ ∧
      lineSeek line₁ (-1) = (line₂, true) ∧ lineInsert line₂ b = some (line₃, true) ∧
      lineSeek line₃ 1 = (line₄, true) ∧ line₄.Holds ⟨u ++ [b, a], v⟩ := by
  have hfits := h.fits
  have hb : b ≠ 0 := h.nulFree b (by simp [Text.all])
  simp only [List.length_append, List.length_cons, List.length_nil] at hfits
  obtain ⟨line₁, hdel, h₁⟩ := lineDelete_of_cons h
  obtain ⟨line₂, hback, h₂⟩ := lineSeek_left h₁
  obtain ⟨line₃, hins, h₃⟩ := lineInsert_of_room h₂ (by rw [List.length_cons]; omega) hb
  obtain ⟨line₄, hon, h₄⟩ := lineSeek_right h₃
  rw [List.append_assoc] at h₄
  exact ⟨line₁, line₂, line₃, line₄, linePeek_of_cons h, hdel, hback, hins, hon, h₄⟩

theorem handleCtrlT_holds (h : line.Holds text) :
    ∃ line', handleCtrlT line = some line' ∧ line'.Holds (text.edit .ctrlT) := by
  obtain ⟨before, after⟩ := text
  have hcursor := h.cursor
  have hlength := h.length
  dsimp only at hcursor hlength
  have hall : (Text.all ⟨before, after⟩).length = before.length + after.length := List.length_append
  show ∃ line', _ ∧ Line.Holds line' (Text.swap _)
  unfold handleCtrlT
  by_cases hbegin : before.length = 0
  · refine ⟨line, if_pos (by omega), ?_⟩
    unfold Text.swap
    rwa [if_neg (by dsimp only; omega)]
  by_cases hshort : before.length + after.length < 2
  · refine ⟨line, ?_, ?_⟩
    · rw [if_neg (by omega), if_pos (by omega)]
    · unfold Text.swap
      rwa [if_neg (by dsimp only; omega)]
  rw [if_neg (by omega), if_neg (by omega)]
  rcases List.eq_nil_or_concat' before with rfl | ⟨u, a, rfl⟩
  · exact absurd rfl hbegin
  cases after with
  | cons b v =>
    -- the cursor is in the line
    rw [List.length_cons] at hlength
    have hswap : Text.swap ⟨u ++ [a], b :: v⟩ = ⟨u ++ [b, a], v⟩ := by
      apply swap_eq
      · simp [Text.all]
      · rw [hall]
        simp
    obtain ⟨line₁, line₂, line₃, line₄, hpeek, hdel, hback, hins, hon, h₄⟩ := swapCharacters h
    rw [if_neg (by omega), hswap]
    refine ⟨line₄, ?_, h₄⟩
    simp [hpeek, hdel, hback, hins, hon]
  | nil =>
    -- the cursor is at its end
    rcases List.eq_nil_or_concat' u with rfl | ⟨u, b, rfl⟩
    · exact absurd (Nat.lt_succ_self 1) hshort
    have hswap : Text.swap ⟨u ++ [b] ++ [a], []⟩ = ⟨u ++ [a, b], []⟩ := by
      apply swap_eq
      · simp [Text.all]
      · rw [hall]
        simp
    obtain ⟨line₀, hseek, h₀⟩ := lineSeek_left h
    obtain ⟨line₁, line₂, line₃, line₄, hpeek, hdel, hback, hins, hon, h₄⟩ := swapCharacters h₀
    have hend : line.cursor = line.length := by
      rw [hcursor, hlength]
      simp
    rw [if_pos hend, hswap, hseek]
    refine ⟨line₄, ?_, h₄⟩
    simp [hpeek, hdel, hback, hins, hon]

/-- **One key.** -/
theorem handle_holds (key : EditKey) (hkey : key ≠ .other 0) (h : line.Holds text) :
    ∃ line', key.handle line = some line' ∧ line'.Holds (text.edit key) := by
  cases key with
  | other ch => exact handleOther_holds h fun hch => hkey (by rw [hch])
  | backspace => exact handleBackspace_holds h
  | ctrlA => exact ⟨_, rfl, lineSeekBegin_holds h⟩
  | ctrlE => exact ⟨_, rfl, lineSeekEnd_holds h⟩
  | ctrlD => exact lineDelete_holds h
  | ctrlK => exact lineTruncate_holds h
  | ctrlT => exact handleCtrlT_holds h
  | altD => exact handleAltD_holds h
  | home => exact ⟨_, rfl, lineSeekBegin_holds h⟩
  | endKey => exact ⟨_, rfl, lineSeekEnd_holds h⟩
  | right => exact ⟨_, rfl, lineSeek_right_holds h⟩
  | left => exact ⟨_, rfl, lineSeek_left_holds h⟩

/-- **Any number of keys.** -/
theorem foldlM_handle_holds {keys : List EditKey} (hkeys : .other 0 ∉ keys) (h : line.Holds text) :
    ∃ line', keys.foldlM (fun line key => key.handle line) line = some line' ∧
      line'.Holds (keys.foldl Text.edit text) := by
  induction keys generalizing line text with
  | nil => exact ⟨line, rfl, h⟩
  | cons key keys ih =>
    rw [List.mem_cons, not_or] at hkeys
    obtain ⟨line₁, hkey, h₁⟩ := handle_holds key (Ne.symm hkeys.1) h
    obtain ⟨line₂, hrest, h₂⟩ := ih hkeys.2 h₁
    refine ⟨line₂, ?_, h₂⟩
    rw [List.foldlM_cons, hkey]
    exact hrest

end Refinement

/-- The line with its cursor, as the buffer has it. -/
def Line.text (line : Line) : Text where
  before := line.buf.take line.cursor.toNat
  after := (line.buf.take line.length.toNat).drop line.cursor.toNat

theorem Line.Stores.text_eq {line : Line} {text : Text} (h : line.Stores text) : line.text = text := by
  obtain ⟨junk, hbuf⟩ := h.buf
  have hcursor : line.cursor.toNat = text.before.length := by
    rw [h.cursor]
    rfl
  have hlength : line.length.toNat = text.all.length := by
    rw [h.length, Text.all, List.length_append]
    rfl
  have hall : line.buf.take text.all.length = text.all := by
    rw [hbuf, ← List.append_assoc]
    exact List.take_left
  unfold Line.text
  rw [hcursor, hlength, hall, hbuf, List.take_left, Text.all, List.drop_left]

theorem Line.Holds.text_eq {line : Line} {text : Text} (h : line.Holds text) : line.text = text := h.stores.text_eq

/-- A line holds its text, or none. -/
theorem Line.exists_holds_iff {line : Line} : (∃ text, line.Holds text) ↔ line.Holds line.text :=
  ⟨fun ⟨text, h⟩ => by rwa [h.text_eq], fun h => ⟨_, h⟩⟩

theorem Line.Holds.load_length {line : Line} {text : Text} (h : line.Holds text) :
    load line.buf line.length = some 0 := by
  obtain ⟨junk, hbuf⟩ := h.buf
  have hlength : line.length = (text.before ++ text.after).length := by
    rw [h.length, List.length_append]
    rfl
  rw [hbuf, hlength, ← List.append_assoc]
  exact load_eq _ 0 junk

theorem Line.Holds.load_ne {line : Line} {text : Text} (h : line.Holds text) {i : ℤ} (h0 : 0 ≤ i)
    (hi : i < line.length) : load line.buf i ≠ some 0 := by
  obtain ⟨junk, hbuf⟩ := h.buf
  obtain ⟨k, rfl⟩ := Int.eq_ofNat_of_zero_le h0
  have hk : k < text.all.length := by
    rw [h.length] at hi
    rw [Text.all, List.length_append]
    omega
  have hload : load line.buf k = some text.all[k] := by
    show line.buf[k]? = _
    rw [hbuf, ← List.append_assoc, ← Text.all, List.getElem?_append_left hk, List.getElem?_eq_getElem hk]
  rw [hload]
  intro hnul
  exact h.nulFree _ (List.getElem_mem hk) (Option.some_inj.mp hnul)

/-- **The line buffer refines the editor.**  From `line_init` on every sequence of keys is
handled without an access outside the buffer, and leaves the text the editor has. -/
theorem line_refines_editor (line₀ : Line) (hsize : line₀.buf.length = 256) (keys : List EditKey)
    (hkeys : .other 0 ∉ keys) :
    ∃ line, (lineInit line₀ >>= fun line => keys.foldlM (fun line key => key.handle line) line) = some line ∧
      0 ≤ line.cursor ∧ line.cursor ≤ line.length ∧ line.length ≤ 255 ∧ line.buf.length = 256 ∧
      load line.buf line.length = some 0 ∧ (∀ i, 0 ≤ i → i < line.length → load line.buf i ≠ some 0) ∧
      line.text = keys.foldl Text.edit ⟨[], []⟩ := by
  obtain ⟨line₁, hinit, h₁⟩ := lineInit_holds hsize
  obtain ⟨line, hkeys, h⟩ := foldlM_handle_holds hkeys h₁
  have hcursor := h.cursor
  have hlength := h.length
  have hfits := h.fits
  refine ⟨line, ?_, by omega, by omega, by omega, h.size, h.load_length, fun i => h.load_ne, h.text_eq⟩
  rw [hinit]
  exact hkeys

theorem line_refines_editor_typo :
    ∃ line, (lineInit ⟨List.replicate 256 1, 7, 9⟩ >>= fun line =>
        [EditKey.other 0x62, .other 0x61, .ctrlT].foldlM (fun line key => key.handle line) line) = some line ∧
      line.text = ⟨[0x61, 0x62], []⟩ := by
  obtain ⟨line, hline, -, -, -, -, -, -, htext⟩ := line_refines_editor ⟨List.replicate 256 1, 7, 9⟩
    List.length_replicate [EditKey.other 0x62, .other 0x61, .ctrlT] (by decide)
  exact ⟨line, hline, htext⟩

/-! ## Any bytes -/

section Bytes

variable {line : Line} {text : Text} {before after : List UInt8}

theorem lineInsert_stores (h : line.Stores text) (ch : UInt8) :
    ∃ line' inserted text', lineInsert line ch = some (line', inserted) ∧ line'.Stores text' := by
  by_cases hfull : text.before.length + text.after.length = 255
  · exact ⟨line, false, text, h.insert_of_full hfull ch, h⟩
  · have hfits := h.fits
    obtain ⟨line', hinsert, h'⟩ := h.insert_of_room (by omega) ch
    exact ⟨line', true, _, hinsert, h'⟩

theorem lineDelete_stores (h : line.Stores text) : ∃ line' text', lineDelete line = some line' ∧ line'.Stores text' := by
  obtain ⟨before, after⟩ := text
  cases after with
  | nil => exact ⟨line, _, h.delete_of_end, h⟩
  | cons c after =>
    obtain ⟨line', hdelete, h'⟩ := h.delete_of_cons
    exact ⟨line', _, hdelete, h'⟩

theorem linePeek_stores (h : line.Stores text) : ∃ ch, linePeek line = some ch := by
  obtain ⟨before, after⟩ := text
  cases after with
  | nil => exact ⟨0, h.peek_of_end⟩
  | cons c after => exact ⟨c, h.peek_of_cons⟩

/-- The cursor goes anywhere in the line. -/
theorem Line.Stores.seek (h : line.Stores text) {c : ℕ} (hc : c ≤ text.all.length) :
    ∃ text', Line.Stores { line with cursor := c } text' := by
  have hmoved := h.moved ⟨text.all.take c, text.all.drop c⟩ (List.take_append_drop _ _)
  dsimp only at hmoved
  rw [List.length_take, Nat.min_eq_left hc] at hmoved
  exact ⟨_, hmoved⟩

theorem Line.Stores.length_all (h : line.Stores text) : line.length = text.all.length := by
  rw [h.length, text.length_all]
  rfl

theorem lineSeek_stores (h : line.Stores text) {pos : ℤ} (hpos : pos = 1 ∨ pos = -1) :
    ∃ text', (lineSeek line pos).1.Stores text' := by
  have hcursor := h.cursor
  have hlength := h.length_all
  have hall := text.length_all
  unfold lineSeek
  rcases hpos with rfl | rfl
  · rw [if_neg (by decide)]
    by_cases hend : line.cursor + 1 > line.length
    · rw [if_pos hend]
      exact ⟨text, h⟩
    · rw [if_neg hend, show line.cursor + 1 = (text.before.length + 1 : ℕ) by omega]
      exact h.seek (by omega)
  · rw [if_pos (by decide)]
    by_cases hbegin : line.cursor + -1 < 0
    · rw [if_pos hbegin]
      exact ⟨text, h⟩
    · rw [if_neg hbegin, show line.cursor + -1 = (text.before.length - 1 : ℕ) by omega]
      exact h.seek (by omega)

theorem deleteWhile_stores (cond : UInt8 → Bool) (hnul : cond 0 = false) (h : line.Stores ⟨before, after⟩) {fuel : ℕ}
    (hfuel : after.length < fuel) : ∃ line' text', deleteWhile cond fuel line = some line' ∧ line'.Stores text' := by
  induction after generalizing line fuel with
  | nil =>
    obtain ⟨fuel, rfl⟩ := Nat.exists_eq_add_of_lt hfuel
    refine ⟨line, _, ?_, h⟩
    simp [deleteWhile, h.peek_of_end, hnul]
  | cons c after ih =>
    obtain ⟨fuel, rfl⟩ : ∃ k, fuel = k + 1 := ⟨fuel - 1, by omega⟩
    rw [List.length_cons] at hfuel
    cases hc : cond c with
    | false => exact ⟨line, _, by simp [deleteWhile, h.peek_of_cons, hc], h⟩
    | true =>
      obtain ⟨line₁, hdel, h₁⟩ := h.delete_of_cons
      obtain ⟨line₂, text₂, hloop, h₂⟩ := ih h₁ (Nat.lt_of_succ_lt_succ hfuel)
      exact ⟨line₂, text₂, by simp [deleteWhile, h.peek_of_cons, hc, hdel, hloop], h₂⟩

theorem handleAltD_stores (h : line.Stores text) : ∃ line' text', handleAltD line = some line' ∧ line'.Stores text' := by
  have hfuel {line : Line} {text : Text} (h : line.Stores text) : text.after.length < line.length.toNat + 1 := by
    have := h.length
    omega
  obtain ⟨line₁, text₁, hblanks, h₁⟩ := deleteWhile_stores isblank rfl h (hfuel h)
  obtain ⟨line₂, text₂, hword, h₂⟩ := deleteWhile_stores (fun ch => !isblank ch && ch != 0) rfl h₁ (hfuel h₁)
  refine ⟨line₂, text₂, ?_, h₂⟩
  unfold handleAltD
  rw [hblanks]
  exact hword

theorem handleCtrlT_stores (h : line.Stores text) : ∃ line' text', handleCtrlT line = some line' ∧ line'.Stores text' := by
  unfold handleCtrlT
  split
  next => exact ⟨line, text, rfl, h⟩
  next =>
    split
    next => exact ⟨line, text, rfl, h⟩
    next =>
      obtain ⟨text₀, h₀⟩ : ∃ text₀,
          (if line.cursor = line.length then (lineSeek line (-1)).1 else line).Stores text₀ := by
        split
        next => exact lineSeek_stores h (.inr rfl)
        next => exact ⟨text, h⟩
      obtain ⟨ch, hpeek⟩ := linePeek_stores h₀
      obtain ⟨line₁, text₁, hdel, h₁⟩ := lineDelete_stores h₀
      obtain ⟨text₂, h₂⟩ := lineSeek_stores h₁ (.inr rfl)
      obtain ⟨line₃, inserted, text₃, hins, h₃⟩ := lineInsert_stores h₂ ch
      obtain ⟨text₄, h₄⟩ := lineSeek_stores h₃ (.inl rfl)
      exact ⟨_, text₄, by simp [hpeek, hdel, hins], h₄⟩

/-- **One key, and any byte.** -/
theorem handle_stores (key : EditKey) (h : line.Stores text) :
    ∃ line' text', key.handle line = some line' ∧ line'.Stores text' := by
  have hlength := h.length_all
  have hbegin : ∃ text', (lineSeekBegin line).Stores text' := h.seek (Nat.zero_le _)
  have hend : ∃ text', (lineSeekEnd line).Stores text' := by
    have hseek : lineSeekEnd line = { line with cursor := (text.all.length : ℤ) } := by
      unfold lineSeekEnd
      rw [hlength]
    rw [hseek]
    exact h.seek (Nat.le_refl _)
  cases key with
  | other ch =>
    obtain ⟨line', inserted, text', hins, h'⟩ := lineInsert_stores h ch
    exact ⟨line', text', by simp [EditKey.handle, handleOther, hins], h'⟩
  | backspace =>
    obtain ⟨text₁, h₁⟩ := lineSeek_stores h (.inr rfl)
    obtain ⟨line₂, text₂, hdel, h₂⟩ := lineDelete_stores h₁
    show ∃ line' text', handleBackspace line = some line' ∧ line'.Stores text'
    unfold handleBackspace
    cases hseek : lineSeek line (-1) with
    | mk line₁ moved =>
      rw [hseek] at h₁ hdel
      cases moved with
      | true => exact ⟨line₂, text₂, hdel, h₂⟩
      | false => exact ⟨line₁, text₁, rfl, h₁⟩
  | ctrlA => exact ⟨_, hbegin.choose, rfl, hbegin.choose_spec⟩
  | ctrlE => exact ⟨_, hend.choose, rfl, hend.choose_spec⟩
  | ctrlD => exact lineDelete_stores h
  | ctrlK =>
    obtain ⟨line', htruncate, h'⟩ := h.truncate
    exact ⟨line', _, htruncate, h'⟩
  | ctrlT => exact handleCtrlT_stores h
  | altD => exact handleAltD_stores h
  | home => exact ⟨_, hbegin.choose, rfl, hbegin.choose_spec⟩
  | endKey => exact ⟨_, hend.choose, rfl, hend.choose_spec⟩
  | right =>
    obtain ⟨text', h'⟩ := lineSeek_stores h (.inl rfl)
    exact ⟨_, text', rfl, h'⟩
  | left =>
    obtain ⟨text', h'⟩ := lineSeek_stores h (.inr rfl)
    exact ⟨_, text', rfl, h'⟩

/-- **Any keys and bytes** from `line_init` on. -/
theorem foldlM_handle_stores {keys : List EditKey} (h : line.Stores text) :
    ∃ line' text', keys.foldlM (fun line key => key.handle line) line = some line' ∧ line'.Stores text' := by
  induction keys generalizing line text with
  | nil => exact ⟨line, text, rfl, h⟩
  | cons key keys ih =>
    obtain ⟨line₁, text₁, hkey, h₁⟩ := handle_stores key h
    obtain ⟨line₂, text₂, hrest, h₂⟩ := ih h₁
    refine ⟨line₂, text₂, ?_, h₂⟩
    rw [List.foldlM_cons, hkey]
    exact hrest

end Bytes

end Monolinux
