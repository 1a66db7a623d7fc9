import Monolinux.Lib.CommonPrefix
import Monolinux.Shell.ShowLine

/-!
# TAB

`autoCompleteCommand` on a table of command names; what it reads of a name is the name
with its NUL, and an access behind it has no result.

The characters are inserted at the cursor, but the names are compared with the whole
line.  `tab_completes` says for which lines this completes the text: those where the
characters that are added commute with those behind the cursor.  A line with a NUL in it
is compared up to the NUL only.
-/

namespace Monolinux

/-! ## The source -/

/-- The names from the first match on. -/
def firstMatch (buf : List UInt8) (size : ℕ) : List (List UInt8) → Option (List (List UInt8))
  | [] => some []
  | name :: names => do
    let same ← strncmpZero (name ++ [0]) buf size
    if same then some (name :: names) else firstMatch buf size names

/-- It's a match if all commands matching line has the same next character. -/
def mismatch (buf : List UInt8) (size : ℕ) (nextChar : UInt8) : List (List UInt8) → Option Bool
  | [] => some false
  | name :: names => do
    let same ← strncmpZero (name ++ [0]) buf size
    if same then do
      let ch ← load (name ++ [0]) size
      if ch ≠ nextChar then some true else mismatch buf size nextChar names
    else some false

/-- The `while (true)` loop: the line, and `completion_happend`.  Not over after `fuel` iterations: `none`. -/
def completeLoop (name : List UInt8) (found : List (List UInt8)) : ℕ → ℕ → Line → Bool → Option (Line × Bool)
  | 0, _, _, _ => none
  | fuel + 1, size, line, completed => do
    let nextChar ← load (name ++ [0]) size
    let different ← mismatch line.buf size nextChar found
    -- This character mismatch?
    if different then some (line, completed)
    -- Append a space on full match.
    else if nextChar = 0 then do
      let (line, _) ← lineInsert line 0x20
      return (line, true)
    else do
      let (line, _) ← lineInsert line nextChar
      completeLoop name found fuel (size + 1) line true

/-- The names that match the line, each with a newline. -/
def alternatives (buf : List UInt8) (size : ℕ) : List (List UInt8) → Option (List UInt8)
  | [] => some []
  | name :: names => do
    let same ← strncmpZero (name ++ [0]) buf size
    if same then do
      let printed ← alternatives buf size names
      return name ++ 0x0a :: printed
    else some []

/-- The line, and the bytes that are printed. -/
def autoCompleteCommand (commands : List (List UInt8)) (line : Line) : Option (Line × List UInt8) := do
  let size := line.length.toNat
  let found ← firstMatch line.buf size commands
  match found with
  -- No command matching the line.
  | [] => return (line, [])
  | name :: names =>
    let (line, completed) ← completeLoop name (name :: names) (name.length + 1) size line false
    if completed then return (line, [])
    else do
      -- Print all alternatives if no completion happened.
      let printed ← alternatives line.buf size (name :: names)
      let buf ← cstr line.buf 0
      return (line, 0x0a :: printed ++ prompt ++ buf)

/-! ## What TAB is for -/

/-- The commands that start with the text. -/
def startingWith (commands : List (List UInt8)) (t : List UInt8) : List (List UInt8) :=
  commands.filter (t <+: ·)

/-- Their longest common prefix, and a space behind a single one; at most 255 characters. -/
def completion (commands : List (List UInt8)) (t : List UInt8) : List UInt8 :=
  (longestCommonPrefix (startingWith commands t) ++ if (startingWith commands t).length = 1 then [0x20] else []).take 255

/-- What is added to the text. -/
def addition (commands : List (List UInt8)) (t : List UInt8) : List UInt8 := (completion commands t).drop t.length

/-- What TAB shall do to a line with the text. -/
def Completes (commands : List (List UInt8)) (text : Text) (result : Option Line) : Prop :=
  ∃ line', result = some line' ∧ text.all <+: line'.text.all ∧
    (startingWith commands text.all = [] → line'.text = text) ∧
    (startingWith commands text.all ≠ [] → line'.text.all = completion commands text.all) ∧
    (completion commands text.all = text.all → line'.text = text)

/-- The lines that are completed. -/
def Completable (commands : List (List UInt8)) (text : Text) : Prop :=
  if NulFree text.all then
    startingWith commands text.all = [] ∨
      addition commands text.all ++ text.after = text.after ++ addition commands text.all
  else text.all.takeWhile (· ≠ 0) ∉ commands

/-! ## Comparisons -/

section Comparisons

variable {buf u name : List UInt8} {names : List (List UInt8)} {size : ℕ}

/-- The names that are compared, up to the end of the string or with it. -/
theorem firstMatch_eq {junk : List UInt8} (hbuf : buf = u ++ 0 :: junk) (hu : NulFree u) (size : ℕ)
    (hnames : ∀ name ∈ names, NulFree name) : firstMatch buf size names =
      some (names.dropWhile fun name => !(if size ≤ u.length then decide (u.take size <+: name) else decide (name = u))) := by
  induction names with
  | nil => rfl
  | cons name names ih =>
    obtain ⟨hname, hnames⟩ := List.forall_mem_cons.mp hnames
    have hsame := strncmpZero_eq [] junk hname hu size
    unfold firstMatch
    rw [hbuf, hsame, Option.bind_eq_bind, Option.bind_some, List.dropWhile_cons, ← hbuf]
    by_cases h : (if size ≤ u.length then decide (u.take size <+: name) else decide (name = u)) = true
    · rw [if_pos h, h]
      rfl
    · rw [if_neg h, Bool.not_eq_true] at *
      rw [h, ih hnames]
      rfl

theorem load_name (hsize : size ≤ name.length) : load (name ++ [0]) size = some (name[size]?.getD 0) := by
  show (name ++ [0])[size]? = _
  rcases Nat.lt_or_eq_of_le hsize with hlt | rfl
  · rw [List.getElem?_append_left hlt, List.getElem?_eq_getElem hlt]
    rfl
  · rw [List.getElem?_append_right (Nat.le_refl _), Nat.sub_self, List.getElem?_eq_none (Nat.le_refl _)]
    rfl

/-- Up to the end of the string, the names that begin with it are looked at. -/
theorem mismatch_inside {junk : List UInt8} (hbuf : buf = u ++ 0 :: junk) (hu : NulFree u) (hsize : size ≤ u.length)
    (nextChar : UInt8) (hnames : ∀ name ∈ names, NulFree name) : mismatch buf size nextChar names =
      some ((names.takeWhile (u.take size <+: ·)).any fun name => name[size]?.getD 0 ≠ nextChar) := by
  induction names with
  | nil => rfl
  | cons name names ih =>
    obtain ⟨hname, hnames⟩ := List.forall_mem_cons.mp hnames
    have hsame := strncmpZero_eq [] junk hname hu size
    rw [if_pos hsize] at hsame
    unfold mismatch
    rw [hbuf, hsame, Option.bind_eq_bind, Option.bind_some, ← hbuf]
    by_cases hprefix : u.take size <+: name
    · have hlen := hprefix.length_le
      rw [List.length_take, Nat.min_eq_left hsize] at hlen
      rw [decide_eq_true hprefix, if_pos rfl, load_name hlen, Option.bind_eq_bind, Option.bind_some, ih hnames,
        List.takeWhile_cons_of_pos (by simpa using hprefix), List.any_cons]
      by_cases hdiffer : name[size]?.getD 0 ≠ nextChar
      · rw [if_pos hdiffer, decide_eq_true hdiffer, Bool.true_or]
      · rw [if_neg hdiffer, decide_eq_false hdiffer, Bool.false_or]
    · rw [decide_eq_false hprefix, if_neg Bool.false_ne_true, List.takeWhile_cons_of_neg (by simpa using hprefix)]
      rfl

/-- Behind its end a longer name differs. -/
theorem mismatch_beyond {junk : List UInt8} (hbuf : buf = u ++ 0 :: junk) (hu : NulFree u) (hsize : u.length < size)
    (hlen : size ≤ name.length) (hname : NulFree name) (nextChar : UInt8) :
    mismatch buf size nextChar (name :: names) = some false := by
  have hsame := strncmpZero_eq [] junk hname hu size
  have hne : name ≠ u := by
    rintro rfl
    omega
  rw [if_neg (by omega), decide_eq_false hne] at hsame
  unfold mismatch
  rw [hbuf, hsame]
  rfl

end Comparisons

/-! ## The loop -/

/-- The first name that starts with the text `before ++ after`, and those behind it. -/
structure Found (name : List UInt8) (names : List (List UInt8)) (before after : List UInt8) : Prop where
  sorted : (name :: names).Pairwise (· < ·)
  nulFree : ∀ n ∈ name :: names, NulFree n
  starts : before ++ after <+: name

section Loop

variable {line : Line} {name before after x : List UInt8} {names : List (List UInt8)} {k : ℕ}

/-- An insertion, where the line is cut. -/
theorem lineInsert_cut (h : line.Holds ⟨before ++ x.take (255 - (before ++ after).length), after⟩) {ch : UInt8}
    (hch : ch ≠ 0) : ∃ line' inserted, lineInsert line ch = some (line', inserted) ∧
      line'.Holds ⟨before ++ (x ++ [ch]).take (255 - (before ++ after).length), after⟩ := by
  have hfits := h.fits
  simp only [List.length_append, List.length_take] at hfits
  by_cases hroom : x.length < 255 - (before ++ after).length
  · rw [List.take_of_length_le (Nat.le_of_lt hroom)] at h
    rw [List.take_of_length_le (by rw [List.length_append, List.length_singleton]; exact hroom)]
    rw [List.length_append] at hroom
    obtain ⟨line', hinsert, h'⟩ := lineInsert_of_room h (by rw [List.length_append]; omega) hch
    rw [List.append_assoc] at h'
    exact ⟨line', true, hinsert, h'⟩
  · rw [List.take_append_of_le_length (by omega)]
    rw [List.length_append] at hroom
    have hfull := lineInsert_of_full h (by simp only [List.length_append, List.length_take]; omega) ch
    exact ⟨line, false, hfull, h⟩

theorem Found.mem (hf : Found name names before after) : name ∈ startingWith (name :: names) (before ++ after) :=
  List.mem_filter.mpr ⟨List.mem_cons_self, by simpa using hf.starts⟩

/-- The string in the line after `k` characters. -/
theorem string_eq (hk : (before ++ after).length + k ≤ name.length)
    (h : line.Holds ⟨before ++ ((name.drop (before ++ after).length).take k).take (255 - (before ++ after).length), after⟩) :
    ∃ u junk, line.buf = u ++ 0 :: junk ∧ NulFree u ∧ u.length = (before ++ after).length + min k (255 - (before ++ after).length) ∧
      u = before ++ ((name.drop (before ++ after).length).take k).take (255 - (before ++ after).length) ++ after := by
  obtain ⟨junk, hbuf⟩ := h.buf
  refine ⟨_, junk, ?_, h.nulFree, ?_, rfl⟩
  · rw [hbuf, ← List.append_assoc]
    rfl
  · simp only [Text.all, List.length_append, List.length_take, List.length_drop] at hk ⊢
    omega

/-- The scan has a result; a mismatch ends the common prefix of several names. -/
theorem Found.mismatch_cases (hf : Found name names before after) (hk : (before ++ after).length + k ≤ name.length)
    (h : line.Holds ⟨before ++ ((name.drop (before ++ after).length).take k).take (255 - (before ++ after).length), after⟩) :
    ∃ different, mismatch line.buf ((before ++ after).length + k) (name[(before ++ after).length + k]?.getD 0) (name :: names) =
      some different ∧ (different = true →
        (longestCommonPrefix (startingWith (name :: names) (before ++ after))).length ≤ (before ++ after).length + k ∧
          (startingWith (name :: names) (before ++ after)).length ≠ 1) := by
  obtain ⟨u, junk, hbuf, hu, hlen, -⟩ := string_eq hk h
  have hname := hf.nulFree name List.mem_cons_self
  by_cases hroom : k ≤ 255 - (before ++ after).length
  · have hsize : (before ++ after).length + k = u.length := by omega
    have hresult := mismatch_inside hbuf hu (Nat.le_of_eq hsize) (name[(before ++ after).length + k]?.getD 0) hf.nulFree
    rw [List.take_of_length_le (Nat.le_of_eq hsize.symm)] at hresult
    refine ⟨_, hresult, fun hdifferent => ?_⟩
    obtain ⟨n, hn, hdiffer⟩ := List.any_eq_true.mp hdifferent
    have hdiffer : n[(before ++ after).length + k]?.getD 0 ≠ name[(before ++ after).length + k]?.getD 0 := by
      simpa using hdiffer
    -- the line is what the first name begins with
    have hfirst : u <+: name := by
      by_contra hnot
      rw [List.takeWhile_cons_of_neg (by simpa using hnot)] at hn
      exact absurd hn List.not_mem_nil
    have hun : u <+: n := by simpa using List.mem_takeWhile_imp hn
    have htu : before ++ after <+: u := List.prefix_of_prefix_length_le hf.starts hfirst (by omega)
    have hmem : n ∈ startingWith (name :: names) (before ++ after) :=
      List.mem_filter.mpr ⟨(List.takeWhile_sublist _).subset hn, by simpa using htu.trans hun⟩
    constructor
    · by_contra hlt
      exact hdiffer (by rw [getElem?_eq_of_lt hmem hf.mem (by omega)])
    · intro hone
      obtain ⟨m, hm⟩ := List.length_eq_one_iff.mp hone
      have hname' := hf.mem
      rw [hm] at hmem hname'
      rw [List.mem_singleton.mp hmem, List.mem_singleton.mp hname'] at hdiffer
      exact hdiffer rfl
  · exact ⟨false, mismatch_beyond hbuf hu (by omega) hk hname _, fun hfalse => by cases hfalse⟩

/-- Of several names that start with the text one is not the first. -/
theorem Found.exists_other (hf : Found name names before after)
    (hseveral : (startingWith (name :: names) (before ++ after)).length ≠ 1) :
    ∃ other ∈ startingWith (name :: names) (before ++ after), other ≠ name := by
  have hsorted : (startingWith (name :: names) (before ++ after)).Pairwise (· < ·) :=
    hf.sorted.sublist List.filter_sublist
  by_contra hnone
  push Not at hnone
  rcases hm : startingWith (name :: names) (before ++ after) with _ | ⟨a, _ | ⟨b, l⟩⟩
  · exact List.ne_nil_of_mem hf.mem hm
  · exact hseveral (by rw [hm]; rfl)
  · rw [hm] at hsorted hnone
    have hab := (List.pairwise_cons.mp hsorted).1 b List.mem_cons_self
    rw [hnone a List.mem_cons_self, hnone b (List.mem_cons_of_mem _ List.mem_cons_self)] at hab
    exact List.lt_irrefl name hab

/-- Where several names differ there is a mismatch, if the line is what they begin with. -/
theorem Found.mismatch_end (hf : Found name names before after) {e : List UInt8}
    (he : longestCommonPrefix (startingWith (name :: names) (before ++ after)) = before ++ after ++ e)
    (hseveral : (startingWith (name :: names) (before ++ after)).length ≠ 1)
    (hcommute : e ++ after = after ++ e) (h : line.Holds ⟨before ++ e, after⟩) :
    mismatch line.buf ((before ++ after).length + e.length) (name[(before ++ after).length + e.length]?.getD 0)
      (name :: names) = some true := by
  have hlen : (before ++ after).length + e.length = (before ++ after ++ e).length := List.length_append.symm
  obtain ⟨junk, hbuf⟩ := h.buf
  have hfree := h.nulFree
  have hline : before ++ e ++ after = before ++ after ++ e := by rw [List.append_assoc, hcommute, List.append_assoc]
  have hbuf : line.buf = (before ++ after ++ e) ++ 0 :: junk := by rw [hbuf, ← List.append_assoc, hline]
  unfold Text.all at hfree
  rw [hline] at hfree
  rw [hlen, mismatch_inside hbuf hfree (Nat.le_refl _) _ hf.nulFree, List.take_of_length_le (Nat.le_refl _)]
  obtain ⟨other, hother, hne⟩ := hf.exists_other hseveral
  obtain ⟨m, hm, hdiffer⟩ := exists_differs hf.mem hother hne
  rw [he] at hdiffer
  have hstarts : before ++ after ++ e <+: name := by
    rw [← he]
    exact longestCommonPrefix_prefix hf.mem
  have hprefix : before ++ after ++ e <+: m := by
    rw [← he]
    exact longestCommonPrefix_prefix hm
  have hscan : m ∈ (name :: names).takeWhile (before ++ after ++ e <+: ·) := by
    rw [takeWhile_prefix_eq_filter hf.sorted hstarts]
    exact List.mem_filter.mpr ⟨(List.mem_filter.mp hm).1, by simpa using hprefix⟩
  refine congrArg some (List.any_eq_true.mpr ⟨m, hscan, decide_eq_true fun hsame => hdiffer ?_⟩)
  exact getElem?_eq_of_getD (hf.nulFree m (List.mem_filter.mp hm).1) (hf.nulFree name List.mem_cons_self) hsame

/-- **The loop** adds what the first name has behind the text, and a space or up to a mismatch; where the
characters commute with those behind the cursor it stops at the end of the common prefix. -/
theorem Found.completeLoop_eq (hf : Found name names before after) {e : List UInt8}
    (he : longestCommonPrefix (startingWith (name :: names) (before ++ after)) = before ++ after ++ e) {fuel : ℕ}
    (hk : (before ++ after).length + k ≤ name.length) (hfuel : name.length - ((before ++ after).length + k) < fuel)
    (h : line.Holds ⟨before ++ ((name.drop (before ++ after).length).take k).take (255 - (before ++ after).length), after⟩)
    (completed : Bool) : ∃ line' completed' x,
      completeLoop name (name :: names) fuel ((before ++ after).length + k) line completed = some (line', completed') ∧
      line'.Holds ⟨before ++ x.take (255 - (before ++ after).length), after⟩ ∧
      x <+: name.drop (before ++ after).length ++ [0x20] ∧
      (x = name.drop (before ++ after).length ++ [0x20] ∨
        e.length ≤ x.length ∧ (startingWith (name :: names) (before ++ after)).length ≠ 1) ∧
      (k ≤ e.length → (startingWith (name :: names) (before ++ after)).length ≠ 1 →
        (before ++ after ++ e).length ≤ 255 → e ++ after = after ++ e → x = e) := by
  obtain ⟨r, hr⟩ : before ++ after ++ e <+: name := by
    rw [← he]
    exact longestCommonPrefix_prefix hf.mem
  have hdrop : name.drop (before ++ after).length = e ++ r := by rw [← hr, List.append_assoc, List.drop_left]
  have htake : (name.drop (before ++ after).length).take e.length = e := by rw [hdrop, List.take_left]
  have hrest : (name.drop (before ++ after).length).length = name.length - (before ++ after).length := List.length_drop
  induction fuel generalizing k line completed with
  | zero => omega
  | succ fuel ih =>
    obtain ⟨different, hdifferent, hmismatch⟩ := hf.mismatch_cases hk h
    -- at the end of the common prefix
    have hstop : k = e.length → (startingWith (name :: names) (before ++ after)).length ≠ 1 →
        (before ++ after ++ e).length ≤ 255 → e ++ after = after ++ e → different = true := by
      rintro rfl hseveral hfits hcommute
      rw [List.length_append] at hfits
      have hline := h
      rw [htake, List.take_of_length_le (by omega)] at hline
      have hend := hf.mismatch_end he hseveral hcommute hline
      rw [hend] at hdifferent
      exact (Option.some_inj.mp hdifferent).symm
    unfold completeLoop
    rw [load_name hk, Option.bind_eq_bind, Option.bind_some, hdifferent, Option.bind_eq_bind, Option.bind_some]
    cases different with
    | true =>
      obtain ⟨hlen, hseveral⟩ := hmismatch rfl
      rw [he, List.length_append] at hlen
      refine ⟨line, completed, (name.drop (before ++ after).length).take k, rfl, h,
        (List.take_prefix _ _).trans (List.prefix_append _ _), .inr ⟨?_, hseveral⟩, fun hke _ _ _ => ?_⟩
      · rw [List.length_take]
        omega
      · rw [show k = e.length by omega, htake]
    | false =>
      rw [if_neg Bool.false_ne_true]
      have hgo : k ≤ e.length → (startingWith (name :: names) (before ++ after)).length ≠ 1 →
          (before ++ after ++ e).length ≤ 255 → e ++ after = after ++ e → k + 1 ≤ e.length := by
        intro hke hseveral hfits hcommute
        rcases Nat.lt_or_eq_of_le hke with hlt | heq
        · exact hlt
        · cases hstop heq hseveral hfits hcommute
      rcases Nat.lt_or_eq_of_le hk with hlt | heq
      · -- one more character of the name
        have hget : (name.drop (before ++ after).length)[k]? = some name[(before ++ after).length + k] := by
          rw [List.getElem?_drop, List.getElem?_eq_getElem hlt]
        have hne : name[(before ++ after).length + k] ≠ 0 := hf.nulFree name List.mem_cons_self _ (List.getElem_mem hlt)
        have hnext : (name.drop (before ++ after).length).take (k + 1) =
            (name.drop (before ++ after).length).take k ++ [name[(before ++ after).length + k]] := by
          rw [List.take_add_one, hget]
          rfl
        obtain ⟨line₁, inserted, hinsert, h₁⟩ := lineInsert_cut h hne
        rw [← hnext] at h₁
        rw [List.getElem?_eq_getElem hlt, Option.getD_some, if_neg hne, hinsert]
        obtain ⟨line', completed', x, hloop, h', hprefix, hend, hcommutes⟩ := ih (by omega) (by omega) h₁ true
        exact ⟨line', completed', x, hloop, h', hprefix, hend,
          fun hke hseveral hfits hcommute => hcommutes (hgo hke hseveral hfits hcommute) hseveral hfits hcommute⟩
      · -- the name is complete
        have hall : (name.drop (before ++ after).length).take k = name.drop (before ++ after).length :=
          List.take_of_length_le (by omega)
        rw [hall] at h
        have hspace : (0x20 : UInt8) ≠ 0 := by decide
        obtain ⟨line₁, inserted, hinsert, h₁⟩ := lineInsert_cut h hspace
        rw [heq, List.getElem?_eq_none (Nat.le_refl _), Option.getD_none, if_pos rfl, hinsert]
        refine ⟨line₁, true, _, rfl, h₁, List.prefix_refl _, .inl rfl, fun hke hseveral hfits hcommute => ?_⟩
        have hmore := hgo hke hseveral hfits hcommute
        have hshort := congrArg List.length htake
        rw [List.length_take] at hshort
        omega

end Loop

/-! ## The result -/

section Result

variable {commands : List (List UInt8)} {line : Line} {text : Text} {t e : List UInt8}

theorem startingWith_dropWhile (commands : List (List UInt8)) (t : List UInt8) :
    startingWith (commands.dropWhile fun name => !decide (t <+: name)) t = startingWith commands t := by
  have hnone : (commands.takeWhile fun name => !decide (t <+: name)).filter (t <+: ·) = [] := by
    rw [List.filter_eq_nil_iff]
    intro name hname
    have := List.mem_takeWhile_imp hname
    simpa using this
  unfold startingWith
  rw [← List.takeWhile_append_dropWhile (p := fun name => !decide (t <+: name)) (l := commands), List.filter_append, hnone,
    List.nil_append, List.takeWhile_append_dropWhile]

theorem alternatives_isSome {buf u junk : List UInt8} (hbuf : buf = u ++ 0 :: junk) (hu : NulFree u) (size : ℕ)
    {names : List (List UInt8)} (hnames : ∀ name ∈ names, NulFree name) :
    ∃ printed, alternatives buf size names = some printed := by
  induction names with
  | nil => exact ⟨[], rfl⟩
  | cons name names ih =>
    obtain ⟨hname, hnames⟩ := List.forall_mem_cons.mp hnames
    obtain ⟨printed, hprinted⟩ := ih hnames
    have hsame := strncmpZero_eq [] junk hname hu size
    unfold alternatives
    rw [hbuf, hsame, Option.bind_eq_bind, Option.bind_some, ← hbuf, hprinted]
    generalize (if size ≤ u.length then decide (u.take size <+: name) else decide (name = u)) = same
    cases same with
    | true => exact ⟨name ++ 0x0a :: printed, rfl⟩
    | false => exact ⟨[], rfl⟩

/-- With a result of the loop there is a result. -/
theorem autoCompleteCommand_of_loop {name : List UInt8} {names : List (List UInt8)} {line' : Line} {completed : Bool}
    {text' : Text} (hnames : ∀ n ∈ name :: names, NulFree n)
    (hfound : firstMatch line.buf line.length.toNat commands = some (name :: names))
    (hloop : completeLoop name (name :: names) (name.length + 1) line.length.toNat line false = some (line', completed))
    (h' : line'.Holds text') : (autoCompleteCommand commands line).map Prod.fst = some line' := by
  obtain ⟨junk, hbuf⟩ := h'.buf
  rw [← List.append_assoc] at hbuf
  obtain ⟨printed, hprinted⟩ := alternatives_isSome hbuf h'.nulFree line.length.toNat hnames
  have hcstr : cstr line'.buf 0 = some text'.all := h'.cstr_eq (Nat.zero_le _)
  unfold autoCompleteCommand
  dsimp only
  rw [hfound, Option.bind_eq_bind, Option.bind_some]
  dsimp only
  rw [hloop, Option.bind_eq_bind, Option.bind_some]
  cases completed with
  | true => rfl
  | false =>
    dsimp only
    rw [if_neg Bool.false_ne_true, hprinted, Option.bind_eq_bind, Option.bind_some, hcstr]
    rfl

/-- The completed text begins with the text. -/
theorem completion_eq (he : longestCommonPrefix (startingWith commands t) = t ++ e) (hfits : t.length ≤ 255) :
    completion commands t =
      t ++ (e ++ if (startingWith commands t).length = 1 then [0x20] else []).take (255 - t.length) := by
  unfold completion
  rw [he, List.append_assoc, List.take_append, List.take_of_length_le hfits]

/-- A single name is its own common prefix. -/
theorem Found.eq_of_single {name before after : List UInt8} {names : List (List UInt8)}
    (hf : Found name names before after) (hone : (startingWith (name :: names) (before ++ after)).length = 1) :
    longestCommonPrefix (startingWith (name :: names) (before ++ after)) = name := by
  obtain ⟨m, hm⟩ := List.length_eq_one_iff.mp hone
  have hmem := hf.mem
  rw [hm] at hmem ⊢
  rw [← List.mem_singleton.mp hmem]
  rfl

/-- The names go on together with `e`, and the first of them, if it is not the only one, with `r` behind it. -/
theorem Found.exists_common {name before after : List UInt8} {names : List (List UInt8)}
    (hf : Found name names before after) :
    ∃ e r, longestCommonPrefix (startingWith (name :: names) (before ++ after)) = before ++ after ++ e ∧
      name.drop (before ++ after).length = e ++ r ∧
      ((startingWith (name :: names) (before ++ after)).length = 1 → r = []) := by
  have hstarts : before ++ after <+: longestCommonPrefix (startingWith (name :: names) (before ++ after)) := by
    rw [prefix_longestCommonPrefix_iff (List.ne_nil_of_mem hf.mem)]
    intro n hn
    simpa using (List.mem_filter.mp hn).2
  obtain ⟨e, he⟩ := hstarts
  obtain ⟨r, hr⟩ : before ++ after ++ e <+: name := by
    rw [he]
    exact longestCommonPrefix_prefix hf.mem
  refine ⟨e, r, he.symm, ?_, fun hone => ?_⟩
  · rw [← hr, List.append_assoc, List.drop_left]
  · have hlcp := he.trans ((hf.eq_of_single hone).trans hr.symm)
    simpa using hlcp

/-- A line that `w` was inserted into, where `v` was to be added at the end. -/
theorem completes_iff_of_inserted {before after v w l : List UInt8} {line' : Line}
    (hne : startingWith commands (before ++ after) ≠ [])
    (hcompletion : completion commands (before ++ after) = before ++ after ++ v) (htext : line'.text = ⟨before ++ w, after⟩)
    (hw : w <+: l) (hv : v <+: l) (hadd : v ++ after = after ++ v → w = v) :
    Completes commands ⟨before, after⟩ (some line') ↔ v ++ after = after ++ v := by
  constructor
  · rintro ⟨line'', hline'', -, -, hcompleted, -⟩
    obtain rfl := Option.some_inj.mp hline''
    have hall : before ++ w ++ after = before ++ after ++ v := by
      have := hcompleted hne
      rwa [htext, Text.all, Text.all, hcompletion] at this
    have hlen : w.length = v.length := by
      have := congrArg List.length hall
      simp only [List.length_append] at this
      omega
    have hwv : w = v := (List.prefix_of_prefix_length_le hw hv (Nat.le_of_eq hlen)).eq_of_length hlen
    rw [hwv, List.append_assoc, List.append_assoc] at hall
    exact List.append_cancel_left hall
  · intro hcommute
    have hall : before ++ v ++ after = before ++ after ++ v := by rw [List.append_assoc, hcommute, List.append_assoc]
    rw [hadd hcommute] at htext
    refine ⟨line', rfl, ?_, fun hnone => absurd hnone hne, fun _ => ?_, fun hsame => ?_⟩
    · rw [htext, Text.all, Text.all, hall]
      exact List.prefix_append _ _
    · rw [htext, Text.all, Text.all, hall, hcompletion]
    · rw [Text.all, hcompletion] at hsame
      have hv0 : v = [] := List.append_right_eq_self.mp hsame
      rw [htext, hv0, List.append_nil]

/-- **The text is completed** just when what is added commutes with what is behind the cursor. -/
theorem Found.completes_iff {name before after : List UInt8} {names : List (List UInt8)}
    (hf : Found name names before after) (hstarting : startingWith commands (before ++ after) =
      startingWith (name :: names) (before ++ after))
    (hfound : firstMatch line.buf line.length.toNat commands = some (name :: names)) (h : line.Holds ⟨before, after⟩) :
    Completes commands ⟨before, after⟩ ((autoCompleteCommand commands line).map Prod.fst) ↔
      addition commands (before ++ after) ++ after = after ++ addition commands (before ++ after) := by
  have hfits : (before ++ after).length ≤ 255 := by
    rw [List.length_append]
    exact h.fits
  have hlength : line.length.toNat = (before ++ after).length + 0 := by
    rw [h.length_all]
    rfl
  obtain ⟨e, r, he, hdrop, hsingle⟩ := hf.exists_common
  have hnil : line.Holds ⟨before ++ ((name.drop (before ++ after).length).take 0).take (255 - (before ++ after).length), after⟩ := by
    rwa [List.take_zero, List.take_nil, List.append_nil]
  obtain ⟨line', completed, x, hloop, h', hx, hend, hcommutes⟩ :=
    hf.completeLoop_eq he hf.starts.length_le (by omega : _ < name.length + 1) hnil false
  rw [← hlength] at hloop
  have hresult := autoCompleteCommand_of_loop hf.nulFree hfound hloop h'
  have htext : line'.text = ⟨before ++ x.take (255 - (before ++ after).length), after⟩ := h'.text_eq
  -- what is added
  let v := (e ++ if (startingWith (name :: names) (before ++ after)).length = 1 then [0x20] else []).take
    (255 - (before ++ after).length)
  have hcompletion : completion commands (before ++ after) = before ++ after ++ v := by
    have := completion_eq (hstarting ▸ he) hfits
    rwa [hstarting] at this
  have haddition : addition commands (before ++ after) = v := by
    unfold addition
    rw [hcompletion, List.drop_left]
  have hv : v <+: name.drop (before ++ after).length ++ [0x20] := by
    refine (List.take_prefix _ _).trans ?_
    rw [hdrop]
    split
    next hone =>
      rw [hsingle hone, List.append_nil]
    next =>
      rw [List.append_nil, List.append_assoc]
      exact List.prefix_append _ _
  have hex : e <+: x := by
    have hep : e <+: name.drop (before ++ after).length ++ [0x20] := by
      rw [hdrop, List.append_assoc]
      exact List.prefix_append _ _
    rcases hend with rfl | ⟨hlen, -⟩
    · exact hep
    · exact List.prefix_of_prefix_length_le hep hx hlen
  have hadd : v ++ after = after ++ v → x.take (255 - (before ++ after).length) = v := by
    intro hcommute
    by_cases hone : (startingWith (name :: names) (before ++ after)).length = 1
    · rcases hend with hx' | ⟨-, hseveral⟩
      · rw [hx', hdrop, hsingle hone, List.append_nil]
        show _ = List.take _ (e ++ if _ then _ else _)
        rw [if_pos hone]
      · exact absurd hone hseveral
    · have hve : v = e.take (255 - (before ++ after).length) := by
        show List.take _ (e ++ if _ then _ else _) = _
        rw [if_neg hone, List.append_nil]
      by_cases hroom : (before ++ after ++ e).length ≤ 255
      · rw [List.length_append] at hroom
        have hall : v = e := by rw [hve, List.take_of_length_le (by omega)]
        rw [hall] at hcommute
        rw [hcommutes (Nat.zero_le _) hone (by rw [List.length_append]; exact hroom) hcommute, hve]
      · obtain ⟨y, rfl⟩ := hex
        rw [List.length_append] at hroom
        rw [hve, List.take_append_of_le_length (by omega)]
  have hne : startingWith commands (before ++ after) ≠ [] := by
    rw [hstarting]
    exact List.ne_nil_of_mem hf.mem
  rw [haddition, hresult]
  exact completes_iff_of_inserted hne hcompletion htext ((List.take_prefix _ _).trans hx) hv hadd

/-- Without a match the line is left alone. -/
theorem completes_of_none (hfound : firstMatch line.buf line.length.toNat commands = some []) (h : line.Stores text)
    (hnone : startingWith commands text.all = []) :
    Completes commands text ((autoCompleteCommand commands line).map Prod.fst) := by
  have hresult : autoCompleteCommand commands line = some (line, []) := by
    unfold autoCompleteCommand
    dsimp only
    rw [hfound]
    rfl
  rw [hresult]
  refine ⟨line, rfl, ?_, fun _ => h.text_eq, fun hne => absurd hnone hne, fun _ => h.text_eq⟩
  rw [h.text_eq]

theorem dropWhile_cons {p : List UInt8 → Bool} {name : List UInt8} {names : List (List UInt8)}
    (h : commands.dropWhile p = name :: names) : p name = false := by
  have hhead := List.head?_dropWhile_not p commands
  rw [h, List.head?_cons] at hhead
  exact hhead

/-- A text without a NUL. -/
theorem completes_iff_of_nulFree (hsorted : commands.Pairwise (· < ·)) (hnames : ∀ name ∈ commands, NulFree name)
    (hline : line.Holds text) :
    Completes commands text ((autoCompleteCommand commands line).map Prod.fst) ↔
      startingWith commands text.all = [] ∨
        addition commands text.all ++ text.after = text.after ++ addition commands text.all := by
  have hlength : line.length.toNat = (text.before ++ text.after).length := by
    rw [hline.length_all]
    rfl
  obtain ⟨junk, hbuf⟩ := hline.stores.buf
  rw [← List.append_assoc] at hbuf
  have hfirst := firstMatch_eq hbuf hline.nulFree line.length.toNat hnames
  simp only [if_pos (Nat.le_of_eq hlength)] at hfirst
  rw [show (text.before ++ text.after).take line.length.toNat = text.all from
    List.take_of_length_le (Nat.le_of_eq hlength.symm)] at hfirst
  have hstarting := startingWith_dropWhile commands text.all
  cases hdrop : commands.dropWhile fun name => !decide (text.all <+: name) with
  | nil =>
    rw [hdrop] at hfirst hstarting
    exact ⟨fun _ => .inl hstarting.symm, fun _ => completes_of_none hfirst hline.stores hstarting.symm⟩
  | cons name names =>
    have hsub : (name :: names).Sublist commands := by
      rw [← hdrop]
      exact List.dropWhile_sublist _
    have hmatch : text.all <+: name := by simpa using dropWhile_cons hdrop
    have hf : Found name names text.before text.after :=
      ⟨hsorted.sublist hsub, fun n hn => hnames n (hsub.subset hn), hmatch⟩
    rw [hdrop] at hfirst hstarting
    have hne : startingWith commands text.all ≠ [] := by
      rw [← hstarting]
      exact List.ne_nil_of_mem hf.mem
    have hiff := hf.completes_iff hstarting.symm hfirst hline
    exact ⟨fun hc => .inr (hiff.mp hc), fun hc => hiff.mpr (hc.resolve_left hne)⟩

/-- A text with a NUL: a name that ends there is taken for a match, and read behind its end. -/
theorem completes_iff_of_nul (hnames : ∀ name ∈ commands, NulFree name) (h : line.Stores text)
    (hnul : ¬NulFree text.all) :
    Completes commands text ((autoCompleteCommand commands line).map Prod.fst) ↔
      text.all.takeWhile (· ≠ 0) ∉ commands := by
  obtain ⟨junk, hbuf⟩ := h.buf
  obtain ⟨rest, hall, hfree⟩ := exists_eq_takeWhile_append hnul
  generalize text.all.takeWhile (· ≠ 0) = u at hall hfree ⊢
  have hbuf' : line.buf = u ++ 0 :: (rest ++ 0 :: junk) := by
    rw [hbuf, ← List.append_assoc, ← Text.all, hall, List.append_assoc, List.cons_append]
  have hlong : u.length < line.length.toNat := by
    rw [h.length_all, hall, List.length_append, List.length_cons]
    omega
  have hfirst := firstMatch_eq hbuf' hfree line.length.toNat hnames
  simp only [if_neg (Nat.not_le_of_lt hlong)] at hfirst
  have hnone : startingWith commands text.all = [] := by
    rw [startingWith, List.filter_eq_nil_iff]
    intro name hname hprefix
    obtain ⟨r, hr⟩ : text.all <+: name := by simpa using hprefix
    rw [hall] at hr
    exact hnames name hname 0 (by rw [← hr]; simp) rfl
  cases hdrop : commands.dropWhile fun name => !decide (name = u) with
  | nil =>
    rw [hdrop] at hfirst
    refine ⟨fun _ hmem => ?_, fun _ => completes_of_none hfirst h hnone⟩
    have := List.dropWhile_eq_nil_iff.mp hdrop u hmem
    simp at this
  | cons name names =>
    rw [hdrop] at hfirst
    obtain rfl : name = u := by simpa using dropWhile_cons hdrop
    have hmem : name ∈ commands := by
      have hsub := List.dropWhile_sublist (fun name' => !decide (name' = name)) (l := commands)
      rw [hdrop] at hsub
      exact hsub.subset List.mem_cons_self
    -- the name is read behind its NUL
    have hload : load (name ++ [0]) line.length.toNat = none := by
      show (name ++ [0])[line.length.toNat]? = none
      rw [List.getElem?_eq_none_iff, List.length_append, List.length_singleton]
      exact hlong
    have hresult : autoCompleteCommand commands line = none := by
      unfold autoCompleteCommand completeLoop
      dsimp only
      rw [hfirst, Option.bind_eq_bind, Option.bind_some]
      dsimp only
      rw [hload]
      rfl
    rw [hresult]
    refine ⟨?_, fun hnot => absurd hmem hnot⟩
    rintro ⟨line', hline', -⟩
    cases hline'

/-- **TAB completes the text** just when it holds no NUL and no command starts with it, or what is to be added commutes
with what is behind the cursor; or it holds a NUL and no command is the text in front of the first one. -/
theorem tab_completes (commands : List (List UInt8)) (hsorted : commands.Pairwise (· < ·))
    (hnames : ∀ name ∈ commands, NulFree name) (h : line.Stores text) :
    Completes commands text ((autoCompleteCommand commands line).map Prod.fst) ↔ Completable commands text := by
  unfold Completable
  by_cases hfree : NulFree text.all
  · rw [if_pos hfree]
    exact completes_iff_of_nulFree hsorted hnames (h.holds hfree)
  · rw [if_neg hfree]
    exact completes_iff_of_nul hnames h hfree

end Result

/-- `help` and `ls`. -/
def helpAndLs : List (List UInt8) := [[0x68, 0x65, 0x6c, 0x70], [0x6c, 0x73]]

theorem helpAndLs_sorted : helpAndLs.Pairwise (· < ·) := by decide

theorem helpAndLs_nulFree : ∀ name ∈ helpAndLs, NulFree name := by
  intro name hname
  rcases List.mem_cons.mp hname with rfl | hlast
  · decide
  · rw [List.mem_singleton.mp hlast]
    decide

/-- `l` with the cursor behind it is completed. -/
theorem tab_completes_l :
    Completes helpAndLs ⟨[0x6c], []⟩ ((autoCompleteCommand helpAndLs (typedLine [0x6c])).map Prod.fst) := by
  have hline : (typedLine [0x6c]).Holds ⟨[0x6c], []⟩ := typedLine_holds (by decide) (by decide)
  refine (tab_completes helpAndLs helpAndLs_sorted helpAndLs_nulFree hline.stores).mpr ?_
  unfold Completable
  decide

/-- With the cursor in front of `l` it becomes `s l`; and behind `ls` and a NUL the name is read behind its own. -/
theorem tab_inserts_at_cursor :
    (autoCompleteCommand helpAndLs (lineSeekBegin (typedLine [0x6c]))).map (fun result => result.1.text.all) =
        some [0x73, 0x20, 0x6c] ∧
      completion helpAndLs [0x6c] = [0x6c, 0x73, 0x20] ∧
      autoCompleteCommand helpAndLs (typedLine [0x6c, 0x73, 0]) = none := by
  refine ⟨?_, ?_, ?_⟩
  all_goals decide +kernel

end Monolinux
