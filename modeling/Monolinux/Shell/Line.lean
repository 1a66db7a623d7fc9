import Monolinux.Lib.CString

/-!
# The line buffer of the shell

`Line` is a `struct line_t`: a buffer of `COMMAND_MAX` bytes, the length of the
line and the cursor in it.  A function that accesses the buffer has a result only
if the access is inside (see `load`, `assign` and `memmove`).

`line.Holds ⟨before, after⟩` is its invariant: the line is `before` up to the cursor
and `after` from there on.  Each operation has a lemma that says what the line holds
afterwards; no later proof looks into the buffer.
-/

namespace Monolinux

/-- `COMMAND_MAX`. -/
def commandMax : ℤ := 256

structure Line where
  buf : List UInt8
  length : ℤ
  cursor : ℤ
  deriving DecidableEq, Repr

/-! ## Operations -/

def lineInit (self : Line) : Option Line := do
  let buf ← assign self.buf 0 0
  return { buf, length := 0, cursor := 0 }

/-- The `Bool` is the result. -/
def lineInsert (self : Line) (ch : UInt8) : Option (Line × Bool) :=
  -- Buffer full?
  if self.length = commandMax - 1 then some (self, false)
  else do
    -- the string is moved with its NUL
    let buf ← memmove self.buf (self.cursor + 1) self.cursor (self.length - self.cursor + 1)
    let buf ← assign buf self.cursor ch
    return ({ buf, length := self.length + 1, cursor := self.cursor + 1 }, true)

/-- `str` is the string at `str_p`, without its NUL. -/
def lineInsertString (self : Line) : List UInt8 → Option Line
  | [] => some self
  | ch :: str => do
    let (self, inserted) ← lineInsert self ch
    if inserted then lineInsertString self str else some self

def lineDelete (self : Line) : Option Line :=
  -- End of buffer?
  if self.cursor = self.length then some self
  else do
    let buf ← memmove self.buf self.cursor (self.cursor + 1) (self.length - self.cursor)
    return { self with buf, length := self.length - 1 }

def linePeek (self : Line) : Option UInt8 := load self.buf self.cursor

def lineTruncate (self : Line) : Option Line := do
  let buf ← assign self.buf self.cursor 0
  return { self with buf, length := self.cursor }

/-- The `Bool` is the result. -/
def lineSeek (self : Line) (pos : ℤ) : Line × Bool :=
  if pos < 0 then
    if self.cursor + pos < 0 then (self, false) else ({ self with cursor := self.cursor + pos }, true)
  else
    if self.cursor + pos > self.length then (self, false) else ({ self with cursor := self.cursor + pos }, true)

def lineSeekBegin (self : Line) : Line := { self with cursor := 0 }

def lineSeekEnd (self : Line) : Line := { self with cursor := self.length }

/-! ## What the line holds -/

/-- A text with a cursor in it. -/
structure Text where
  before : List UInt8
  after : List UInt8
  deriving DecidableEq, Repr

def Text.all (text : Text) : List UInt8 := text.before ++ text.after

structure Line.Holds (line : Line) (text : Text) : Prop where
  cursor : line.cursor = text.before.length
  length : line.length = text.before.length + text.after.length
  buf : ∃ junk, line.buf = text.before ++ (text.after ++ 0 :: junk)
  size : line.buf.length = 256
  nulFree : NulFree text.all

instance (line : Line) (text : Text) : Decidable (line.Holds text) :=
  decidable_of_iff ((line.cursor = text.before.length ∧ line.length = text.before.length + text.after.length) ∧
    text.before ++ (text.after ++ [0]) <+: line.buf ∧ line.buf.length = 256 ∧ NulFree text.all)
    ⟨fun ⟨⟨hcursor, hlength⟩, ⟨junk, hbuf⟩, hsize, hfree⟩ => ⟨hcursor, hlength, ⟨junk, by simp [← hbuf]⟩, hsize, hfree⟩,
      fun h => ⟨⟨h.cursor, h.length⟩, h.buf.imp fun junk hbuf => by simp [hbuf], h.size, h.nulFree⟩⟩

/-- The same of any bytes. -/
structure Line.Stores (line : Line) (text : Text) : Prop where
  cursor : line.cursor = text.before.length
  length : line.length = text.before.length + text.after.length
  buf : ∃ junk, line.buf = text.before ++ (text.after ++ 0 :: junk)
  size : line.buf.length = 256

section Stores

variable {line : Line} {text : Text} {before after : List UInt8} {c : UInt8}

theorem Line.Holds.stores (h : line.Holds text) : line.Stores text := ⟨h.cursor, h.length, h.buf, h.size⟩

theorem Line.Stores.holds (h : line.Stores text) (hfree : NulFree text.all) : line.Holds text :=
  ⟨h.cursor, h.length, h.buf, h.size, hfree⟩

theorem Line.Stores.fits (h : line.Stores text) : text.before.length + text.after.length ≤ 255 := by
  obtain ⟨junk, hjunk⟩ := h.buf
  have hsize := h.size
  rw [hjunk] at hsize
  simp only [List.length_append, List.length_cons] at hsize
  omega

theorem Line.Stores.insert_of_full (h : line.Stores text) (hfull : text.before.length + text.after.length = 255)
    (ch : UInt8) : lineInsert line ch = some (line, false) := by
  have hlen : line.length = commandMax - 1 := by
    rw [h.length]
    unfold commandMax
    omega
  unfold lineInsert
  rw [if_pos hlen]

theorem Line.Stores.insert_of_room (h : line.Stores ⟨before, after⟩) (hroom : before.length + after.length < 255)
    (ch : UInt8) : ∃ line', lineInsert line ch = some (line', true) ∧ line'.Stores ⟨before ++ [ch], after⟩ := by
  obtain ⟨junk, hbuf⟩ := h.buf
  have hsize := h.size
  have hcursor := h.cursor
  have hlength := h.length
  dsimp only at hbuf hcursor hlength
  have hlen : ¬line.length = commandMax - 1 := by
    rw [hlength]
    unfold commandMax
    omega
  -- the byte behind the NUL is overwritten
  obtain ⟨x, back, rfl⟩ : ∃ x back, junk = x :: back := by
    apply List.exists_cons_of_ne_nil
    rintro rfl
    rw [hbuf] at hsize
    simp only [List.length_append, List.length_cons, List.length_nil] at hsize
    omega
  obtain ⟨c, hmove⟩ := memmove_behind before after x back
  have hmove' : memmove line.buf (line.cursor + 1) line.cursor (line.length - line.cursor + 1) =
      some (before ++ c :: (after ++ 0 :: back)) := by
    have hstr : line.length - line.cursor + 1 = after.length + 1 := by omega
    rw [hstr, hbuf, hcursor]
    exact hmove
  have hassign : assign (before ++ c :: (after ++ 0 :: back)) line.cursor ch =
      some (before ++ ch :: (after ++ 0 :: back)) := by
    rw [hcursor]
    exact assign_eq _ _ _ _
  refine ⟨⟨before ++ ch :: (after ++ 0 :: back), line.length + 1, line.cursor + 1⟩, ?_, ?_⟩
  · unfold lineInsert
    rw [if_neg hlen, hmove', Option.bind_eq_bind, Option.bind_some, hassign]
    rfl
  · refine ⟨?_, ?_, ⟨back, by simp⟩, ?_⟩
    · simp [hcursor]
    · simp [hlength]
      omega
    · rw [← hsize, hbuf]
      simp only [List.length_append, List.length_cons]
      omega

theorem Line.Stores.delete_of_end (h : line.Stores ⟨before, []⟩) : lineDelete line = some line := by
  have hend : line.cursor = line.length := by
    rw [h.cursor, h.length]
    exact (Int.add_zero _).symm
  unfold lineDelete
  rw [if_pos hend]

theorem Line.Stores.delete_of_cons (h : line.Stores ⟨before, c :: after⟩) :
    ∃ line', lineDelete line = some line' ∧ line'.Stores ⟨before, after⟩ := by
  obtain ⟨junk, hbuf⟩ := h.buf
  have hcursor := h.cursor
  have hlength := h.length
  dsimp only [List.length_cons, Nat.cast_add, Nat.cast_one] at hbuf hcursor hlength
  have hend : ¬line.cursor = line.length := by omega
  have hsize : line.length - line.cursor = after.length + 1 := by omega
  have hmove : memmove line.buf line.cursor (line.cursor + 1) (line.length - line.cursor) =
      some (before ++ (after ++ 0 :: 0 :: junk)) := by
    rw [hbuf, hsize, hcursor]
    exact memmove_tail before c after junk
  refine ⟨⟨before ++ (after ++ 0 :: 0 :: junk), line.length - 1, line.cursor⟩, ?_, hcursor, ?_, ⟨0 :: junk, rfl⟩, ?_⟩
  · unfold lineDelete
    rw [if_neg hend, hmove]
    rfl
  · dsimp only
    omega
  · rw [← h.size, hbuf]
    simp only [List.length_append, List.length_cons]
    omega

theorem Line.Stores.truncate (h : line.Stores ⟨before, after⟩) :
    ∃ line', lineTruncate line = some line' ∧ line'.Stores ⟨before, []⟩ := by
  obtain ⟨junk, hbuf⟩ := h.buf
  have hsize := h.size
  obtain ⟨b, rest, hrest⟩ : ∃ b rest, after ++ 0 :: junk = b :: rest := List.exists_cons_of_ne_nil (by simp)
  dsimp only at hbuf
  rw [hrest] at hbuf
  have hassign : assign line.buf line.cursor 0 = some (before ++ 0 :: rest) := by
    rw [hbuf, h.cursor]
    exact assign_eq before b 0 rest
  refine ⟨⟨before ++ 0 :: rest, line.cursor, line.cursor⟩, ?_, h.cursor, ?_, ⟨rest, rfl⟩, ?_⟩
  · unfold lineTruncate
    rw [hassign]
    rfl
  · dsimp only
    rw [h.cursor]
    rfl
  · rw [← hsize, hbuf]
    simp

theorem Line.Stores.peek_of_end (h : line.Stores ⟨before, []⟩) : linePeek line = some 0 := by
  obtain ⟨junk, hbuf⟩ := h.buf
  unfold linePeek
  rw [hbuf, h.cursor]
  exact load_eq before 0 junk

theorem Line.Stores.peek_of_cons (h : line.Stores ⟨before, c :: after⟩) : linePeek line = some c := by
  obtain ⟨junk, hbuf⟩ := h.buf
  unfold linePeek
  rw [hbuf, h.cursor]
  exact load_eq before c _

/-- A line that stores a text stores it with the cursor anywhere in it. -/
theorem Line.Stores.moved (h : line.Stores text) (text' : Text) (hall : text'.all = text.all) :
    Line.Stores { line with cursor := text'.before.length } text' := by
  obtain ⟨junk, hbuf⟩ := h.buf
  have hlen := congrArg List.length hall
  unfold Text.all at hall hlen
  simp only [List.length_append] at hlen
  refine ⟨rfl, ?_, ⟨junk, ?_⟩, h.size⟩
  · show line.length = _
    rw [h.length]
    omega
  · show line.buf = _
    rw [hbuf, ← List.append_assoc, ← List.append_assoc, hall]

end Stores

section Holds

variable {line : Line} {before after : List UInt8} {c : UInt8}

theorem Line.Holds.fits {text : Text} (h : line.Holds text) : text.before.length + text.after.length ≤ 255 := h.stores.fits

theorem Text.length_all (text : Text) : text.all.length = text.before.length + text.after.length := List.length_append

theorem Line.Holds.length_all {text : Text} (h : line.Holds text) : line.length = text.all.length := by
  rw [h.length, text.length_all]
  rfl

/-- The string at a position of the line. -/
theorem Line.Holds.cstr_eq {text : Text} (h : line.Holds text) {k : ℕ} (hk : k ≤ text.all.length) :
    cstr line.buf k = some (text.all.drop k) := by
  obtain ⟨junk, hbuf⟩ := h.buf
  have hsplit : line.buf = text.all.take k ++ (text.all.drop k ++ 0 :: junk) := by
    rw [hbuf, ← List.append_assoc, ← List.append_assoc, List.take_append_drop]
    rfl
  have hlen : (text.all.take k).length = k := by rw [List.length_take, Nat.min_eq_left hk]
  have hfree : NulFree (text.all.drop k) := h.nulFree.sublist (List.drop_sublist _ _)
  have hread := Monolinux.cstr_eq (text.all.take k) junk hfree
  rw [hsplit]
  rwa [hlen] at hread

theorem lineInit_holds (hsize : line.buf.length = 256) :
    ∃ line', lineInit line = some line' ∧ line'.Holds ⟨[], []⟩ := by
  obtain ⟨b, rest, hbuf⟩ := List.exists_cons_of_length_eq_add_one (hsize : _ = 255 + 1)
  have hassign : assign line.buf 0 0 = some (0 :: rest) := by
    rw [hbuf]
    exact assign_eq [] b 0 rest
  refine ⟨⟨0 :: rest, 0, 0⟩, ?_, rfl, rfl, ⟨rest, rfl⟩, ?_, NulFree.nil⟩
  · unfold lineInit
    rw [hassign]
    rfl
  · rw [hbuf] at hsize
    exact hsize

theorem lineInsert_of_full {text : Text} (h : line.Holds text) (hfull : text.before.length + text.after.length = 255)
    (ch : UInt8) : lineInsert line ch = some (line, false) := h.stores.insert_of_full hfull ch

theorem lineInsert_of_room (h : line.Holds ⟨before, after⟩) (hroom : before.length + after.length < 255) {ch : UInt8}
    (hch : ch ≠ 0) : ∃ line', lineInsert line ch = some (line', true) ∧ line'.Holds ⟨before ++ [ch], after⟩ := by
  obtain ⟨line', hinsert, h'⟩ := h.stores.insert_of_room hroom ch
  refine ⟨line', hinsert, h'.holds ?_⟩
  have hfree := h.nulFree
  unfold Text.all at hfree ⊢
  rw [nulFree_append] at hfree ⊢
  exact ⟨nulFree_append.mpr ⟨hfree.1, nulFree_cons.mpr ⟨hch, NulFree.nil⟩⟩, hfree.2⟩

/-- The characters are inserted as long as there is room. -/
theorem lineInsertString_holds {s : List UInt8} (h : line.Holds ⟨before, after⟩) (hs : NulFree s) :
    ∃ line', lineInsertString line s = some line' ∧
      line'.Holds ⟨before ++ s.take (255 - (before.length + after.length)), after⟩ := by
  induction s generalizing line before with
  | nil =>
    refine ⟨line, rfl, ?_⟩
    rwa [List.take_nil, List.append_nil]
  | cons c s ih =>
    obtain ⟨hc, hs⟩ := nulFree_cons.mp hs
    have hfits := h.fits
    dsimp only at hfits
    by_cases hfull : before.length + after.length = 255
    · refine ⟨line, ?_, ?_⟩
      · simp [lineInsertString, lineInsert_of_full h hfull]
      · rwa [hfull, Nat.sub_self, List.take_zero, List.append_nil]
    · obtain ⟨line₁, hins, h₁⟩ := lineInsert_of_room h (by omega) hc
      obtain ⟨line₂, hrest, h₂⟩ := ih h₁ hs
      refine ⟨line₂, ?_, ?_⟩
      · simp [lineInsertString, hins, hrest]
      · have hroom : 255 - (before.length + after.length) = 255 - ((before ++ [c]).length + after.length) + 1 := by
          rw [List.length_append, List.length_singleton]
          omega
        rw [hroom, List.take_succ_cons]
        rwa [List.append_assoc, List.singleton_append] at h₂

theorem lineDelete_of_end (h : line.Holds ⟨before, []⟩) : lineDelete line = some line := h.stores.delete_of_end

theorem lineDelete_of_cons (h : line.Holds ⟨before, c :: after⟩) :
    ∃ line', lineDelete line = some line' ∧ line'.Holds ⟨before, after⟩ := by
  obtain ⟨line', hdelete, h'⟩ := h.stores.delete_of_cons
  refine ⟨line', hdelete, h'.holds ?_⟩
  have hfree := h.nulFree
  unfold Text.all at hfree ⊢
  exact hfree.sublist (List.Sublist.append_left (List.sublist_cons_self c after) before)

theorem linePeek_of_end (h : line.Holds ⟨before, []⟩) : linePeek line = some 0 := h.stores.peek_of_end

theorem linePeek_of_cons (h : line.Holds ⟨before, c :: after⟩) : linePeek line = some c := h.stores.peek_of_cons

theorem lineTruncate_holds (h : line.Holds ⟨before, after⟩) :
    ∃ line', lineTruncate line = some line' ∧ line'.Holds ⟨before, []⟩ := by
  obtain ⟨line', htruncate, h'⟩ := h.stores.truncate
  exact ⟨line', htruncate, h'.holds (h.nulFree.sublist (List.Sublist.append_left (List.nil_sublist _) _))⟩

/-- A line that holds a text holds it with the cursor anywhere in it. -/
theorem Line.Holds.moved {text : Text} (h : line.Holds text) (text' : Text) (hall : text'.all = text.all) :
    Line.Holds { line with cursor := text'.before.length } text' := by
  refine (h.stores.moved text' hall).holds ?_
  rw [hall]
  exact h.nulFree

theorem lineSeek_left (h : line.Holds ⟨before ++ [c], after⟩) :
    ∃ line', lineSeek line (-1) = (line', true) ∧ line'.Holds ⟨before, c :: after⟩ := by
  have hcursor : line.cursor + -1 = before.length := by
    rw [h.cursor]
    simp
  have hmoved := h.moved ⟨before, c :: after⟩ (by simp [Text.all])
  refine ⟨_, ?_, hmoved⟩
  unfold lineSeek
  rw [if_pos (by omega), hcursor, if_neg (by omega)]

theorem lineSeek_left_of_begin (h : line.Holds ⟨[], after⟩) : lineSeek line (-1) = (line, false) := by
  have hcursor : line.cursor + -1 < 0 := by
    rw [h.cursor]
    show ((0 : ℕ) : ℤ) + -1 < 0
    decide
  unfold lineSeek
  rw [if_pos (by omega), if_pos hcursor]

theorem lineSeek_right (h : line.Holds ⟨before, c :: after⟩) :
    ∃ line', lineSeek line 1 = (line', true) ∧ line'.Holds ⟨before ++ [c], after⟩ := by
  have hcursor : line.cursor + 1 = (before ++ [c]).length := by
    rw [h.cursor]
    simp
  have hlength := h.length
  have hmoved := h.moved ⟨before ++ [c], after⟩ (by simp [Text.all])
  refine ⟨_, ?_, hmoved⟩
  unfold lineSeek
  rw [if_neg (by omega), hcursor, if_neg]
  simp only [hlength, List.length_append, List.length_cons, List.length_nil]
  omega

theorem lineSeek_right_of_end (h : line.Holds ⟨before, []⟩) : lineSeek line 1 = (line, false) := by
  have hcursor : line.cursor + 1 > line.length := by
    rw [h.cursor, h.length]
    simp
  unfold lineSeek
  rw [if_neg (by omega), if_pos hcursor]

theorem lineSeekBegin_holds {text : Text} (h : line.Holds text) : (lineSeekBegin line).Holds ⟨[], text.all⟩ :=
  h.moved ⟨[], text.all⟩ rfl

theorem lineSeekEnd_holds {text : Text} (h : line.Holds text) : (lineSeekEnd line).Holds ⟨text.all, []⟩ := by
  have hlen : line.length = (text.all.length : ℤ) := by
    rw [h.length]
    simp [Text.all]
  have hend : lineSeekEnd line = { line with cursor := (text.all.length : ℤ) } := by
    unfold lineSeekEnd
    rw [hlen]
  rw [hend]
  exact h.moved ⟨text.all, []⟩ (List.append_nil _)

end Holds

/-- A line where the characters `s` were typed. -/
def typedLine (s : List UInt8) : Line := ⟨s ++ List.replicate (256 - s.length) 0, s.length, s.length⟩

theorem typedLine_holds {s : List UInt8} (hs : NulFree s) (hlen : s.length ≤ 255) : (typedLine s).Holds ⟨s, []⟩ := by
  refine ⟨rfl, (Int.add_zero _).symm, ⟨List.replicate (255 - s.length) 0, ?_⟩, ?_, ?_⟩
  · show s ++ List.replicate (256 - s.length) 0 = s ++ 0 :: List.replicate (255 - s.length) 0
    rw [← List.replicate_succ, show 256 - s.length = 255 - s.length + 1 by omega]
  · show (s ++ List.replicate (256 - s.length) 0).length = 256
    rw [List.length_append, List.length_replicate]
    omega
  · show NulFree (s ++ [])
    rwa [List.append_nil]

end Monolinux
