import Mathlib.Logic.Function.Basic
import Mathlib.Data.List.Basic
import Mathlib.Data.Nat.Notation
import Mathlib.Data.Int.Notation
import Mathlib.Tactic.Common

/-!
# A row of a terminal

`interpret` is what a terminal does with the bytes it gets: printable characters,
backspace, and the control sequences `ESC [ n C`, `ESC [ n D` and `ESC [ K`.  Anything
else, and a character that would not fit in the row, has no result.

`screen width row col` shows `row` and then nothing, with the cursor in column `col`.
One rule for each thing printed (`feed_text`, `feed_backspace`, `feed_forward`,
`feed_back`, `feed_erase`) says what it shows afterwards; `feed_append` puts them
together.
-/

namespace Monolinux

/-- `%d`. -/
def decimal : ℤ → List UInt8
  | .ofNat n => (Nat.toDigits 10 n).map fun c => c.toNat.toUInt8
  | .negSucc n => 0x2d :: (Nat.toDigits 10 (n + 1)).map fun c => c.toNat.toUInt8

/-- A cell that shows nothing holds a space. -/
structure Terminal where
  width : ℕ
  cells : ℕ → UInt8
  col : ℕ

/-- How far the terminal is in a control sequence. -/
inductive Mode
  | ground
  | escape
  | control (n : Option ℕ)
  deriving DecidableEq, Repr

namespace Terminal

/-! ## Interpretation -/

def print (t : Terminal) (c : UInt8) : Option Terminal :=
  if t.col + 1 < t.width then some { t with cells := Function.update t.cells t.col c, col := t.col + 1 } else none

/-- The control sequence with the number `n` that ends in `final`. -/
def control (t : Terminal) (n : Option ℕ) (final : UInt8) : Option Terminal :=
  match final with
  | 0x43 => some { t with col := min (t.col + max 1 (n.getD 1)) (t.width - 1) } -- C
  | 0x44 => some { t with col := t.col - max 1 (n.getD 1) } -- D
  | 0x4b => -- K
    if n.getD 0 = 0 then some { t with cells := fun i => if i < t.col then t.cells i else 0x20 } else none
  | _ => none

def isPrintable (c : UInt8) : Bool := 0x20 ≤ c && c < 0x7f

def isDigit (c : UInt8) : Bool := 0x30 ≤ c && c ≤ 0x39

def step : Terminal × Mode → UInt8 → Option (Terminal × Mode)
  | (t, .ground), c =>
    if c = 0x1b then some (t, .escape)
    else if c = 8 then some ({ t with col := t.col - 1 }, .ground)
    else if isPrintable c then (t.print c).map (·, .ground)
    else none
  | (t, .escape), c => if c = 0x5b then some (t, .control none) else none
  | (t, .control n), c =>
    if isDigit c then some (t, .control (some (10 * n.getD 0 + (c.toNat - 48))))
    else (t.control n c).map (·, .ground)

def feed (s : Terminal × Mode) (bytes : List UInt8) : Option (Terminal × Mode) := bytes.foldlM step s

/-- The bytes are interpreted to their end, which is not inside a control sequence. -/
def interpret (t : Terminal) (bytes : List UInt8) : Option Terminal := do
  let (t, mode) ← feed (t, .ground) bytes
  if mode = .ground then return t else none

theorem step_ground (t : Terminal) (c : UInt8) : step (t, .ground) c =
    if c = 0x1b then some (t, .escape)
    else if c = 8 then some ({ t with col := t.col - 1 }, .ground)
    else if isPrintable c then (t.print c).map (·, .ground)
    else none := rfl

theorem step_control (t : Terminal) (n : Option ℕ) (c : UInt8) : step (t, .control n) c =
    if isDigit c then some (t, .control (some (10 * n.getD 0 + (c.toNat - 48))))
    else (t.control n c).map (·, .ground) := rfl

theorem feed_nil (s : Terminal × Mode) : feed s [] = some s := rfl

theorem feed_cons (s : Terminal × Mode) (c : UInt8) (bytes : List UInt8) :
    feed s (c :: bytes) = (step s c).bind fun s => feed s bytes := List.foldlM_cons

theorem feed_append (s : Terminal × Mode) (bytes bytes' : List UInt8) :
    feed s (bytes ++ bytes') = (feed s bytes).bind fun s => feed s bytes' := List.foldlM_append

/-! ## Numbers -/

theorem step_digit (t : Terminal) (n : Option ℕ) {d : ℕ} (hd : d < 10) :
    step (t, .control n) (Nat.digitChar d).toNat.toUInt8 = some (t, .control (some (10 * n.getD 0 + d))) := by
  have hdigit : ∀ d < 10, isDigit (Nat.digitChar d).toNat.toUInt8 = true ∧
      (Nat.digitChar d).toNat.toUInt8.toNat - 48 = d := by decide
  obtain ⟨hc, hval⟩ := hdigit d hd
  rw [step_control, if_pos hc, hval]

/-- The number of a control sequence is read back. -/
theorem feed_decimal (t : Terminal) (n : ℕ) :
    feed (t, .control none) (decimal n) = some (t, .control (some n)) := by
  induction n using Nat.strongRecOn with
  | ind n ih =>
    show feed _ ((Nat.toDigits 10 n).map _) = _
    rw [Nat.toDigits_eq_if (by decide)]
    by_cases hn : n < 10
    · rw [if_pos hn, List.map_singleton, feed_cons, step_digit t none hn]
      simp [feed_nil]
    · rw [if_neg hn, List.map_append, feed_append]
      have hquot : feed (t, .control none) ((Nat.toDigits 10 (n / 10)).map fun c => c.toNat.toUInt8) =
          some (t, .control (some (n / 10))) := ih (n / 10) (by omega)
      rw [hquot, Option.bind_some, List.map_singleton, feed_cons, step_digit t _ (Nat.mod_lt n (by decide)),
        Option.bind_some, feed_nil, Option.getD_some, Nat.div_add_mod]

/-- `ESC [ n final`. -/
theorem feed_control (t : Terminal) (n : ℕ) {final : UInt8} (hfinal : isDigit final = false) :
    feed (t, .ground) ([0x1b, 0x5b] ++ decimal n ++ [final]) = (t.control (some n) final).map (·, .ground) := by
  have hbracket : feed (t, .ground) [0x1b, 0x5b] = some (t, .control none) := rfl
  have hlast : feed (t, .control (some n)) [final] = (t.control (some n) final).map (·, .ground) := by
    rw [feed_cons, step_control, if_neg (by rw [hfinal]; decide)]
    cases t.control (some n) final <;> rfl
  rw [feed_append, feed_append, hbracket, Option.bind_some, feed_decimal, Option.bind_some, hlast]

/-! ## What is shown -/

/-- `row`, and nothing behind it. -/
def shown (row : List UInt8) (i : ℕ) : UInt8 := row[i]?.getD 0x20

def screen (width : ℕ) (row : List UInt8) (col : ℕ) : Terminal := ⟨width, shown row, col⟩

/-- The terminal shows exactly `row`, with its cursor in column `col`. -/
def Shows (t : Terminal) (row : List UInt8) (col : ℕ) : Prop := t.cells = shown row ∧ t.col = col

theorem Shows.eq_screen {t : Terminal} {row : List UInt8} {col : ℕ} (h : t.Shows row col) :
    t = screen t.width row col := by
  obtain ⟨hcells, hcol⟩ := h
  subst hcol
  unfold screen
  rw [← hcells]

/-- A space at the end is not seen. -/
theorem shown_append_spaces (row : List UInt8) (n : ℕ) : shown (row ++ List.replicate n 0x20) = shown row := by
  funext i
  unfold shown
  by_cases hi : i < row.length
  · rw [List.getElem?_append_left hi]
  · rw [List.getElem?_append_right (by omega), List.getElem?_replicate, List.getElem?_eq_none (by omega)]
    split <;> rfl

theorem shown_update {row : List UInt8} {col : ℕ} (hcol : col ≤ row.length) (c : UInt8) :
    Function.update (shown row) col c = shown (row.take col ++ c :: row.drop (col + 1)) := by
  funext i
  unfold shown
  have hlen : (row.take col).length = col := by rw [List.length_take, Nat.min_eq_left hcol]
  rcases Nat.lt_trichotomy i col with hi | rfl | hi
  · rw [Function.update_of_ne (by omega), List.getElem?_append_left (by omega), List.getElem?_take_of_lt hi]
  · rw [Function.update_self, List.getElem?_append_right (by omega), hlen, Nat.sub_self, List.getElem?_cons_zero,
      Option.getD_some]
  · obtain ⟨k, rfl⟩ : ∃ k, i = col + 1 + k := ⟨i - (col + 1), by omega⟩
    have hk : col + 1 + k - col = k + 1 := by omega
    rw [Function.update_of_ne (by omega), List.getElem?_append_right (by omega), hlen, hk, List.getElem?_cons_succ,
      List.getElem?_drop]

/-- **Text.** -/
theorem feed_text {width col : ℕ} {row s : List UInt8} (hs : ∀ c ∈ s, isPrintable c = true) (hcol : col ≤ row.length)
    (hwidth : col + s.length < width) :
    feed (screen width row col, .ground) s =
      some (screen width (row.take col ++ s ++ row.drop (col + s.length)) (col + s.length), .ground) := by
  induction s generalizing row col with
  | nil =>
    rw [List.append_nil, List.length_nil, Nat.add_zero, List.take_append_drop]
    rfl
  | cons c s ih =>
    obtain ⟨hc, hs⟩ := List.forall_mem_cons.mp hs
    rw [List.length_cons] at hwidth
    have hlen : (row.take col ++ [c]).length = col + 1 := by
      rw [List.length_append, List.length_take, Nat.min_eq_left hcol]
      rfl
    have hstep : step (screen width row col, .ground) c =
        some (screen width (row.take col ++ c :: row.drop (col + 1)) (col + 1), .ground) := by
      have hesc : ¬c = 0x1b := by
        rintro rfl
        exact absurd hc (by decide)
      have hback : ¬c = 8 := by
        rintro rfl
        exact absurd hc (by decide)
      have hprint : (screen width row col).print c =
          some (screen width (row.take col ++ c :: row.drop (col + 1)) (col + 1)) := by
        unfold print screen
        rw [if_pos (show col + 1 < width by omega), ← shown_update hcol c]
      rw [step_ground, if_neg hesc, if_neg hback, if_pos hc, hprint, Option.map_some]
    have hroom : col + 1 ≤ (row.take col ++ c :: row.drop (col + 1)).length := by
      rw [← List.singleton_append, ← List.append_assoc, List.length_append, hlen]
      omega
    have hnext := ih hs hroom (by omega)
    rw [feed_cons, hstep, Option.bind_some, hnext]
    have htake : (row.take col ++ c :: row.drop (col + 1)).take (col + 1) = row.take col ++ [c] := by
      rw [← List.singleton_append, ← List.append_assoc, ← hlen, List.take_left]
    have hdrop : (row.take col ++ c :: row.drop (col + 1)).drop (col + 1 + s.length) =
        row.drop (col + (s.length + 1)) := by
      rw [← List.singleton_append, ← List.append_assoc, ← hlen, ← List.drop_drop, List.drop_left, List.drop_drop, hlen,
        show col + 1 + s.length = col + (s.length + 1) by omega]
    rw [htake, hdrop, List.length_cons, show col + 1 + s.length = col + (s.length + 1) by omega]
    simp

/-- **Backspace.** -/
theorem feed_backspace (width : ℕ) (row : List UInt8) (col : ℕ) :
    feed (screen width row col, .ground) [8] = some (screen width row (col - 1), .ground) := rfl

/-- **`ESC [ n C`.** -/
theorem feed_forward {width n col : ℕ} (row : List UInt8) (hn : 0 < n) (hwidth : col + n < width) :
    feed (screen width row col, .ground) ([0x1b, 0x5b] ++ decimal n ++ [0x43]) =
      some (screen width row (col + n), .ground) := by
  have hcol : min (col + max 1 n) (width - 1) = col + n := by omega
  rw [feed_control _ _ rfl]
  show some (Terminal.mk width (shown row) (min (col + max 1 n) (width - 1)), Mode.ground) = _
  rw [hcol]
  rfl

/-- **`ESC [ n D`.** -/
theorem feed_back {n : ℕ} (width : ℕ) (row : List UInt8) (col : ℕ) (hn : 0 < n) :
    feed (screen width row col, .ground) ([0x1b, 0x5b] ++ decimal n ++ [0x44]) =
      some (screen width row (col - n), .ground) := by
  have hcol : col - max 1 n = col - n := by omega
  rw [feed_control _ _ rfl]
  show some (Terminal.mk width (shown row) (col - max 1 n), Mode.ground) = _
  rw [hcol]
  rfl

/-- **`ESC [ K`.** -/
theorem feed_erase {width col : ℕ} {row : List UInt8} (hcol : col ≤ row.length) :
    feed (screen width row col, .ground) [0x1b, 0x5b, 0x4b] = some (screen width (row.take col) col, .ground) := by
  have hcells : (fun i => if i < col then shown row i else 0x20) = shown (row.take col) := by
    funext i
    unfold shown
    by_cases hi : i < col
    · rw [if_pos hi, List.getElem?_take_of_lt hi]
    · rw [if_neg hi, List.getElem?_eq_none (by rw [List.length_take]; omega)]
      rfl
  show some (Terminal.mk width (fun i => if i < col then shown row i else 0x20) col, Mode.ground) = _
  rw [hcells]
  rfl

/-- **Rubbing out**: backspace, a space and backspace for each of the last characters. -/
theorem feed_rubout (width : ℕ) {n col : ℕ} {row : List UInt8} (hrow : row.length = col + n) (hwidth : row.length < width) :
    feed (screen width row (col + n), .ground) (List.replicate n [8, 0x20, 8]).flatten =
      some (screen width (row.take col) col, .ground) := by
  induction n generalizing row with
  | zero =>
    rw [Nat.add_zero] at hrow
    rw [List.take_of_length_le (by omega)]
    rfl
  | succ n ih =>
    -- the last cell is overwritten with a space
    have hspace : feed (screen width row (col + n), .ground) [0x20] =
        some (screen width (row.take (col + n)) (col + n + 1), .ground) := by
      rw [feed_text (List.forall_mem_singleton.mpr rfl) (by omega) (by rw [List.length_singleton]; omega),
        List.length_singleton]
      unfold screen
      rw [List.drop_of_length_le (by omega), List.append_nil]
      exact congrArg (fun cells => some (Terminal.mk width cells (col + n + 1), Mode.ground))
        (shown_append_spaces (row.take (col + n)) 1)
    have htriple : feed (screen width row (col + (n + 1)), .ground) [8, 0x20, 8] =
        some (screen width (row.take (col + n)) (col + n), .ground) := by
      show feed _ ([8] ++ ([0x20] ++ [8])) = _
      rw [feed_append, feed_backspace, Option.bind_some, feed_append]
      show (feed (screen width row (col + n), Mode.ground) [0x20]).bind _ = _
      rw [hspace, Option.bind_some, feed_backspace]
      rfl
    have hlen : (row.take (col + n)).length = col + n := by
      rw [List.length_take]
      omega
    rw [List.replicate_succ, List.flatten_cons, feed_append, htriple, Option.bind_some, ih hlen (by omega),
      List.take_take, Nat.min_eq_left (Nat.le_add_right _ _)]

/-- Only spaces are not seen. -/
theorem shown_append_eq_iff (row s : List UInt8) : shown (row ++ s) = shown row ↔ ∀ c ∈ s, c = 0x20 := by
  constructor
  · intro h c hc
    obtain ⟨i, hi, rfl⟩ := List.mem_iff_getElem.mp hc
    have hcell := congrFun h (row.length + i)
    unfold shown at hcell
    rwa [List.getElem?_append_right (by omega), Nat.add_sub_cancel_left, List.getElem?_eq_getElem hi,
      List.getElem?_eq_none (by omega)] at hcell
  · intro h
    rw [List.eq_replicate_of_mem h]
    exact shown_append_spaces row s.length

theorem interpret_of_feed {t t' : Terminal} {bytes : List UInt8} (h : feed (t, .ground) bytes = some (t', .ground)) :
    t.interpret bytes = some t' := by
  unfold interpret
  rw [h]
  rfl

end Terminal

end Monolinux
