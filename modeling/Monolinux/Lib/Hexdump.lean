import Mathlib.Algebra.GroupWithZero.Nat
import Monolinux.Lib.Terminal

/-!
# The lines of a hexdump

Sixteen bytes a line: the address modulo 2^32, the bytes in hex, blanks up to the width of
a full line, and the characters, with a dot for one that is not printable.

  cut behind a multiple of 16 bytes    (`hexLines_append`)
  the bytes are read back              (`recover_hexLines`)
-/

namespace Monolinux

/-! ## Digits -/

def hexDigit (n : ℕ) : UInt8 := if n < 10 then UInt8.ofNat (0x30 + n) else UInt8.ofNat (0x57 + n)

/-- The lowest `n` digits of `x`, as `%0nx` prints a number that has no more. -/
def hexDigits : ℕ → ℕ → List UInt8
  | 0, _ => []
  | n + 1, x => hexDigits n (x / 16) ++ [hexDigit (x % 16)]

def hexValue (c : UInt8) : ℕ := if c < 0x3a then c.toNat - 0x30 else c.toNat - 0x57

theorem length_hexDigits (n x : ℕ) : (hexDigits n x).length = n := by
  induction n generalizing x with
  | zero => rfl
  | succ n ih => rw [hexDigits, List.length_append, ih, List.length_singleton]

theorem hexValue_hexDigit : ∀ n, n < 16 → hexValue (hexDigit n) = n := by decide

/-- No digit is a blank. -/
theorem hexDigit_ne_space : ∀ n, n < 16 → hexDigit n ≠ 0x20 := by decide

/-! ## Lines -/

/-- A byte in hex, and the blank behind it. -/
def byteColumn (b : UInt8) : List UInt8 := hexDigits 2 b.toNat ++ [0x20]

def asciiChar (b : UInt8) : UInt8 := if Terminal.isPrintable b then b else 0x2e

def hexLine (address : ℕ) (bytes : List UInt8) : List UInt8 :=
  hexDigits 8 (address % 2 ^ 32) ++ [0x3a, 0x20] ++ bytes.flatMap byteColumn ++
    List.replicate (3 * (16 - bytes.length)) 0x20 ++ [0x27] ++ bytes.map asciiChar ++ [0x27, 0x0a]

/-- Line `i` has the bytes from `16 * i` on. -/
def hexLines (address : ℕ) (bytes : List UInt8) : List UInt8 :=
  (List.range ((bytes.length + 15) / 16)).flatMap fun i => hexLine (address + 16 * i) ((bytes.drop (16 * i)).take 16)

/-- The first line and the others. -/
theorem hexLines_cons (address : ℕ) {bytes : List UInt8} (h : bytes ≠ []) :
    hexLines address bytes = hexLine address (bytes.take 16) ++ hexLines (address + 16) (bytes.drop 16) := by
  have hpos : 0 < bytes.length := List.length_pos_iff.mpr h
  have hrows : (bytes.length + 15) / 16 = ((bytes.drop 16).length + 15) / 16 + 1 := by
    rw [List.length_drop]
    omega
  unfold hexLines
  rw [hrows, List.range_succ_eq_map, List.flatMap_cons, List.flatMap_map, Nat.mul_zero,
    Nat.add_zero, List.drop_zero]
  refine congrArg _ (List.flatMap_congr fun i _ => ?_)
  rw [List.drop_drop, Nat.add_assoc, show 16 * i.succ = 16 + 16 * i by omega]

/-- **A hexdump can be cut** behind a number of bytes that fills lines. -/
theorem hexLines_append (address : ℕ) {front : List UInt8} (bytes : List UInt8) (h : 16 ∣ front.length) :
    hexLines address (front ++ bytes) = hexLines address front ++ hexLines (address + front.length) bytes := by
  obtain ⟨k, hk⟩ := h
  induction k generalizing address front with
  | zero =>
    rw [List.length_eq_zero_iff.mp hk]
    rfl
  | succ k ih =>
    have hne : front ≠ [] := by
      rintro rfl
      cases hk
    have hlong : 16 ≤ front.length := by omega
    have hdrop : (front.drop 16).length = 16 * k := by
      rw [List.length_drop]
      omega
    rw [hexLines_cons address (List.append_ne_nil_of_left_ne_nil hne bytes), hexLines_cons address hne,
      List.take_append_of_le_length hlong, List.drop_append_of_le_length hlong, ih _ hdrop, List.append_assoc,
      hdrop, Nat.add_assoc, show 16 + 16 * k = front.length by omega]

/-! ## Reading back -/

/-- The bytes in the columns of a line, up to a blank one. -/
def columnBytes : List UInt8 → List UInt8
  | c1 :: c0 :: _ :: columns =>
    if c1 = 0x20 then [] else UInt8.ofNat (16 * hexValue c1 + hexValue c0) :: columnBytes columns
  | _ => []

/-- The columns of a line end 58 characters from its start; the characters of the bytes are in quotes. -/
def undump : ℕ → List UInt8 → List UInt8
  | 0, _ => []
  | fuel + 1, out =>
    if out = [] then []
    else
      let bytes := columnBytes ((out.drop 10).take 48)
      bytes ++ undump fuel (out.drop (61 + bytes.length))

/-- The bytes that a hexdump is of. -/
def recover (out : List UInt8) : List UInt8 := undump out.length out

theorem columnBytes_cons (b : UInt8) (columns : List UInt8) :
    columnBytes (byteColumn b ++ columns) = b :: columnBytes columns := by
  have hb := b.toNat_lt
  have hhigh : b.toNat / 16 % 16 = b.toNat / 16 := by omega
  show (if hexDigit (b.toNat / 16 % 16) = 0x20 then _ else _) = _
  rw [if_neg (hexDigit_ne_space _ (by omega)), hexValue_hexDigit _ (by omega), hexValue_hexDigit _ (by omega), hhigh,
    show 16 * (b.toNat / 16) + b.toNat % 16 = b.toNat by omega, UInt8.ofNat_toNat]
  rfl

theorem columnBytes_line (bytes : List UInt8) (n : ℕ) :
    columnBytes (bytes.flatMap byteColumn ++ List.replicate (3 * n) 0x20) = bytes := by
  induction bytes with
  | nil =>
    cases n with
    | zero => rfl
    | succ n => rfl
  | cons b bytes ih => rw [List.flatMap_cons, List.append_assoc, columnBytes_cons, ih]

theorem length_columns (bytes : List UInt8) : (bytes.flatMap byteColumn).length = 3 * bytes.length := by
  induction bytes with
  | nil => rfl
  | cons b bytes ih =>
    rw [List.flatMap_cons, List.length_append, ih, List.length_cons]
    show 3 + _ = _
    omega

/-- One line is read back, and then what is behind it. -/
theorem undump_hexLine (fuel address : ℕ) {bytes : List UInt8} (h : bytes.length ≤ 16) (rest : List UInt8) :
    undump (fuel + 1) (hexLine address bytes ++ rest) = bytes ++ undump fuel rest := by
  let head := hexDigits 8 (address % 2 ^ 32) ++ [0x3a, 0x20]
  let columns := bytes.flatMap byteColumn ++ List.replicate (3 * (16 - bytes.length)) 0x20
  let quoted := [0x27] ++ bytes.map asciiChar ++ [0x27, 0x0a]
  have hline : hexLine address bytes ++ rest = head ++ (columns ++ (quoted ++ rest)) := by
    simp only [hexLine, head, columns, quoted, List.append_assoc]
  have hhead : head.length = 10 := by
    rw [List.length_append, length_hexDigits]
    rfl
  have hcolumns : columns.length = 48 := by
    rw [List.length_append, length_columns, List.length_replicate]
    omega
  have hquoted : quoted.length = bytes.length + 3 := by
    rw [List.length_append, List.length_append, List.length_map]
    show 1 + bytes.length + 2 = _
    omega
  have hne : head ++ (columns ++ (quoted ++ rest)) ≠ [] := by
    intro h
    have := congrArg List.length h
    rw [List.length_append, hhead, List.length_nil] at this
    omega
  have hread : columnBytes (((head ++ (columns ++ (quoted ++ rest))).drop 10).take 48) = bytes := by
    rw [List.drop_left' hhead, List.take_left' hcolumns]
    exact columnBytes_line bytes _
  have hrest : (head ++ (columns ++ (quoted ++ rest))).drop (61 + bytes.length) = rest := by
    rw [← List.append_assoc, ← List.append_assoc]
    apply List.drop_left'
    rw [List.length_append, List.length_append, hhead, hcolumns, hquoted]
    omega
  rw [hline, undump, if_neg hne]
  show columnBytes _ ++ undump fuel (List.drop (61 + (columnBytes _).length) _) = _
  rw [hread, hrest]

theorem undump_hexLines (address : ℕ) (bytes : List UInt8) {fuel : ℕ} (h : bytes.length ≤ fuel) :
    undump fuel (hexLines address bytes) = bytes := by
  induction fuel generalizing address bytes with
  | zero =>
    rw [List.length_eq_zero_iff.mp (Nat.le_zero.mp h)]
    rfl
  | succ fuel ih =>
    by_cases hne : bytes = []
    · rw [hne]
      rfl
    · have hpos : 0 < bytes.length := List.length_pos_iff.mpr hne
      have hrest : (bytes.drop 16).length ≤ fuel := by
        rw [List.length_drop]
        omega
      rw [hexLines_cons address hne, undump_hexLine _ _ (List.length_take_le 16 bytes), ih _ _ hrest,
        List.take_append_drop]

theorem length_hexLines_ge (address : ℕ) (bytes : List UInt8) : bytes.length ≤ (hexLines address bytes).length := by
  induction hn : bytes.length using Nat.strongRecOn generalizing address bytes with
  | ind n ih =>
    by_cases hne : bytes = []
    · rw [← hn, hne]
      exact Nat.zero_le _
    · have hpos : 0 < bytes.length := List.length_pos_iff.mpr hne
      have hline : (bytes.take 16).length ≤ (hexLine address (bytes.take 16)).length := by
        unfold hexLine
        simp only [List.length_append, List.length_map]
        omega
      have hrest := ih (bytes.drop 16).length (by rw [List.length_drop]; omega) (address + 16) (bytes.drop 16) rfl
      rw [hexLines_cons address hne, List.length_append]
      rw [List.length_take] at hline
      rw [List.length_drop] at hrest
      omega

/-- **The bytes can be recovered from the hexdump.** -/
theorem recover_hexLines (address : ℕ) (bytes : List UInt8) : recover (hexLines address bytes) = bytes :=
  undump_hexLines address bytes (length_hexLines_ge address bytes)

end Monolinux
