import Mathlib.Data.List.TakeWhile
import Mathlib.Data.UInt
import Monolinux.Lib.CString
import Monolinux.Lib.Terminal

/-!
# `sscanf`

A format is a list of directives.  Matching goes from one directive to the next as long
as each of them matches; it stops where one does not, and what was assigned and stored
until then stays.  So the number of values says how many conversions with a result were
reached, and the position, that of `%n`, is only there if `%n` was reached.

* `scanUnsigned_number`: a number and something behind it that is no digit are taken apart;
* `number_of_scanUnsigned`: what is taken for a number is one;
* `scan_none`, `scan_some`: one directive;
* `decimalValue_decimal`: a number that was printed is read back.
-/

namespace Monolinux

/-! ## Numbers -/

def isdigit (c : UInt8) : Bool := 0x30 ≤ c && c ≤ 0x39

def decimalValue (digits : List UInt8) : ℕ := digits.foldl (fun n c => 10 * n + (c.toNat - 0x30)) 0

/-- `strtoull`: a number that does not fit gives the largest one that does, and a `-` negates it. -/
def strtoull (negative : Bool) (digits : List UInt8) : UInt64 :=
  if decimalValue digits < 18446744073709551616 then
    if negative then -UInt64.ofNat (decimalValue digits) else UInt64.ofNat (decimalValue digits)
  else 18446744073709551615

/-- Whether there is a `-`, and the input behind the sign. -/
def scanSign : List UInt8 → Bool × List UInt8
  | [] => (false, [])
  | c :: s => if c = 0x2d then (true, s) else if c = 0x2b then (false, s) else (false, c :: s)

/-- `%llu`: the number, and the input behind it. -/
def scanUnsigned (input : List UInt8) : Option (UInt64 × List UInt8) :=
  let (negative, s) := scanSign (input.dropWhile isspace)
  if s.takeWhile isdigit = [] then none else some (strtoull negative (s.takeWhile isdigit), s.dropWhile isdigit)

/-- `x` is what `%llu` takes for `value`: white space, a sign, and digits. -/
def IsNumber (x : List UInt8) (value : UInt64) : Prop :=
  ∃ blanks sign digits, x = blanks ++ (sign ++ digits) ∧ (∀ c ∈ blanks, isspace c = true) ∧
    (sign = [] ∨ sign = [0x2b] ∨ sign = [0x2d]) ∧ digits ≠ [] ∧ (∀ c ∈ digits, isdigit c = true) ∧
    value = strtoull (decide (sign = [0x2d])) digits

theorem isNumber_digits {digits : List UInt8} (hne : digits ≠ []) (h : digits.all isdigit = true) :
    IsNumber digits (strtoull false digits) :=
  ⟨[], [], digits, rfl, List.forall_mem_nil _, .inl rfl, hne, List.all_eq_true.mp h, rfl⟩

/-- `rest` does not go on with a digit. -/
def NoDigit (rest : List UInt8) : Prop := ∀ c ∈ rest.head?, isdigit c = false

theorem noDigit_dropWhile (s : List UInt8) : NoDigit (s.dropWhile isdigit) := by
  intro c hc
  have hhead := List.head?_dropWhile_not isdigit s
  rw [Option.mem_def.mp hc] at hhead
  exact hhead

theorem isspace_of_isdigit {c : UInt8} (h : isdigit c = true) : isspace c = false ∧ c ≠ 0x2d ∧ c ≠ 0x2b := by
  unfold isdigit at h
  obtain ⟨hlow, hhigh⟩ := (Bool.and_eq_true _ _).mp h
  have hlow : (0x30 : UInt8).toNat ≤ c.toNat := UInt8.le_iff_toNat_le.mp (of_decide_eq_true hlow)
  have hlow : 0x30 ≤ c.toNat := hlow
  have hne (d : UInt8) (hd : d.toNat < 0x30) : c ≠ d := by
    rintro rfl
    omega
  have hle : ¬c ≤ 0x0d := by
    rw [UInt8.le_iff_toNat_le]
    show ¬c.toNat ≤ 0x0d
    omega
  refine ⟨?_, hne 0x2d (by decide), hne 0x2b (by decide)⟩
  unfold isspace
  simp [hne 0x20 (by decide), hle]

theorem takeWhile_digits {digits rest : List UInt8} (hdigits : ∀ c ∈ digits, isdigit c = true) (hrest : NoDigit rest) :
    (digits ++ rest).takeWhile isdigit = digits ∧ (digits ++ rest).dropWhile isdigit = rest := by
  cases rest with
  | nil =>
    rw [List.append_nil]
    exact ⟨List.takeWhile_eq_self_iff.mpr hdigits, List.dropWhile_eq_nil_iff.mpr hdigits⟩
  | cons c rest =>
    have hc : ¬isdigit c = true := Bool.eq_false_iff.mp (hrest c rfl)
    rw [List.takeWhile_append_of_pos hdigits, List.dropWhile_append_of_pos hdigits, List.takeWhile_cons_of_neg hc,
      List.dropWhile_cons_of_neg hc, List.append_nil]
    exact ⟨rfl, rfl⟩

/-- A number is read whole. -/
theorem scanUnsigned_number {x rest : List UInt8} {value : UInt64} (h : IsNumber x value) (hrest : NoDigit rest) :
    scanUnsigned (x ++ rest) = some (value, rest) := by
  obtain ⟨blanks, sign, digits, rfl, hblanks, hsign, hne, hdigits, rfl⟩ := h
  obtain ⟨d, ds, rfl⟩ := List.exists_cons_of_ne_nil hne
  obtain ⟨hspace, hminus, hplus⟩ := isspace_of_isdigit (hdigits d List.mem_cons_self)
  obtain ⟨htake, hdrop⟩ := takeWhile_digits hdigits hrest
  have hscan : scanSign ((blanks ++ (sign ++ d :: ds) ++ rest).dropWhile isspace) =
      (decide (sign = [0x2d]), d :: ds ++ rest) := by
    rw [List.append_assoc, List.dropWhile_append_of_pos hblanks]
    rcases hsign with rfl | rfl | rfl
    · rw [List.nil_append, List.cons_append, List.dropWhile_cons_of_neg (by rw [hspace]; decide)]
      simp [scanSign, hminus, hplus]
    · rfl
    · rfl
  unfold scanUnsigned
  rw [hscan]
  simp only
  rw [htake, hdrop, if_neg (List.cons_ne_nil d ds)]

/-- What begins with a number is read, the digits behind it included. -/
theorem exists_scanUnsigned {x : List UInt8} {value : UInt64} (h : IsNumber x value) (rest : List UInt8) :
    ∃ y value' rest', x ++ rest = y ++ rest' ∧ IsNumber y value' ∧ NoDigit rest' := by
  obtain ⟨blanks, sign, digits, rfl, hblanks, hsign, hne, hdigits, -⟩ := h
  have hmore : ∀ c ∈ digits ++ rest.takeWhile isdigit, isdigit c = true := by
    intro c hc
    rcases List.mem_append.mp hc with hc | hc
    · exact hdigits c hc
    · exact List.mem_takeWhile_imp hc
  refine ⟨blanks ++ (sign ++ (digits ++ rest.takeWhile isdigit)), _, rest.dropWhile isdigit, ?_,
    ⟨blanks, sign, digits ++ rest.takeWhile isdigit, rfl, hblanks, hsign, fun hnil => hne (List.append_eq_nil_iff.mp hnil).1,
      hmore, rfl⟩, ?_⟩
  · rw [List.append_assoc, List.append_assoc, List.append_assoc, List.append_assoc, List.append_assoc,
      List.takeWhile_append_dropWhile]
  · exact noDigit_dropWhile rest

theorem scanSign_eq (s : List UInt8) : ∃ sign : List UInt8, s = sign ++ (scanSign s).2 ∧
    (sign = [] ∨ sign = [0x2b] ∨ sign = [0x2d]) ∧ (scanSign s).1 = decide (sign = [0x2d]) := by
  cases s with
  | nil => exact ⟨[], rfl, .inl rfl, rfl⟩
  | cons c s =>
    by_cases hminus : c = 0x2d
    · subst hminus
      exact ⟨[0x2d], rfl, .inr (.inr rfl), rfl⟩
    · by_cases hplus : c = 0x2b
      · subst hplus
        exact ⟨[0x2b], rfl, .inr (.inl rfl), rfl⟩
      · refine ⟨[], ?_, .inl rfl, ?_⟩ <;> simp [scanSign, hminus, hplus]

/-- What is taken for a number is one. -/
theorem number_of_scanUnsigned {s rest : List UInt8} {value : UInt64} (h : scanUnsigned s = some (value, rest)) :
    ∃ x, s = x ++ rest ∧ IsNumber x value ∧ NoDigit rest := by
  obtain ⟨sign, hs, hsign, hnegative⟩ := scanSign_eq (s.dropWhile isspace)
  unfold scanUnsigned at h
  simp only at h
  split at h
  · cases h
  · next hne =>
    obtain ⟨rfl, rfl⟩ := Prod.mk.inj (Option.some.inj h)
    refine ⟨s.takeWhile isspace ++ (sign ++ (scanSign (s.dropWhile isspace)).2.takeWhile isdigit), ?_,
      ⟨_, sign, _, rfl, fun c hc => List.mem_takeWhile_imp hc, hsign, hne, fun c hc => List.mem_takeWhile_imp hc,
        by rw [hnegative]⟩, noDigit_dropWhile _⟩
    rw [List.append_assoc, List.append_assoc, List.takeWhile_append_dropWhile, ← hs, List.takeWhile_append_dropWhile]

/-! ## Formats -/

inductive Directive
  /-- an ordinary character -/
  | literal (c : UInt8)
  /-- any amount of white space -/
  | space
  /-- `%llu`, or `%*u` if nothing is assigned -/
  | unsigned (assigned : Bool)
  /-- `%*s` -/
  | word
  /-- `%*[^c]` -/
  | noneOf (c : UInt8)
  /-- `%n` -/
  | position
  deriving DecidableEq

/-- What is assigned, and the input behind it; `none` if the directive does not match. -/
def Directive.read (input : List UInt8) : Directive → Option (List UInt64 × List UInt8)
  | .literal c => if input.head? = some c then some ([], input.tail) else none
  | .space => some ([], input.dropWhile isspace)
  | .unsigned assigned => (scanUnsigned input).map fun (value, rest) => (if assigned then [value] else [], rest)
  | .word => (scanString input.length input).map fun (_, rest) => ([], rest)
  | .noneOf c => if input.takeWhile (· ≠ c) = [] then none else some ([], input.dropWhile (· ≠ c))
  | .position => some ([], input)

structure Scanned where
  values : List UInt64
  /-- stored by `%n` -/
  position : Option ℕ
  deriving DecidableEq

/-- `length` is that of the whole input. -/
def scan (length : ℕ) : List Directive → List UInt8 → Scanned → Scanned
  | [], _, result => result
  | d :: format, input, result =>
    match d.read input with
    | none => result
    | some (values, rest) => scan length format rest
      ⟨result.values ++ values, if d = .position then some (length - rest.length) else result.position⟩

def sscanf (format : List Directive) (s : List UInt8) : Scanned := scan s.length format s ⟨[], none⟩

section
variable {length : ℕ} {d : Directive} {format : List Directive} {input rest : List UInt8} {result : Scanned}
  {values : List UInt64}

theorem scan_none (h : d.read input = none) : scan length (d :: format) input result = result := by
  rw [scan, h]

theorem scan_some (h : d.read input = some (values, rest)) (hd : d ≠ .position) :
    scan length (d :: format) input result = scan length format rest ⟨result.values ++ values, result.position⟩ := by
  rw [scan, h]
  simp only [if_neg hd]

theorem scan_position : scan length (.position :: format) input result =
    scan length format input ⟨result.values, some (length - input.length)⟩ := by
  rw [scan]
  simp [Directive.read]

theorem read_literal_cons (c : UInt8) (s : List UInt8) : (Directive.literal c).read (c :: s) = some ([], s) := if_pos rfl

theorem read_literal_none {c : UInt8} {s : List UInt8} (h : s.head? ≠ some c) : (Directive.literal c).read s = none := if_neg h

theorem read_space (s : List UInt8) : Directive.space.read s = some ([], s.dropWhile isspace) := rfl

theorem read_unsigned {x : List UInt8} {value : UInt64} (h : IsNumber x value) (hrest : NoDigit rest) (assigned : Bool) :
    (Directive.unsigned assigned).read (x ++ rest) = some (if assigned then [value] else [], rest) := by
  rw [Directive.read, scanUnsigned_number h hrest]
  rfl

theorem read_noneOf_some {c : UInt8} {s : List UInt8} (h : s.takeWhile (· ≠ c) ≠ []) :
    (Directive.noneOf c).read s = some ([], s.dropWhile (· ≠ c)) := if_neg h

theorem read_noneOf {c : UInt8} {chars : List UInt8} (hne : chars ≠ []) (hchars : ∀ d ∈ chars, d ≠ c) (s : List UInt8) :
    (Directive.noneOf c).read (chars ++ c :: s) = some ([], c :: s) := by
  have hpos : ∀ d ∈ chars, (decide (d ≠ c)) = true := fun d hd => decide_eq_true (hchars d hd)
  rw [Directive.read, List.takeWhile_append_of_pos hpos, List.dropWhile_append_of_pos hpos,
    List.takeWhile_cons_of_neg (by simp), List.dropWhile_cons_of_neg (by simp), List.append_nil, if_neg hne]

end

/-! ## Printed numbers -/

theorem isdigit_of_isDigit {c : Char} (h : c.isDigit = true) :
    isdigit c.toNat.toUInt8 = true ∧ c.toNat.toUInt8.toNat = c.toNat := by
  have hc : 48 ≤ c.toNat ∧ c.toNat ≤ 57 := Char.isDigit_iff_toNat.mp h
  have hnat : c.toNat.toUInt8.toNat = c.toNat := by
    rw [Nat.toUInt8_eq, UInt8.toNat_ofNat', Nat.mod_eq_of_lt (by omega)]
  refine ⟨?_, hnat⟩
  unfold isdigit
  simp only [Bool.and_eq_true, decide_eq_true_eq, UInt8.le_iff_toNat_le, hnat]
  exact hc

/-- The digits of a number. -/
theorem isdigit_decimal (n : ℕ) : ∀ c ∈ decimal n, isdigit c = true := by
  intro c hc
  obtain ⟨digit, hdigit, rfl⟩ := List.mem_map.mp (show c ∈ (Nat.toDigits 10 n).map fun c => c.toNat.toUInt8 from hc)
  exact (isdigit_of_isDigit (Nat.isDigit_of_mem_toDigits (by decide) (by decide) hdigit)).1

theorem foldl_digits {digits : List Char} (h : ∀ c ∈ digits, c.isDigit = true) (m : ℕ) :
    (digits.map fun c => c.toNat.toUInt8).foldl (fun n c => 10 * n + (c.toNat - 0x30)) m = Nat.ofDigitChars 10 digits m := by
  induction digits generalizing m with
  | nil => exact Nat.ofDigitChars_nil.symm
  | cons c digits ih =>
    obtain ⟨hc, hdigits⟩ := List.forall_mem_cons.mp h
    rw [List.map_cons, List.foldl_cons, ih hdigits, Nat.ofDigitChars_cons, (isdigit_of_isDigit hc).2]
    rfl

/-- A number is read back from its digits. -/
theorem decimalValue_decimal (n : ℕ) : decimalValue (decimal n) = n := by
  have hdigits : ∀ c ∈ Nat.toDigits 10 n, c.isDigit = true := fun c hc =>
    Nat.isDigit_of_mem_toDigits (by decide) (by decide) hc
  exact (foldl_digits hdigits 0).trans Nat.ofDigitChars_ten_toDigits

/-- Zeros in front of a number do not count. -/
theorem decimalValue_leftpad (size : ℕ) (digits : List UInt8) :
    decimalValue (List.leftpad size 0x30 digits) = decimalValue digits := by
  have hzeros : ∀ n : ℕ, (List.replicate n (0x30 : UInt8)).foldl (fun n c => 10 * n + (c.toNat - 0x30)) 0 = 0 := by
    intro n
    induction n with
    | zero => rfl
    | succ n ih => exact ih
  unfold decimalValue List.leftpad
  rw [List.foldl_append, hzeros]

/-! ## Lines -/

/-- `fgets`: a line with its newline, or as much of it as fits; `none` at the end of the file. -/
def fgets (size : ℕ) (file : List UInt8) : Option (List UInt8 × List UInt8) :=
  let line := (file.takeWhile (· ≠ 0x0a) ++ (file.dropWhile (· ≠ 0x0a)).take 1).take (size - 1)
  if file = [] then none else some (line, file.drop line.length)

end Monolinux
