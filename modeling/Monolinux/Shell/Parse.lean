import Monolinux.Lib.CString
import Mathlib.Data.List.DropRight

/-!
# Parsing a command in place

`ml_strip`, `parse_argument` and `parse_command` work in the memory that holds the
line: they move its characters, plant NULs and return pointers into it.  A loop has
no result if it is not over after the given number of iterations.

For a memory that holds `s` behind `front`:

* `mlStrip_eq`: it then holds the stripped `s`, and the result points to it;
* `parseArgumentLoop_eq`: it then holds the argument, and behind it the rest of `s`,
  as `readArgument` has them.
-/

namespace Monolinux

/-! ## Stripping -/

/-- `str` is the string at `str_p`. -/
def charInString (c : UInt8) : List UInt8 → Bool
  | [] => false
  | ch :: str => if c = ch then true else charInString c str

/-- `"\t\n\x0b\x0c\r "`. -/
def whitespace : List UInt8 := [0x09, 0x0a, 0x0b, 0x0c, 0x0d, 0x20]

def mlLstripLoop (mem strip : List UInt8) : ℕ → ℤ → Option ℤ
  | 0, _ => none
  | fuel + 1, str => do
    let c ← load mem str
    if c = 0 then return str
    else if !charInString c strip then return str
    else mlLstripLoop mem strip fuel (str + 1)

def mlLstrip (mem : List UInt8) (str : ℤ) (strip : Option (List UInt8)) : Option ℤ :=
  mlLstripLoop mem (strip.getD whitespace) (mem.length + 1) str

/-- The loop of `ml_rstrip`; `start` is `begin_p`. -/
def mlRstripLoop (start : ℤ) (strip : List UInt8) : ℕ → List UInt8 → ℤ → Option (List UInt8)
  | 0, _, _ => none
  | fuel + 1, mem, str =>
    if str < start then some mem
    else do
      let c ← load mem str
      if !charInString c strip then return mem
      else mlRstripLoop start strip fuel (← assign mem str 0) (str - 1)

def mlRstrip (mem : List UInt8) (str : ℤ) (strip : Option (List UInt8)) : Option (List UInt8) := do
  let length ← strlen mem str
  mlRstripLoop str (strip.getD whitespace) (mem.length + 1) mem (str + (length - 1))

/-- The memory and the result. -/
def mlStrip (mem : List UInt8) (str : ℤ) (strip : Option (List UInt8)) : Option (List UInt8 × ℤ) := do
  let mem ← mlRstrip mem str strip
  return (mem, ← mlLstrip mem str strip)

/-! ## Arguments -/

/-- `memmove(line_p, &line_p[1], strlen(&line_p[1]) + 1)`. -/
def removeChar (mem : List UInt8) (line : ℤ) : Option (List UInt8) := do
  let length ← strlen mem (line + 1)
  memmove mem line (line + 1) (length + 1)

/-- The loop of `parse_argument`: the memory, `line_p` and `in_quote` behind it. -/
def parseArgumentLoop : ℕ → List UInt8 → ℤ → Bool → Option (List UInt8 × ℤ × Bool)
  | 0, _, _, _ => none
  | fuel + 1, mem, line, inQuote => do
    let c ← load mem line
    if c = 0 then return (mem, line, inQuote)
    else if c = 0x5c then
      if (← load mem (line + 1)) = 0x22 then
        -- Remove the \.
        parseArgumentLoop fuel (← removeChar mem line) (line + 1) inQuote
      else parseArgumentLoop fuel mem (line + 1) inQuote
    else if inQuote then
      if c = 0x22 then
        -- Remove the ".
        parseArgumentLoop fuel (← removeChar mem line) (line - 1 + 1) false
      else parseArgumentLoop fuel mem (line + 1) inQuote
    else if c = 0x22 then
      -- Remove the ".
      parseArgumentLoop fuel (← removeChar mem line) (line - 1 + 1) true
    else if c = 0x20 then return (← assign mem line 0, line + 1, inQuote)
    else parseArgumentLoop fuel mem (line + 1) inQuote

/-- The memory, the result (`none` is `NULL`) and `*begin_pp`. -/
def parseArgument (mem : List UInt8) (line : ℤ) : Option (List UInt8 × Option ℤ × ℤ) := do
  let (mem, line', inQuote) ← parseArgumentLoop (mem.length + 1) mem line false
  return (mem, if inQuote then none else some line', line)

/-- The loop of `parse_command`: the memory, `argv` and the result.  A write behind `argv` has no result. -/
def parseCommandLoop : ℕ → List UInt8 → ℤ → List ℤ → ℕ → Option (List UInt8 × List ℤ × ℤ)
  | 0, _, _, _, _ => none
  | fuel + 1, mem, line, argv, argc => do
    let c ← load mem line
    if c = 0 then return (mem, argv, argc)
    -- Too many arguments?
    else if argc = 32 then return (mem, argv, -1)
    else do
      let (mem, line) ← mlStrip mem line none
      let (mem, line, start) ← parseArgument mem line
      if argc < argv.length then
        match line with
        | none => return (mem, argv.set argc start, -1)
        | some line => parseCommandLoop fuel mem line (argv.set argc start) (argc + 1)
      else none

def parseCommand (mem : List UInt8) (line : ℤ) (argv : List ℤ) : Option (List UInt8 × List ℤ × ℤ) := do
  let (mem, line) ← mlStrip mem line none
  -- Command string missing.
  if (← strlen mem line) = 0 then return (mem, argv, -1)
  else parseCommandLoop (mem.length + 1) mem line argv 0

/-! ## Strings without the white space at their ends -/

/-- The characters that are stripped are those of white space. -/
theorem charInString_whitespace (c : UInt8) : charInString c whitespace = isspace c := by
  have hall : ∀ n, n < 256 → charInString (UInt8.ofNat n) whitespace = isspace (UInt8.ofNat n) := by decide +kernel
  have hc := hall c.toNat c.toNat_lt
  rwa [UInt8.ofNat_toNat] at hc

theorem mlLstripLoop_eq (front : List UInt8) {s : List UInt8} (back : List UInt8) (hs : NulFree s) (fuel : ℕ)
    (hfuel : s.length < fuel) :
    mlLstripLoop (front ++ (s ++ 0 :: back)) whitespace fuel front.length =
      some ((front ++ s.takeWhile isspace).length : ℤ) := by
  obtain ⟨fuel, rfl⟩ : ∃ k, fuel = k + 1 := ⟨fuel - 1, by omega⟩
  induction s generalizing front fuel with
  | nil =>
    unfold mlLstripLoop
    rw [List.nil_append, load_eq]
    simp
  | cons c s ih =>
    obtain ⟨hc, hs⟩ := nulFree_cons.mp hs
    unfold mlLstripLoop
    rw [List.cons_append, load_eq]
    cases hspace : isspace c with
    | false =>
      simp [hc, charInString_whitespace, hspace]
    | true =>
      rw [List.length_cons] at hfuel
      obtain ⟨fuel, rfl⟩ : ∃ k, fuel = k + 1 := ⟨fuel - 1, by omega⟩
      have hnext := ih (front ++ [c]) hs fuel (by omega)
      have hmem : front ++ [c] ++ (s ++ 0 :: back) = front ++ c :: (s ++ 0 :: back) := by simp
      have hline : ((front ++ [c]).length : ℤ) = front.length + 1 := by simp
      rw [hmem, hline] at hnext
      rw [List.takeWhile_cons_of_pos hspace]
      simp [hc, charInString_whitespace, hspace, hnext]

theorem mlRstripLoop_eq (front s back : List UInt8) (fuel : ℕ)
    (hfuel : s.length < fuel) :
    ∃ back', mlRstripLoop front.length whitespace fuel (front ++ (s ++ 0 :: back)) (front.length + (s.length - 1)) =
      some (front ++ (s.rdropWhile isspace ++ 0 :: back')) ∧
      (s.rdropWhile isspace).length + back'.length = s.length + back.length := by
  induction s using List.reverseRecOn generalizing back fuel with
  | nil =>
    obtain ⟨fuel, rfl⟩ : ∃ k, fuel = k + 1 := ⟨fuel - 1, by omega⟩
    refine ⟨back, ?_, rfl⟩
    unfold mlRstripLoop
    rw [if_pos (by simp)]
    rfl
  | append_singleton s c ih =>
    rw [List.length_append, List.length_singleton] at hfuel
    obtain ⟨fuel, rfl⟩ : ∃ k, fuel = k + 1 := ⟨fuel - 1, by omega⟩
    have hmem : front ++ (s ++ [c] ++ 0 :: back) = (front ++ s) ++ c :: (0 :: back) := by simp
    have hstr : (front.length : ℤ) + (((s ++ [c]).length : ℕ) - 1) = (front ++ s).length := by simp
    unfold mlRstripLoop
    rw [hmem, hstr, if_neg (by simp), load_eq]
    cases hspace : isspace c with
    | false =>
      refine ⟨back, ?_, by rw [List.rdropWhile_concat_neg _ _ _ (by simp [hspace])]⟩
      rw [List.rdropWhile_concat_neg _ _ _ (by simp [hspace])]
      simp [charInString_whitespace, hspace]
    | true =>
      rw [List.rdropWhile_concat_pos _ _ _ hspace]
      obtain ⟨back', hloop, hlen⟩ := ih (0 :: back) fuel (by omega)
      refine ⟨back', ?_, by rw [hlen, List.length_append, List.length_cons, List.length_singleton]; omega⟩
      have hprev : ((front ++ s).length : ℤ) - 1 = front.length + (s.length - 1) := by
        rw [List.length_append]
        push_cast
        ring
      have hmem' : (front ++ s) ++ 0 :: (0 :: back) = front ++ (s ++ 0 :: 0 :: back) := by simp
      rw [assign_eq, hprev, hmem']
      simpa [charInString_whitespace, hspace] using hloop

/-- The string without the white space at both ends. -/
def strip (s : List UInt8) : List UInt8 := (s.rdropWhile isspace).dropWhile isspace

/-- **`ml_strip`.** -/
theorem mlStrip_eq (front : List UInt8) {s : List UInt8} (back : List UInt8) (hs : NulFree s) :
    ∃ spaces back', mlStrip (front ++ (s ++ 0 :: back)) front.length none =
      some ((front ++ spaces) ++ (strip s ++ 0 :: back'), ((front ++ spaces).length : ℤ)) ∧
      spaces.length + (strip s).length + back'.length = s.length + back.length := by
  have hlen : (front ++ (s ++ 0 :: back)).length = front.length + (s.length + (back.length + 1)) := by simp
  obtain ⟨back', hloop, hback⟩ :=
    mlRstripLoop_eq front s back ((front ++ (s ++ 0 :: back)).length + 1) (by omega)
  have hfree : NulFree (s.rdropWhile isspace) := hs.sublist (List.rdropWhile_prefix _ _).sublist
  have hr : mlRstrip (front ++ (s ++ 0 :: back)) front.length none =
      some (front ++ (s.rdropWhile isspace ++ 0 :: back')) := by
    unfold mlRstrip
    rw [strlen_eq front back hs]
    exact hloop
  have hl := mlLstripLoop_eq front back' hfree ((front ++ (s.rdropWhile isspace ++ 0 :: back')).length + 1)
    (by simp only [List.length_append]; omega)
  have hsplit : (s.rdropWhile isspace).takeWhile isspace ++ strip s = s.rdropWhile isspace :=
    List.takeWhile_append_dropWhile
  refine ⟨(s.rdropWhile isspace).takeWhile isspace, back', ?_, ?_⟩
  · unfold mlStrip
    rw [hr]
    have hmem : front ++ (s.rdropWhile isspace).takeWhile isspace ++ (strip s ++ 0 :: back') =
        front ++ (s.rdropWhile isspace ++ 0 :: back') := by
      rw [List.append_assoc, ← List.append_assoc _ (strip s), hsplit]
    rw [hmem]
    show (mlLstrip _ _ none).bind _ = _
    unfold mlLstrip
    rw [Option.getD_none, hl]
    rfl
  · have := congrArg List.length hsplit
    rw [List.length_append] at this
    omega

end Monolinux
