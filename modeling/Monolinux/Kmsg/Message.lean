import Monolinux.Lib.Scanf
import Monolinux.Lib.Terminal

/-!
# `ml_print_kernel_message`

A message of the kernel is `<number>,<number>,<microseconds>,<characters>;<text>`
(`IsKernelMessage`), and is printed with the time in seconds and its text up to the first
newline.  The `sscanf` that takes it apart returns 1 as soon as it has the microseconds,
and stores the position of the text only behind the `;`:

* of a message, the microseconds and the position     (`sscanf_message`)
* of three numbers and something else, only the microseconds    (`sscanf_third`)
* of anything else, nothing     (`sscanf_other`)

In the second case the text is taken from wherever `text_pos` points to; so
`printsMessage_iff` says of each record whether it is printed as it should be.
`kernelLine_reads` says what can be read off a line.
-/

namespace Monolinux

/-! ## The code -/

/-- `"%*u,%*u,%llu,%*[^;]; %n"`. -/
def kernelFormat : List Directive :=
  [.unsigned false, .literal 0x2c, .unsigned false, .literal 0x2c, .unsigned true, .literal 0x2c, .noneOf 0x3b,
    .literal 0x3b, .space, .position]

/-- `"[%5lld.%06lld] %s\n"`. -/
def kernelLine (usecs : UInt64) (text : List UInt8) : List UInt8 :=
  0x5b :: List.leftpad 5 0x20 (decimal (usecs / 1000000).toNat) ++ 0x2e ::
    List.leftpad 6 0x30 (decimal (usecs % 1000000).toNat) ++ 0x5d :: 0x20 :: text ++ [0x0a]

/-- `ml_print_kernel_message()`: the memory at `message_p`, and what is printed.  `textPos` is what
`text_pos` happens to be. -/
def mlPrintKernelMessage (textPos : ℤ) (message : List UInt8) : Option (List UInt8 × List UInt8) := do
  let scanned := sscanf kernelFormat (← cstr message 0)
  match scanned.values with
  | [usecs] =>
    let textPos : ℤ := scanned.position.elim textPos Nat.cast
    let text ← cstr message textPos
    let message ← (match text.findIdx? (· = 0x0a) with
      | some i => assign message (textPos + i) 0
      | none => some message)
    let text ← cstr message textPos
    some (message, kernelLine usecs text)
  | _ => some (message, [])

/-- **A line** gives the time of the message in seconds and six digits of microseconds, and its text. -/
theorem kernelLine_reads (usecs : UInt64) (text : List UInt8) : ∃ blanks seconds micros,
    kernelLine usecs text = 0x5b :: (blanks ++ seconds) ++ 0x2e :: micros ++ 0x5d :: 0x20 :: text ++ [0x0a] ∧
      (∀ c ∈ blanks, c = 0x20) ∧ 5 ≤ (blanks ++ seconds).length ∧ micros.length = 6 ∧
      (∀ c ∈ seconds ++ micros, isdigit c = true) ∧ decimalValue seconds * 1000000 + decimalValue micros = usecs.toNat := by
  have hmicros : (usecs % 1000000).toNat = usecs.toNat % 1000000 := UInt64.toNat_mod ..
  have hseconds : (usecs / 1000000).toNat = usecs.toNat / 1000000 := UInt64.toNat_div ..
  refine ⟨List.replicate (5 - (decimal (usecs / 1000000).toNat).length) 0x20, decimal (usecs / 1000000).toNat,
    List.leftpad 6 0x30 (decimal (usecs % 1000000).toNat), rfl, fun c hc => List.eq_of_mem_replicate hc, ?_, ?_, ?_, ?_⟩
  · rw [List.length_append, List.length_replicate]
    omega
  · have hlength : (Nat.toDigits 10 (usecs % 1000000).toNat).length ≤ 6 :=
      (Nat.length_toDigits_le_iff (by decide) (by decide)).mpr (by omega)
    rw [List.length_leftpad]
    show max 6 ((Nat.toDigits 10 _).map _).length = 6
    rw [List.length_map]
    omega
  · refine List.forall_mem_append.mpr ⟨isdigit_decimal _, List.forall_mem_append.mpr ⟨fun c hc => ?_, isdigit_decimal _⟩⟩
    obtain rfl := List.eq_of_mem_replicate hc
    rfl
  · rw [decimalValue_leftpad, decimalValue_decimal, decimalValue_decimal, hmicros, hseconds]
    exact Nat.div_add_mod' ..
/-! ## Messages -/

/-- `<number>,<number>,<microseconds>,<one or more characters other than ';'>;<text>`. -/
def IsKernelMessage (s : List UInt8) (usecs : UInt64) (text : List UInt8) : Prop :=
  ∃ n v n' v' n'' chars, s = n ++ 0x2c :: (n' ++ 0x2c :: (n'' ++ 0x2c :: (chars ++ 0x3b :: text))) ∧
    IsNumber n v ∧ IsNumber n' v' ∧ IsNumber n'' usecs ∧ chars ≠ [] ∧ ∀ c ∈ chars, c ≠ 0x3b

/-- `<number>,<number>,<number>` and anything. -/
def HasThirdNumber (s : List UInt8) : Prop :=
  ∃ n v n' v' n'' v'' rest, s = n ++ 0x2c :: (n' ++ 0x2c :: (n'' ++ rest)) ∧
    IsNumber n v ∧ IsNumber n' v' ∧ IsNumber n'' v''

/-- The text from its first character that is not white space up to its first newline. -/
def firstLine (text : List UInt8) : List UInt8 := (text.dropWhile isspace).takeWhile (· ≠ 0x0a)

theorem noDigit_comma (s : List UInt8) : NoDigit (0x2c :: s) := by
  intro c hc
  obtain rfl := Option.some.inj hc
  decide

theorem IsKernelMessage.hasThirdNumber {s : List UInt8} {usecs : UInt64} {text : List UInt8}
    (h : IsKernelMessage s usecs text) : HasThirdNumber s := by
  obtain ⟨n, v, n', v', n'', chars, hs, hn, hn', hn'', -, -⟩ := h
  exact ⟨n, v, n', v', n'', usecs, _, hs, hn, hn', hn''⟩

/-- The text without its leading white space is at the end of the message. -/
theorem IsKernelMessage.exists_front {s : List UInt8} {usecs : UInt64} {text : List UInt8}
    (h : IsKernelMessage s usecs text) : ∃ front, s = front ++ text.dropWhile isspace := by
  obtain ⟨n, v, n', v', n'', chars, rfl, -⟩ := h
  refine ⟨n ++ 0x2c :: (n' ++ 0x2c :: (n'' ++ 0x2c :: (chars ++ 0x3b :: text.takeWhile isspace))), ?_⟩
  simp only [List.append_assoc, List.cons_append, List.takeWhile_append_dropWhile]

section
variable {s : List UInt8}

/-- Up to the third number. -/
theorem sscanf_numbers {n n' n'' rest : List UInt8} {v v' usecs : UInt64} (hn : IsNumber n v) (hn' : IsNumber n' v')
    (hn'' : IsNumber n'' usecs) (hrest : NoDigit rest) (hs : s = n ++ 0x2c :: (n' ++ 0x2c :: (n'' ++ rest))) :
    sscanf kernelFormat s =
      scan s.length [.literal 0x2c, .noneOf 0x3b, .literal 0x3b, .space, .position] rest ⟨[usecs], none⟩ := by
  unfold sscanf kernelFormat
  generalize s.length = length
  rw [hs, scan_some (read_unsigned hn (noDigit_comma _) false) (by decide), scan_some (read_literal_cons _ _) (by decide),
    scan_some (read_unsigned hn' (noDigit_comma _) false) (by decide), scan_some (read_literal_cons _ _) (by decide),
    scan_some (read_unsigned hn'' hrest true) (by decide)]
  rfl

/-- Of a message the microseconds are assigned, and the position of the text is stored. -/
theorem sscanf_message {usecs : UInt64} {text : List UInt8} (h : IsKernelMessage s usecs text) :
    sscanf kernelFormat s = ⟨[usecs], some (s.length - (text.dropWhile isspace).length)⟩ := by
  obtain ⟨n, v, n', v', n'', chars, hs, hn, hn', hn'', hne, hchars⟩ := h
  rw [sscanf_numbers hn hn' hn'' (noDigit_comma _) hs, scan_some (read_literal_cons _ _) (by decide),
    scan_some (read_noneOf hne hchars text) (by decide), scan_some (read_literal_cons _ _) (by decide),
    scan_some (read_space text) (by decide), scan_position]
  rfl

/-- What is behind the third number decides whether the position is stored. -/
theorem sscanf_third (h : HasThirdNumber s) (hno : ¬∃ usecs text, IsKernelMessage s usecs text) :
    ∃ usecs, sscanf kernelFormat s = ⟨[usecs], none⟩ := by
  obtain ⟨n, v, n', v', n₀, v₀, rest₀, hs₀, hn, hn', hn₀⟩ := h
  obtain ⟨n'', usecs, rest, hrest₀, hn'', hrest⟩ := exists_scanUnsigned hn₀ rest₀
  have hs : s = n ++ 0x2c :: (n' ++ 0x2c :: (n'' ++ rest)) := by rw [hs₀, hrest₀]
  refine ⟨usecs, ?_⟩
  rw [sscanf_numbers hn hn' hn'' hrest hs]
  by_cases hcomma : rest.head? = some 0x2c
  · obtain ⟨r, rfl⟩ := List.head?_eq_some_iff.mp hcomma
    rw [scan_some (read_literal_cons _ _) (by decide)]
    by_cases hchars : r.takeWhile (· ≠ 0x3b) = []
    · exact scan_none (if_pos hchars)
    · rw [scan_some (read_noneOf_some hchars) (by decide)]
      by_cases hsemicolon : (r.dropWhile (· ≠ 0x3b)).head? = some 0x3b
      · -- then it is a message after all
        obtain ⟨text, htext⟩ := List.head?_eq_some_iff.mp hsemicolon
        refine absurd ⟨usecs, text, n, v, n', v', n'', r.takeWhile (· ≠ 0x3b), ?_, hn, hn', hn'', hchars, fun c hc => ?_⟩ hno
        · rw [← htext, List.takeWhile_append_dropWhile]
          exact hs
        · have hne := List.mem_takeWhile_imp hc
          exact of_decide_eq_true hne
      · exact scan_none (read_literal_none hsemicolon)
  · exact scan_none (read_literal_none hcomma)

/-- Without a third number nothing is assigned. -/
theorem sscanf_other (h : ¬HasThirdNumber s) : sscanf kernelFormat s = ⟨[], none⟩ := by
  unfold sscanf kernelFormat
  cases h₁ : scanUnsigned s with
  | none => exact scan_none (by rw [Directive.read, h₁]; rfl)
  | some p₁ =>
    obtain ⟨v, rest⟩ := p₁
    rw [scan_some (by rw [Directive.read, h₁]; rfl) (by decide)]
    by_cases hcomma : rest.head? = some 0x2c
    · obtain ⟨r, rfl⟩ := List.head?_eq_some_iff.mp hcomma
      rw [scan_some (read_literal_cons _ _) (by decide)]
      cases h₂ : scanUnsigned r with
      | none => exact scan_none (by rw [Directive.read, h₂]; rfl)
      | some p₂ =>
        obtain ⟨v', rest'⟩ := p₂
        rw [scan_some (by rw [Directive.read, h₂]; rfl) (by decide)]
        by_cases hcomma' : rest'.head? = some 0x2c
        · obtain ⟨r', rfl⟩ := List.head?_eq_some_iff.mp hcomma'
          rw [scan_some (read_literal_cons _ _) (by decide)]
          cases h₃ : scanUnsigned r' with
          | none => exact scan_none (by rw [Directive.read, h₃]; rfl)
          | some p₃ =>
            obtain ⟨n, rfl, hn, -⟩ := number_of_scanUnsigned h₁
            obtain ⟨n', rfl, hn', -⟩ := number_of_scanUnsigned h₂
            obtain ⟨n'', rfl, hn'', -⟩ := number_of_scanUnsigned h₃
            exact absurd ⟨n, v, n', v', n'', _, _, rfl, hn, hn', hn''⟩ h
        · exact scan_none (read_literal_none hcomma')
    · exact scan_none (read_literal_none hcomma)

end

/-! ## What is printed -/

/-- The first newline is replaced by a NUL. -/
def cutLine (text : List UInt8) : List UInt8 :=
  match text.findIdx? (· = 0x0a) with
  | some i => text.set i 0
  | none => text

/-- A text has a first newline, or none. -/
theorem line_cases (text : List UInt8) : (∀ c ∈ text, c ≠ 0x0a) ∨
    ∃ line rest, text = line ++ 0x0a :: rest ∧ ∀ c ∈ line, c ≠ 0x0a := by
  induction text with
  | nil => exact .inl (List.forall_mem_nil _)
  | cons c text ih =>
    by_cases hc : c = 0x0a
    · subst hc
      exact .inr ⟨[], text, rfl, List.forall_mem_nil _⟩
    · rcases ih with hall | ⟨line, rest, rfl, hline⟩
      · exact .inl (List.forall_mem_cons.mpr ⟨hc, hall⟩)
      · exact .inr ⟨c :: line, rest, rfl, List.forall_mem_cons.mpr ⟨hc, hline⟩⟩

/-- Where there is no newline. -/
theorem no_newline {text : List UInt8} (h : ∀ c ∈ text, c ≠ 0x0a) :
    text.findIdx? (· = 0x0a) = none ∧ text.takeWhile (· ≠ 0x0a) = text := by
  refine ⟨List.findIdx?_eq_none_iff.mpr fun c hc => by simpa using h c hc, ?_⟩
  exact List.takeWhile_eq_self_iff.mpr fun c hc => decide_eq_true (h c hc)

/-- Where there is one. -/
theorem first_newline {line : List UInt8} (rest : List UInt8) (h : ∀ c ∈ line, c ≠ 0x0a) :
    (line ++ 0x0a :: rest).findIdx? (· = 0x0a) = some line.length ∧
      (line ++ 0x0a :: rest).takeWhile (· ≠ 0x0a) = line := by
  refine ⟨?_, ?_⟩
  · rw [List.findIdx?_append, (no_newline h).1]
    simp [List.findIdx?_cons]
  · rw [List.takeWhile_append_of_pos fun c hc => decide_eq_true (h c hc), List.takeWhile_cons_of_neg (by simp),
      List.append_nil]

/-- The string at `text_p` is printed up to its first newline. -/
theorem printText (front : List UInt8) {text : List UInt8} (junk : List UInt8) (h : NulFree text) :
    (match text.findIdx? (· = 0x0a) with
      | some i => assign (front ++ (text ++ 0 :: junk)) (front.length + i) 0
      | none => some (front ++ (text ++ 0 :: junk))) = some (front ++ (cutLine text ++ 0 :: junk)) ∧
    cstr (front ++ (cutLine text ++ 0 :: junk)) front.length = some (text.takeWhile (· ≠ 0x0a)) := by
  unfold cutLine
  rcases line_cases text with hnone | ⟨line, rest, rfl, hline⟩
  · obtain ⟨hidx, htake⟩ := no_newline hnone
    rw [hidx, htake]
    exact ⟨rfl, cstr_eq front junk h⟩
  · obtain ⟨hidx, htake⟩ := first_newline rest hline
    have hset : (line ++ 0x0a :: rest).set line.length 0 = line ++ 0 :: rest := by
      rw [List.set_append_right _ _ (Nat.le_refl _), Nat.sub_self, List.set_cons_zero]
    have hassign := assign_eq (front ++ line) 0x0a 0 (rest ++ 0 :: junk)
    rw [hidx, htake]
    simp only [hset]
    refine ⟨?_, ?_⟩
    · rw [List.length_append, Nat.cast_add] at hassign
      simpa using hassign
    · rw [List.append_assoc, List.cons_append]
      exact cstr_eq front (rest ++ 0 :: junk) (nulFree_append.mp h).1

section
variable {s text : List UInt8} {usecs : UInt64}

theorem cstr_zero (junk : List UInt8) (h : NulFree s) : cstr (s ++ 0 :: junk) 0 = some s := cstr_eq [] junk h

/-- A message is printed from the stored position up to its first newline, which becomes a NUL. -/
theorem mlPrintKernelMessage_message (hmessage : IsKernelMessage s usecs text) (h : NulFree s) (textPos : ℤ)
    (junk : List UInt8) : ∃ front, s = front ++ text.dropWhile isspace ∧
      mlPrintKernelMessage textPos (s ++ 0 :: junk) =
        some (front ++ (cutLine (text.dropWhile isspace) ++ 0 :: junk), kernelLine usecs (firstLine text)) := by
  have hscan := sscanf_message hmessage
  obtain ⟨front, hfront⟩ := hmessage.exists_front
  have hpos : s.length - (text.dropWhile isspace).length = front.length := by
    rw [hfront, List.length_append, Nat.add_sub_cancel]
  have hfree : NulFree (text.dropWhile isspace) := by
    rw [hfront] at h
    exact (nulFree_append.mp h).2
  obtain ⟨hcut, hline⟩ := printText front junk hfree
  have htext : cstr (s ++ 0 :: junk) front.length = some (text.dropWhile isspace) := by
    rw [hfront, List.append_assoc]
    exact cstr_eq front junk hfree
  refine ⟨front, hfront, ?_⟩
  unfold mlPrintKernelMessage
  simp only [cstr_zero junk h, Option.bind_eq_bind, Option.bind_some, hscan, hpos, Option.elim_some]
  rw [htext, Option.bind_some]
  rw [hfront, List.append_assoc, hcut, Option.bind_some, hline]
  rfl

/-- What has no third number is not printed. -/
theorem mlPrintKernelMessage_other (hno : ¬HasThirdNumber s) (h : NulFree s) (textPos : ℤ) (junk : List UInt8) :
    mlPrintKernelMessage textPos (s ++ 0 :: junk) = some (s ++ 0 :: junk, []) := by
  unfold mlPrintKernelMessage
  simp only [cstr_zero junk h, Option.bind_eq_bind, Option.bind_some, sscanf_other hno]

/-- Three numbers and something else: a line is printed, or an access goes wrong. -/
theorem mlPrintKernelMessage_third (hthird : HasThirdNumber s) (h : NulFree s) (textPos : ℤ) (junk memory : List UInt8) :
    mlPrintKernelMessage textPos (s ++ 0 :: junk) ≠ some (memory, []) := by
  obtain ⟨usecs, position, hscan⟩ : ∃ usecs position, sscanf kernelFormat s = ⟨[usecs], position⟩ := by
    by_cases hmessage : ∃ usecs text, IsKernelMessage s usecs text
    · obtain ⟨usecs, text, hmessage⟩ := hmessage
      exact ⟨usecs, _, sscanf_message hmessage⟩
    · obtain ⟨usecs, hscan⟩ := sscanf_third hthird hmessage
      exact ⟨usecs, none, hscan⟩
  intro hprint
  unfold mlPrintKernelMessage at hprint
  simp only [cstr_zero junk h, Option.bind_eq_bind, Option.bind_some, hscan, Option.bind_eq_some_iff] at hprint
  obtain ⟨text, -, message, -, line, -, heq⟩ := hprint
  have hline : kernelLine usecs line = [] := congrArg Prod.snd (Option.some.inj heq)
  exact List.cons_ne_nil _ _ hline

end

/-! ## Main results -/

/-- The record `s` is printed as it should be: as a line if it is a message, and else not at all. -/
structure PrintsMessage (textPos : ℤ) (s junk : List UInt8) : Prop where
  message : ∀ usecs text, IsKernelMessage s usecs text →
    (mlPrintKernelMessage textPos (s ++ 0 :: junk)).map Prod.snd = some (kernelLine usecs (firstLine text))
  other : (¬∃ usecs text, IsKernelMessage s usecs text) →
    mlPrintKernelMessage textPos (s ++ 0 :: junk) = some (s ++ 0 :: junk, [])

/-- **When a record is printed as it should be**: exactly if it has no third number, or is a message. -/
theorem printsMessage_iff (textPos : ℤ) {s : List UInt8} (junk : List UInt8) (h : NulFree s) :
    PrintsMessage textPos s junk ↔ (HasThirdNumber s → ∃ usecs text, IsKernelMessage s usecs text) := by
  constructor
  · intro hprints hthird
    by_contra hno
    exact mlPrintKernelMessage_third hthird h textPos junk _ (hprints.other hno)
  · intro hcond
    refine ⟨fun usecs text hmessage => ?_, fun hno => ?_⟩
    · obtain ⟨front, -, hprint⟩ := mlPrintKernelMessage_message hmessage h textPos junk
      rw [hprint]
      rfl
    · exact mlPrintKernelMessage_other (fun hthird => hno (hcond hthird)) h textPos junk

/-- A record of `/dev/kmsg` with a newline. -/
theorem printsMessage_rapl : PrintsMessage 0 (bytesOf "6,838,4248863,-;intel_rapl: Found\n") [] :=
  (printsMessage_iff 0 [] (by decide)).mpr fun _ =>
    ⟨_, bytesOf "intel_rapl: Found\n", bytesOf "6", _, bytesOf "838", _, bytesOf "4248863", bytesOf "-", by decide,
      isNumber_digits (by decide) (by decide), isNumber_digits (by decide) (by decide),
      isNumber_digits (by decide) (by decide), by decide, List.forall_mem_ne'.mpr (by decide)⟩

/-- `6,1,5` has three numbers and is no message; wherever `text_pos` points to, it is not passed over. -/
theorem printsMessage_numbers_only : ¬∃ textPos, PrintsMessage textPos (bytesOf "6,1,5") [] := by
  have hthird : HasThirdNumber (bytesOf "6,1,5") :=
    ⟨bytesOf "6", _, bytesOf "1", _, bytesOf "5", _, [], by decide, isNumber_digits (by decide) (by decide),
      isNumber_digits (by decide) (by decide), isNumber_digits (by decide) (by decide)⟩
  have hno : ¬∃ usecs text, IsKernelMessage (bytesOf "6,1,5") usecs text := by
    rintro ⟨usecs, text, n, v, n', v', n'', chars, hs, -⟩
    have hsemicolon : (0x3b : UInt8) ∈ bytesOf "6,1,5" := by
      rw [hs]
      simp
    exact absurd hsemicolon (by decide)
  rintro ⟨textPos, hprints⟩
  exact mlPrintKernelMessage_third hthird (by decide) textPos [] _ (hprints.other hno)

end Monolinux
