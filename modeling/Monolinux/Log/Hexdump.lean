import Monolinux.Hexdump
import Monolinux.Lib.Scanf
import Monolinux.Log.Print
import Monolinux.Shell.Parse

/-!
# `ml_log_object_hexdump`

The hexdump of a buffer is written to memory and read back line by line; each line is
stripped and logged as a record of its own.

* `hexdump_logged`: there is one record a line, and what is behind the headers of the records
  is the hexdump, so that the bytes can be recovered from the log.
-/

namespace Monolinux

/-! ## The code -/

section
variable {ι : Type} (self : LogObject ι) (level : ℤ) (clock stack : ℕ → List UInt8)

/-- The loop over the lines of the file, of which `n` have been logged.  `line` is the buffer of 128 bytes, and `clock n` and
`stack n` are the date and the buffer of the next record. -/
def hexdumpRecords : ℕ → ℕ → List UInt8 → List UInt8 → Option (List (List UInt8))
  | 0, _, _, _ => none
  | fuel + 1, n, line, file =>
    match fgets 128 file with
    | none => some []
    | some (read, file) => do
      let line ← mlRstrip (store line 0 (read ++ [0])) 0 none
      let records ← mlLogObjectVprint self level (clock n) (← cstr line 0) (stack n)
      return records ++ (← hexdumpRecords fuel (n + 1) line file)

/-- `opened` if `open_memstream()` and `fmemopen()` have been. -/
def mlLogObjectHexdump (opened : Bool) (fuel : ℕ) (line bytes : List UInt8) : Option (List (List UInt8)) :=
  if level > self.level then some []
  else if !opened then some []
  else do hexdumpRecords self level clock stack fuel 0 line (← hexdump bytes bytes.length 0)

end

/-! ## Lines -/

/-- A line without its newline. -/
def hexText (address : ℕ) (bytes : List UInt8) : List UInt8 :=
  hexDigits 8 (address % 2 ^ 32) ++ [0x3a, 0x20] ++ bytes.flatMap byteColumn ++
    List.replicate (3 * (16 - bytes.length)) 0x20 ++ [0x27] ++ bytes.map asciiChar ++ [0x27]

theorem hexLine_eq (address : ℕ) (bytes : List UInt8) : hexLine address bytes = hexText address bytes ++ [0x0a] := by
  simp [hexLine, hexText]

theorem length_hexText (address : ℕ) {bytes : List UInt8} (h : bytes.length ≤ 16) :
    (hexText address bytes).length ≤ 76 := by
  have hcolumns : (bytes.flatMap byteColumn).length = 3 * bytes.length := length_columns bytes
  simp only [hexText, List.length_append, length_hexDigits, hcolumns, List.length_replicate, List.length_map, List.length_cons,
    List.length_nil]
  omega

/-- What a line is made of is printed. -/
theorem isPrintable_hexDigit : ∀ n, n < 16 → Terminal.isPrintable (hexDigit n) = true := by decide

theorem isPrintable_hexDigits (n x : ℕ) : ∀ c ∈ hexDigits n x, Terminal.isPrintable c = true := by
  induction n generalizing x with
  | zero =>
    intro c hc
    cases hc
  | succ n ih =>
    intro c hc
    rcases List.mem_append.mp hc with hc | hc
    · exact ih _ c hc
    · obtain rfl := List.mem_singleton.mp hc
      exact isPrintable_hexDigit _ (Nat.mod_lt _ (by decide))

theorem isPrintable_asciiChar (b : UInt8) : Terminal.isPrintable (asciiChar b) = true := by
  unfold asciiChar
  split
  · next h => exact h
  · rfl

theorem isPrintable_hexText (address : ℕ) (bytes : List UInt8) :
    ∀ c ∈ hexText address bytes, Terminal.isPrintable c = true := by
  intro c hc
  unfold hexText at hc
  simp only [List.mem_append, List.mem_flatMap, List.mem_replicate, List.mem_map, List.mem_cons, List.not_mem_nil, or_false] at hc
  rcases hc with (((((hc | rfl | rfl) | ⟨b, -, hc⟩) | ⟨-, rfl⟩) | rfl) | ⟨b, -, rfl⟩) | rfl
  · exact isPrintable_hexDigits _ _ c hc
  · rfl
  · rfl
  · rcases List.mem_append.mp hc with hc | hc
    · exact isPrintable_hexDigits _ _ c hc
    · obtain rfl := List.mem_singleton.mp hc
      rfl
  · rfl
  · rfl
  · exact isPrintable_asciiChar b
  · rfl

theorem hexText_nulFree (address : ℕ) (bytes : List UInt8) : NulFree (hexText address bytes) := by
  rintro c hc rfl
  exact absurd (isPrintable_hexText address bytes 0 hc) (by decide)

theorem newline_notMem_hexText (address : ℕ) (bytes : List UInt8) : 0x0a ∉ hexText address bytes := fun hc =>
  absurd (isPrintable_hexText address bytes 0x0a hc) (by decide)

/-- Nothing but the newline is stripped. -/
theorem rdropWhile_hexText (address : ℕ) (bytes : List UInt8) :
    (hexText address bytes ++ [0x0a]).rdropWhile isspace = hexText address bytes := by
  rw [List.rdropWhile_concat_pos _ _ _ (by decide)]
  unfold hexText
  exact List.rdropWhile_concat_neg _ _ _ (by decide)

/-- A line of a file. -/
theorem fgets_line {text : List UInt8} (rest : List UInt8) (h : 0x0a ∉ text) (hlen : text.length + 1 ≤ 127) :
    fgets 128 (text ++ 0x0a :: rest) = some (text ++ [0x0a], rest) := by
  have hpos : ∀ c ∈ text, decide (c ≠ 0x0a) = true := fun c hc => decide_eq_true fun heq => h (heq ▸ hc)
  have htake : (text ++ 0x0a :: rest).takeWhile (· ≠ 0x0a) = text := by
    rw [List.takeWhile_append_of_pos hpos, List.takeWhile_cons_of_neg (by simp), List.append_nil]
  have hdrop : (text ++ 0x0a :: rest).dropWhile (· ≠ 0x0a) = 0x0a :: rest := by
    rw [List.dropWhile_append_of_pos hpos, List.dropWhile_cons_of_neg (by simp)]
  have hall : (text ++ [0x0a]).take 127 = text ++ [0x0a] := List.take_of_length_le (by simpa using hlen)
  unfold fgets
  rw [if_neg (by simp), htake, hdrop]
  show some ((text ++ [0x0a]).take 127, (text ++ 0x0a :: rest).drop ((text ++ [0x0a]).take 127).length) = _
  rw [hall, List.append_cons text 0x0a rest, List.drop_left]

/-- The line in the buffer, stripped. -/
theorem mlRstrip_line {text line : List UInt8} (hfree : NulFree text) (hstrip : (text ++ [0x0a]).rdropWhile isspace = text)
    (hline : line.length = 128) (hlen : text.length + 2 ≤ 128) : ∃ line', line'.length = 128 ∧
      mlRstrip (store line 0 ((text ++ [0x0a]) ++ [0])) 0 none = some line' ∧ cstr line' 0 = some text := by
  have hstore : store line 0 ((text ++ [0x0a]) ++ [0]) = (text ++ [0x0a]) ++ 0 :: line.drop (text.length + 2) := by
    rw [store_zero (by simp; omega)]
    simp
  have hfree' : NulFree (text ++ [0x0a]) := nulFree_append.mpr ⟨hfree, by decide⟩
  obtain ⟨back, hloop, hback⟩ := mlRstripLoop_eq [] (text ++ [0x0a]) (line.drop (text.length + 2))
    ((store line 0 ((text ++ [0x0a]) ++ [0])).length + 1) (by rw [length_store, List.length_append, List.length_singleton]; omega)
  rw [hstrip] at hloop hback
  refine ⟨text ++ 0 :: back, ?_, ?_, cstr_eq [] back hfree⟩
  · rw [List.length_drop, List.length_append, List.length_singleton] at hback
    rw [List.length_append, List.length_cons]
    omega
  · unfold mlRstrip
    rw [hstore] at hloop ⊢
    have hstrlen := strlen_eq [] (line.drop (text.length + 2)) hfree'
    rw [List.nil_append] at hstrlen hloop
    show (strlen _ 0).bind _ = _
    exact (congrArg (Option.bind · _) hstrlen).trans hloop

/-! ## Records -/

section
variable {ι : Type} {self : LogObject ι} {level : ℤ} {clock stack : ℕ → List UInt8}

/-- The records of a hexdump. -/
def hexdumpLog (name : List UInt8) (level : ℤ) (clock : ℕ → List UInt8) (n address : ℕ) (bytes : List UInt8) :
    List (List UInt8) :=
  (List.range ((bytes.length + 15) / 16)).map fun i =>
    recordText name level (clock (n + i)) (hexLine (address + 16 * i) ((bytes.drop (16 * i)).take 16))

/-- The first record and the others. -/
theorem hexdumpLog_cons (name : List UInt8) (level : ℤ) (clock : ℕ → List UInt8) (n address : ℕ) {bytes : List UInt8}
    (h : bytes ≠ []) : hexdumpLog name level clock n address bytes =
      recordText name level (clock n) (hexLine address (bytes.take 16)) ::
        hexdumpLog name level clock (n + 1) (address + 16) (bytes.drop 16) := by
  have hpos : 0 < bytes.length := List.length_pos_iff.mpr h
  have hrows : (bytes.length + 15) / 16 = ((bytes.drop 16).length + 15) / 16 + 1 := by
    rw [List.length_drop]
    omega
  unfold hexdumpLog
  rw [hrows, List.range_succ_eq_map, List.map_cons, List.map_map]
  refine congrArg₂ _ (by simp) (List.map_congr_left fun i _ => ?_)
  have hn : n + i.succ = n + 1 + i := by omega
  have haddress : address + 16 * i.succ = address + 16 + 16 * i := by omega
  have hdrop : 16 * i.succ = 16 + 16 * i := by omega
  show recordText name level (clock (n + i.succ)) (hexLine (address + 16 * i.succ) ((bytes.drop (16 * i.succ)).take 16)) = _
  rw [hn, haddress, hdrop, List.drop_drop]

/-- **Line by line.** -/
theorem hexdumpRecords_eq (hlevel : level ≤ self.level) (hclock : ∀ n, (clock n).length = 19)
    (hstack : ∀ n, (stack n).length = 512) (hname : (recordHeader self.name level).length ≤ 416)
    {fuel : ℕ} (n address : ℕ) {line bytes : List UInt8} (hline : line.length = 128)
    (hfuel : (bytes.length + 15) / 16 < fuel) :
    hexdumpRecords self level clock stack fuel n line (hexLines address bytes) =
      some (hexdumpLog self.name level clock n address bytes) := by
  induction fuel generalizing n address line bytes with
  | zero => exact absurd hfuel (Nat.not_lt_zero _)
  | succ fuel ih =>
    by_cases hbytes : bytes = []
    · subst hbytes
      rfl
    · have htake : (bytes.take 16).length ≤ 16 := List.length_take_le ..
      have hlen := length_hexText address htake
      have hpos : 0 < bytes.length := List.length_pos_iff.mpr hbytes
      have hread := fgets_line (hexLines (address + 16) (bytes.drop 16)) (newline_notMem_hexText address (bytes.take 16))
        (by omega)
      obtain ⟨line', hline', hrstrip, hcstr⟩ := mlRstrip_line (hexText_nulFree address (bytes.take 16))
        (rdropWhile_hexText address (bytes.take 16)) hline (by omega)
      have hcut : RecordIsCut self level (clock n) (hexText address (bytes.take 16)) (stack n) :=
        recordIsCut_of_fits hlevel (by rw [hclock n]; omega) (hstack n) (.inr ⟨by rw [hclock n]; omega, by omega⟩)
      have hrecord := hcut.record
      have hall : (recordText self.name level (clock n) (hexText address (bytes.take 16))).take 511 =
          recordText self.name level (clock n) (hexText address (bytes.take 16)) := by
        refine List.take_of_length_le ?_
        unfold recordText
        rw [List.length_append, List.length_append, hclock n]
        omega
      rw [hall] at hrecord
      have hrest : hexdumpRecords self level clock stack fuel (n + 1) line' (hexLines (address + 16) (bytes.drop 16)) =
          some (hexdumpLog self.name level clock (n + 1) (address + 16) (bytes.drop 16)) :=
        ih (n + 1) (address + 16) hline' (by rw [List.length_drop]; omega)
      rw [hexLines_cons address hbytes, hexLine_eq, List.append_assoc, List.singleton_append, hexdumpLog_cons _ _ _ _ _ hbytes]
      unfold hexdumpRecords
      rw [hread]
      show (mlRstrip _ 0 none >>= _) = _
      rw [hrstrip]
      show (cstr line' 0 >>= _) = _
      rw [hcstr]
      show (mlLogObjectVprint self level (clock n) (hexText address (bytes.take 16)) (stack n) >>= _) = _
      rw [hrecord]
      show (hexdumpRecords self level clock stack fuel (n + 1) line' (hexLines (address + 16) (bytes.drop 16)) >>= _) = _
      rw [hrest, hexLine_eq]
      show some _ = some _
      unfold recordText
      simp

/-- **Hexdumps in the log.**  Every line of the hexdump is one record, and the bytes can be recovered from what is behind the
headers. -/
theorem hexdump_logged (hlevel : level ≤ self.level) (hclock : ∀ n, (clock n).length = 19)
    (hstack : ∀ n, (stack n).length = 512) (hname : (recordHeader self.name level).length ≤ 416)
    {fuel : ℕ} {line bytes : List UInt8} (hline : line.length = 128) (hfuel : (bytes.length + 15) / 16 < fuel) :
    mlLogObjectHexdump self level clock stack true fuel line bytes = some (hexdumpLog self.name level clock 0 0 bytes) ∧
    recover ((hexdumpLog self.name level clock 0 0 bytes).flatMap (List.drop (19 + (recordHeader self.name level).length))) =
      bytes := by
  constructor
  · have hdump : hexdump bytes bytes.length 0 = some (hexLines 0 (bytes.take bytes.length)) := hexdump_eq rfl le_rfl
    unfold mlLogObjectHexdump
    rw [if_neg (not_lt.mpr hlevel), if_neg (by simp), hdump, List.take_length]
    exact hexdumpRecords_eq hlevel hclock hstack hname 0 0 hline hfuel
  · have hlines : (hexdumpLog self.name level clock 0 0 bytes).flatMap
        (List.drop (19 + (recordHeader self.name level).length)) = hexLines 0 bytes := by
      unfold hexdumpLog hexLines
      rw [List.flatMap_map]
      refine List.flatMap_congr fun i _ => ?_
      unfold recordText
      rw [List.append_assoc, ← List.drop_drop, List.drop_left' (hclock _), List.drop_left]
    rw [hlines]
    exact recover_hexLines 0 bytes

end

/-- Twenty bytes are a full line and a short one. -/
theorem hexdump_logged_twenty :
    mlLogObjectHexdump (namedObject 4) 6 (fun _ => newYear) (fun _ => List.replicate 512 0) true 3 (List.replicate 128 0)
        (List.replicate 20 0x41) =
      some (hexdumpLog (List.replicate 4 0x78) 6 (fun _ => newYear) 0 0 (List.replicate 20 0x41)) ∧
    (hexdumpLog (List.replicate 4 0x78) 6 (fun _ => newYear) 0 0 (List.replicate 20 0x41)).map List.length = [107, 95] := by
  have hlogged := @hexdump_logged ℕ (namedObject 4) 6 (fun _ => newYear) (fun _ => List.replicate 512 0) (by decide)
    (fun _ => by decide) (fun _ => List.length_replicate) (by decide +kernel) 3 (List.replicate 128 0) (List.replicate 20 0x41)
    List.length_replicate (by decide +kernel)
  exact ⟨hlogged.1, by decide +kernel⟩

end Monolinux
