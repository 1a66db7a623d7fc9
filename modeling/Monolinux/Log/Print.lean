import Monolinux.Lib.Snprintf
import Monolinux.Log.Objects

/-!
# `ml_log_object_vprint`

A record is put together in a buffer of 512 bytes: the date, the level and the name of the
log object, and the message.  Each step continues where the one before it would have ended
in a buffer of any size, and the length is cut to the buffer only at the end.

`headerSize` is where the message begins.  Up to the end of the buffer everything is as
it should be: the record is the text, cut to 511 bytes, and a newline.  Behind it the
remaining size is below zero, as an unsigned number huge, and the message is stored behind
the buffer.  `recordIsCut_iff` has the bounds of both, and of what `snprintf` can count.

The level and the name can be read off a header (`recordHeader_words`, `levelToStringUpper_lower`).
-/

namespace Monolinux

/-! ## The code -/

def levelToStringUpper (level : ℤ) : List UInt8 :=
  match level with
  | 0 => bytesOf "EMERGENCY"
  | 1 => bytesOf "ALERT"
  | 2 => bytesOf "CRITICAL"
  | 3 => bytesOf "ERROR"
  | 4 => bytesOf "WARNING"
  | 5 => bytesOf "NOTICE"
  | 6 => bytesOf "INFO"
  | 7 => bytesOf "DEBUG"
  | _ => bytesOf "INVALID"

/-- `sizeof(buf) - length`, a `size_t`. -/
def remainingSize (length : ℕ) : ℕ := (512 + 18446744073709551616 - length) % 18446744073709551616

/-- `length += res`, of a `size_t` and an `int`. -/
def addResult (length : ℕ) (res : ℤ) : ℕ := ((length + res) % 18446744073709551616).toNat

/-- `" %s %s "` of the level and the name. -/
def recordHeader (name : List UInt8) (level : ℤ) : List UInt8 := 0x20 :: levelToStringUpper level ++ 0x20 :: name ++ [0x20]

variable {ι : Type}

/-- `ml_log_object_vprint()`: the records that are written.  `date` is what `strftime()` stores, `message` the
message with its arguments in it, and `buf` what was in the buffer. -/
def mlLogObjectVprint (self : LogObject ι) (level : ℤ) (date message buf : List UInt8) : Option (List (List UInt8)) :=
  if level > self.level then some []
  else do
    let buf := store buf 0 (date ++ [0])
    let length := date.length
    let (res, buf) ← snprintf buf length (remainingSize length) (recordHeader self.name level)
    let length := addResult length res
    let (res, buf) ← snprintf buf length (remainingSize length) message
    let length := addResult length res
    let length := if length ≥ 512 then 511 else length
    if length < buf.length then some [(buf.set length 0x0a).take (length + 1)] else none

/-! ## The header -/

/-- **The header of a record** says the level and the name of the log object. -/
theorem recordHeader_words {name : List UInt8} (hname : 0x20 ∉ name) (level : ℤ) :
    (recordHeader name level).splitOn 0x20 = [[], levelToStringUpper level, name, []] := by
  have hlevel : 0x20 ∉ levelToStringUpper level := by
    unfold levelToStringUpper
    split <;> decide
  have hheader : recordHeader name level = [0x20].intercalate [[], levelToStringUpper level, name, []] := by
    simp [recordHeader, List.intercalate]
  rw [hheader]
  refine List.splitOn_intercalate _ ?_ (List.cons_ne_nil _ _)
  simp [hlevel, hname]

/-- The level in it is read back, whatever its case. -/
theorem levelToStringUpper_lower {level : ℤ} (h : ValidLevel level) :
    mlLogObjectLevelFromString ((levelToStringUpper level).map (· + 0x20)) = level := by
  rcases h.cases with rfl | rfl | rfl | rfl | rfl | rfl | rfl | rfl <;> decide
/-! ## The end of the record -/

/-- `length` after the level and the name. -/
def headerSize (name : List UInt8) (level : ℤ) (date : List UInt8) : ℕ :=
  addResult date.length (snprintfResult (recordHeader name level))

theorem remainingSize_of_le {length : ℕ} (h : length ≤ 512) : remainingSize length = 512 - length := by
  unfold remainingSize
  omega

/-- A length that `snprintf` returns. -/
theorem addResult_of_le {length : ℕ} {text : List UInt8} (hlength : length ≤ 512) (h : text.length ≤ 2147483647) :
    addResult length (snprintfResult text) = length + text.length := by
  unfold addResult snprintfResult
  rw [if_pos h]
  omega

/-- A length that it cannot return: one less than before. -/
theorem addResult_of_gt {length : ℕ} {text : List UInt8} (hlength : length ≤ 512) (hpos : 0 < length)
    (h : 2147483647 < text.length) : addResult length (snprintfResult text) = length - 1 := by
  unfold addResult snprintfResult
  rw [if_neg (by omega)]
  omega

theorem take_set {buf : List UInt8} {n : ℕ} (h : n < buf.length) : (buf.set n 0x0a).take (n + 1) = buf.take n ++ [0x0a] := by
  rw [List.take_add_one, List.getElem?_set_self h, List.take_set, List.set_eq_of_length_le (by rw [List.length_take]; omega)]
  rfl

section
variable {self : LogObject ι} {level : ℤ} {date message buf front : List UInt8}

/-- What the buffer holds in front of the message.  If the level and the name are too long to be counted,
the message is put where the last byte of the date is. -/
def headerText (name : List UInt8) (level : ℤ) (date : List UInt8) : List UInt8 :=
  if (recordHeader name level).length ≤ 2147483647 then date ++ recordHeader name level else date.take (date.length - 1)

theorem length_headerText (hdate : 2 ≤ date.length ∧ date.length < 512) (name : List UInt8) (level : ℤ) :
    (headerText name level date).length = headerSize name level date := by
  unfold headerText headerSize
  split
  · next h => rw [addResult_of_le (by omega) h, List.length_append]
  · next h =>
    rw [addResult_of_gt (by omega) (by omega) (by omega), List.length_take]
    omega

/-- The buffer in front of the message. -/
theorem vprint_header (hdate : 2 ≤ date.length ∧ date.length < 512) (hbuf : buf.length = 512) (name : List UInt8)
    (level : ℤ) : ∃ buf₁,
      snprintf (store buf 0 (date ++ [0])) date.length (remainingSize date.length) (recordHeader name level) =
        some (snprintfResult (recordHeader name level), buf₁) ∧
      buf₁.length = 512 ∧ HeldBy (headerText name level date) buf₁ := by
  have hstore : store buf 0 (date ++ [0]) = date ++ 0 :: buf.drop (date.length + 1) := by
    rw [store_zero (by rw [List.length_append, List.length_singleton]; omega), List.length_append, List.length_singleton,
      List.append_assoc]
    rfl
  have hlen : (date ++ 0 :: buf.drop (date.length + 1)).length = 512 := by
    rw [← hstore, length_store, hbuf]
  have hdated : HeldBy date (date ++ 0 :: buf.drop (date.length + 1)) := heldBy_append (List.cons_ne_nil _ _)
  obtain ⟨buf₁, hprint, hheld⟩ := snprintf_holds hdated (by omega) (by omega) (recordHeader name level)
  rw [hlen, ← remainingSize_of_le (by omega)] at hprint
  rw [hstore]
  refine ⟨buf₁, hprint, (length_snprintf hprint).trans hlen, ?_⟩
  unfold headerText
  split
  · exact hheld
  · have hshort := hheld.take (n := date.length - 1) (by rw [List.length_append]; omega)
    rwa [List.take_append_of_le_length (by omega)] at hshort

/-- **Behind the buffer**, where the message begins there. -/
theorem vprint_none (hlevel : level ≤ self.level) (hdate : 2 ≤ date.length ∧ date.length < 512) (hbuf : buf.length = 512)
    (hheader : 512 < headerSize self.name level date) (message : List UInt8) :
    mlLogObjectVprint self level date message buf = none := by
  obtain ⟨buf₁, hprint, hlen, -⟩ := vprint_header hdate hbuf self.name level
  have hsize : headerSize self.name level date ≤ 512 + 2147483647 := by
    rw [← length_headerText hdate]
    unfold headerText
    split
    · rw [List.length_append]
      omega
    · rw [List.length_take]
      omega
  have hremaining : 0 < remainingSize (headerSize self.name level date) := by
    unfold remainingSize
    omega
  unfold mlLogObjectVprint
  rw [if_neg (by omega)]
  simp only [Option.bind_eq_bind, hprint, Option.bind_some]
  rw [show addResult date.length (snprintfResult (recordHeader self.name level)) = headerSize self.name level date from rfl,
    snprintf_behind (by omega) hremaining]
  rfl

/-- **The record**, if the message begins inside the buffer or at its end. -/
theorem vprint_eq (hlevel : level ≤ self.level) (hdate : 2 ≤ date.length ∧ date.length < 512) (hbuf : buf.length = 512)
    (hheader : headerSize self.name level date ≤ 512) (message : List UInt8) : ∃ buf' : List UInt8, buf'.length = 512 ∧
      HeldBy (headerText self.name level date ++ message) buf' ∧
      mlLogObjectVprint self level date message buf = some
        [buf'.take (min (addResult (headerSize self.name level date) (snprintfResult message)) 511) ++ [0x0a]] := by
  obtain ⟨buf₁, hprint₁, hlen₁, hheld⟩ := vprint_header hdate hbuf self.name level
  -- the message
  have hfront := length_headerText hdate self.name level
  obtain ⟨buf₂, hprint₂, hheld₂⟩ := snprintf_holds hheld (by omega) (by omega) message
  have hlen₂ : buf₂.length = 512 := (length_snprintf hprint₂).trans hlen₁
  refine ⟨buf₂, hlen₂, hheld₂, ?_⟩
  rw [hlen₁, hfront, ← remainingSize_of_le hheader] at hprint₂
  unfold mlLogObjectVprint
  rw [if_neg (by omega)]
  simp only [Option.bind_eq_bind, hprint₁, Option.bind_some]
  rw [show addResult date.length (snprintfResult (recordHeader self.name level)) = headerSize self.name level date from rfl]
  simp only [hprint₂, Option.bind_some]
  generalize addResult (headerSize self.name level date) (snprintfResult message) = length
  have hmin : (if length ≥ 512 then 511 else length) = min length 511 := by
    split <;> omega
  rw [hmin, if_pos (by omega), take_set (by omega)]

/-! ## Main results -/

/-- The whole text of a record. -/
def recordText (name : List UInt8) (level : ℤ) (date message : List UInt8) : List UInt8 :=
  date ++ recordHeader name level ++ message

/-- One record is written, the text cut to 511 bytes and a newline, and no remaining size is below zero. -/
structure RecordIsCut (object : LogObject ι) (level : ℤ) (date message buf : List UInt8) : Prop where
  record : mlLogObjectVprint object level date message buf =
    some [(recordText object.name level date message).take 511 ++ [0x0a]]
  remaining : date.length ≤ 512 ∧ headerSize object.name level date ≤ 512

/-- The header ends inside the buffer or at its end, and what is behind it does not matter or can be counted. -/
theorem recordIsCut_of_fits (hlevel : level ≤ self.level) (hdate : 2 ≤ date.length ∧ date.length < 512)
    (hbuf : buf.length = 512)
    (h : date.length + (recordHeader self.name level).length = 512 ∨
      date.length + (recordHeader self.name level).length < 512 ∧ message.length ≤ 2147483647) :
    RecordIsCut self level date message buf := by
  have hsize : headerSize self.name level date = date.length + (recordHeader self.name level).length :=
    addResult_of_le (by omega) (by omega)
  have hheader : headerSize self.name level date ≤ 512 := by omega
  have htext : headerText self.name level date = date ++ recordHeader self.name level := if_pos (by omega)
  obtain ⟨buf', hlen, hheld, hprint⟩ := vprint_eq hlevel hdate hbuf hheader message
  refine ⟨?_, by omega, hheader⟩
  have hcut : buf'.take (min (recordText self.name level date message).length 511) =
      (recordText self.name level date message).take 511 := by
    rw [htext] at hheld
    have hheld' : buf'.take (min (recordText self.name level date message).length (buf'.length - 1)) =
      (recordText self.name level date message).take (buf'.length - 1) := hheld
    rwa [hlen] at hheld'
  have htotal : (recordText self.name level date message).length =
      date.length + (recordHeader self.name level).length + message.length := by
    unfold recordText
    rw [List.length_append, List.length_append]
  have hmin : min (addResult (headerSize self.name level date) (snprintfResult message)) 511 =
      min (recordText self.name level date message).length 511 := by
    by_cases hcount : message.length ≤ 2147483647
    · rw [addResult_of_le hheader hcount, hsize, htotal]
    · rw [addResult_of_gt hheader (by omega) (by omega), hsize, htotal]
      omega
  rw [hprint, hmin, hcut]

/-- A record that is shorter than 511 bytes is not the beginning of a long text. -/
theorem not_recordIsCut_of_short (hlevel : level ≤ self.level) (hdate : 2 ≤ date.length ∧ date.length < 512)
    (hbuf : buf.length = 512) (hlong : 511 ≤ (recordText self.name level date message).length)
    (hshort : headerSize self.name level date ≤ 512 →
      addResult (headerSize self.name level date) (snprintfResult message) < 511) :
    ¬RecordIsCut self level date message buf := by
  rintro ⟨hrecord, -, hheader⟩
  obtain ⟨buf', hlen, -, hprint⟩ := vprint_eq hlevel hdate hbuf hheader message
  have hlt := hshort hheader
  rw [hprint] at hrecord
  have hlength := congrArg List.length (List.singleton_inj.mp (Option.some.inj hrecord))
  rw [List.length_append, List.length_append, List.length_take, List.length_take] at hlength
  omega

/-- A header that cannot be counted: the message overwrites the end of the date. -/
theorem not_recordIsCut_of_huge (hlevel : level ≤ self.level) (hdate : 2 ≤ date.length ∧ date.length < 512)
    (hbuf : buf.length = 512) (hhuge : 2147483647 < (recordHeader self.name level).length) (size : ℕ) :
    ∃ message : List UInt8, message.length = size ∧ ¬RecordIsCut self level date message buf := by
  have hsize : headerSize self.name level date = date.length - 1 := addResult_of_gt (by omega) (by omega) hhuge
  have hlast : date.length - 1 < date.length := by omega
  obtain ⟨c, hc⟩ : ∃ c : UInt8, c ≠ date[date.length - 1] := by
    by_cases hzero : date[date.length - 1] = 0
    · exact ⟨1, by rw [hzero]; decide⟩
    · exact ⟨0, Ne.symm hzero⟩
  refine ⟨List.replicate size c, List.length_replicate, ?_⟩
  have hlong : 511 ≤ (recordText self.name level date (List.replicate size c)).length := by
    unfold recordText
    rw [List.length_append, List.length_append]
    omega
  by_cases hcount : (List.replicate size c).length ≤ 2147483647
  · by_cases hzero : size = 0
    · refine not_recordIsCut_of_short hlevel hdate hbuf hlong fun hheader => ?_
      rw [addResult_of_le hheader hcount, hsize, List.length_replicate]
      omega
    · -- the byte behind the shortened date is of the message, not of the date
      rintro ⟨hrecord, -, hheader⟩
      obtain ⟨buf', hlen, hheld, hprint⟩ := vprint_eq hlevel hdate hbuf hheader (List.replicate size c)
      have htext : headerText self.name level date = date.take (date.length - 1) := if_neg (by omega)
      rw [hprint, addResult_of_le hheader hcount] at hrecord
      have htake := List.append_cancel_right (List.singleton_inj.mp (Option.some.inj hrecord))
      have hheld' : buf'.take (min (headerText self.name level date ++ List.replicate size c).length (buf'.length - 1)) =
        (headerText self.name level date ++ List.replicate size c).take (buf'.length - 1) := hheld
      rw [List.length_append, length_headerText hdate, hlen, htake, htext] at hheld'
      have hget := congrArg (fun l : List UInt8 => l[date.length - 1]?) hheld'
      simp only [recordText, List.getElem?_take_of_lt (show date.length - 1 < 512 - 1 by omega), List.append_assoc] at hget
      have hleft : (date ++ (recordHeader self.name level ++ List.replicate size c))[date.length - 1]? =
          some date[date.length - 1] := by
        rw [List.getElem?_append_left hlast, List.getElem?_eq_getElem hlast]
      have hright : (date.take (date.length - 1) ++ List.replicate size c)[date.length - 1]? = some c := by
        have hlen : (date.take (date.length - 1)).length = date.length - 1 := by
          rw [List.length_take]
          omega
        rw [List.getElem?_append_right (by omega), hlen, Nat.sub_self, List.getElem?_replicate, if_pos (by omega)]
      rw [hleft, hright] at hget
      exact hc (Option.some.inj hget).symm
  · refine not_recordIsCut_of_short hlevel hdate hbuf hlong fun hheader => ?_
    rw [addResult_of_gt hheader (by omega) (by omega), hsize]
    omega

/-- **When records are cut cleanly.**  For every message of `size` bytes, one record is written, the first 511
bytes of the text and a newline, with no store outside the buffer and no remaining size below zero, if and
only if the message begins at the end of the buffer, or inside and has a length that `snprintf` can return. -/
theorem recordIsCut_iff (hlevel : level ≤ self.level) (hdate : 2 ≤ date.length ∧ date.length < 512)
    (hbuf : buf.length = 512) (size : ℕ) :
    (∀ message : List UInt8, message.length = size → RecordIsCut self level date message buf) ↔
      date.length + (recordHeader self.name level).length = 512 ∨
        date.length + (recordHeader self.name level).length < 512 ∧ size ≤ 2147483647 := by
  constructor
  · intro hall
    by_cases hhuge : 2147483647 < (recordHeader self.name level).length
    · obtain ⟨message, hsize, hnot⟩ := not_recordIsCut_of_huge hlevel hdate hbuf hhuge size
      exact absurd (hall message hsize) hnot
    · have hsize : headerSize self.name level date = date.length + (recordHeader self.name level).length :=
        addResult_of_le (by omega) (by omega)
      have hcut := hall (List.replicate size 0) List.length_replicate
      have hheader := hcut.remaining.2
      by_contra hno
      refine not_recordIsCut_of_short hlevel hdate hbuf ?_ (fun _ => ?_) hcut
      · unfold recordText
        rw [List.length_append, List.length_append, List.length_replicate]
        omega
      · rw [addResult_of_gt hheader (by omega) (by rw [List.length_replicate]; omega)]
        omega
  · rintro h message rfl
    exact recordIsCut_of_fits hlevel hdate hbuf h

end

/-- A log object with a name of `n` characters. -/
def namedObject (n : ℕ) : LogObject ℕ := ⟨List.replicate n 0x78, 6, none⟩

def newYear : List UInt8 := bytesOf "2024-01-01 00:00:00"

/-- The longest name of which every message is cut cleanly. -/
theorem recordIsCut_486 : RecordIsCut (namedObject 486) 6 newYear (bytesOf "Hi") (List.replicate 512 0) :=
  (recordIsCut_iff (by decide) (by decide) List.length_replicate 2).mpr (.inl (by decide +kernel)) (bytesOf "Hi") rfl

/-- With a name of 500 characters the message is stored behind the buffer. -/
theorem vprint_behind_buffer :
    mlLogObjectVprint (namedObject 500) 6 newYear (bytesOf "Hi") (List.replicate 512 0) = none ∧
      ¬RecordIsCut (namedObject 500) 6 newYear (bytesOf "Hi") (List.replicate 512 0) := by
  have hbehind : 512 < headerSize (namedObject 500).name 6 newYear := by decide +kernel
  exact ⟨vprint_none (by decide) (by decide) List.length_replicate hbehind _, fun h => absurd h.remaining.2 (by omega)⟩

end Monolinux
