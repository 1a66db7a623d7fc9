import Mathlib.Data.Nat.Bitwise
import Mathlib.Data.UInt
import Mathlib.Tactic.Common
import Mathlib.Tactic.Ring
import Mathlib.Tactic.Linarith
import Monolinux.Lib.Bytes

/-!
# Timestamps of the NTP protocol

A timestamp is 32 bits of seconds since 1900 and 32 bits of a second.  The seconds
wrapped, or will wrap, in 2036: a timestamp whose top bit is clear is of the era that
begins there.  So `instant` counts from 1900, in units of `2 ^ -32` seconds, over both
eras, and for a timestamp of any eight bytes

    sec  = s - 2208988800            (2 ^ 31 ≤ s)
    sec  = s + 2 ^ 32 - 2208988800   (s < 2 ^ 31)
    nsec = f * 10 ^ 9 / 2 ^ 32

(`ntpTimeToTimespec_exact`).  The conversion rounds down to whole nanoseconds
(`nanoseconds_ntpTimeToTimespec`), which keeps the order (`ntpTimeToTimespec_le`).
-/

namespace Monolinux

/-- `struct timespec`, with the 64 bits of `time_t` and `long`. -/
structure Timespec where
  sec : Int64
  nsec : Int64
  deriving DecidableEq

def JAN_1900_TO_1970 : UInt64 := 2208988800

/-- `ntp_time_to_timespec()`.  An NTP timestamp in `struct timespec`. -/
def ntpTimeToTimespec (time : Vector UInt8 8) : Timespec :=
  let secs := (word32 time[0] time[1] time[2] time[3]).toUInt64
  let secs := if time[0] &&& 0x80 = 0 then secs + (1 : UInt64) <<< 32 else secs
  let secs := secs - JAN_1900_TO_1970
  let nsecs := (word32 time[4] time[5] time[6] time[7]).toUInt64
  let nsecs := nsecs * 1000000000
  let nsecs := nsecs >>> 32
  { sec := secs.toInt64, nsec := nsecs.toInt64 }

/-! ## What a timestamp says -/

/-- The 32-bit seconds, most significant byte first. -/
def ntpSeconds (time : Vector UInt8 8) : ℕ :=
  time[0].toNat * 2 ^ 24 + time[1].toNat * 2 ^ 16 + time[2].toNat * 2 ^ 8 + time[3].toNat

/-- The 32-bit fraction. -/
def ntpFraction (time : Vector UInt8 8) : ℕ :=
  time[4].toNat * 2 ^ 24 + time[5].toNat * 2 ^ 16 + time[6].toNat * 2 ^ 8 + time[7].toNat

/-- Seconds since 1900, over both eras. -/
def eraSeconds (time : Vector UInt8 8) : ℕ :=
  if ntpSeconds time < 2 ^ 31 then ntpSeconds time + 2 ^ 32 else ntpSeconds time

/-- The time since 1900, in units of `2 ^ -32` seconds. -/
def instant (time : Vector UInt8 8) : ℕ := eraSeconds time * 2 ^ 32 + ntpFraction time

/-- Nanoseconds since 1970. -/
def Timespec.nanoseconds (t : Timespec) : ℤ := t.sec.toInt * 1000000000 + t.nsec.toInt

/-- `t` is not later than `u`. -/
def Timespec.Le (t u : Timespec) : Prop :=
  t.sec.toInt < u.sec.toInt ∨ t.sec.toInt = u.sec.toInt ∧ t.nsec.toInt ≤ u.nsec.toInt

section
variable (time : Vector UInt8 8)

theorem ntpSeconds_lt : ntpSeconds time < 2 ^ 32 := by
  have h0 := time[0].toNat_lt
  have h1 := time[1].toNat_lt
  have h2 := time[2].toNat_lt
  have h3 := time[3].toNat_lt
  unfold ntpSeconds
  omega

theorem ntpFraction_lt : ntpFraction time < 2 ^ 32 := by
  have h4 := time[4].toNat_lt
  have h5 := time[5].toNat_lt
  have h6 := time[6].toNat_lt
  have h7 := time[7].toNat_lt
  unfold ntpFraction
  omega

/-- The 136 years from 1968 on. -/
theorem eraSeconds_bounds : 2 ^ 31 ≤ eraSeconds time ∧ eraSeconds time < 2 ^ 32 + 2 ^ 31 := by
  have hs := ntpSeconds_lt time
  unfold eraSeconds
  split <;> omega

end

/-! ## The arithmetic -/

/-- The conversion of a `uint64_t` to a 64-bit signed type. -/
theorem toInt_toInt64 (x : UInt64) :
    x.toInt64.toInt = if x.toNat < 2 ^ 63 then (x.toNat : ℤ) else x.toNat - 2 ^ 64 := by
  have hcond : x.toInt64.toInt = if 2 * x.toNat < 2 ^ 64 then (x.toNat : ℤ) else x.toNat - (2 ^ 64 : ℕ) :=
    BitVec.toInt_eq_toNat_cond x.toBitVec
  rw [hcond]
  split <;> split <;> omega

/-- The top bit of a byte. -/
theorem and_0x80_eq_zero (b : UInt8) : b &&& 0x80 = 0 ↔ b.toNat < 2 ^ 7 := by
  have hand : (b &&& 0x80).toNat = b.toNat / 2 ^ 7 % 2 * 2 ^ 7 := by
    rw [UInt8.toNat_and, ← Nat.toNat_testBit]
    exact Nat.and_two_pow b.toNat 7
  have hb := b.toNat_lt
  rw [← UInt8.toNat_inj, hand]
  show _ = 0 ↔ _
  omega

section
variable (time : Vector UInt8 8)

/-- The era is decided by the first byte alone. -/
theorem top_bit_clear : time[0] &&& 0x80 = 0 ↔ ntpSeconds time < 2 ^ 31 := by
  have h1 := time[1].toNat_lt
  have h2 := time[2].toNat_lt
  have h3 := time[3].toNat_lt
  rw [and_0x80_eq_zero]
  unfold ntpSeconds
  omega

/-- The seconds before they are taken back to 1970. -/
theorem toNat_secs :
    (if time[0] &&& 0x80 = 0 then (word32 time[0] time[1] time[2] time[3]).toUInt64 + (1 : UInt64) <<< 32
      else (word32 time[0] time[1] time[2] time[3]).toUInt64).toNat = eraSeconds time := by
  have hword : (word32 time[0] time[1] time[2] time[3]).toUInt64.toNat = ntpSeconds time := by
    rw [UInt32.toNat_toUInt64]
    exact toNat_word32 _ _ _ _
  have hs := ntpSeconds_lt time
  unfold eraSeconds
  by_cases h : time[0] &&& 0x80 = 0
  · have hwrap : ((1 : UInt64) <<< 32).toNat = 2 ^ 32 := by decide
    rw [if_pos h, if_pos ((top_bit_clear time).mp h), UInt64.toNat_add, hword, hwrap]
    exact Nat.mod_eq_of_lt (by omega)
  · rw [if_neg h, if_neg (fun hlt => h ((top_bit_clear time).mpr hlt)), hword]

/-- The subtraction may go below zero; `time_t` takes it back. -/
theorem sec_ntpTimeToTimespec :
    (ntpTimeToTimespec time).sec.toInt = (eraSeconds time : ℤ) - 2208988800 := by
  have hsecs := toNat_secs time
  have hera := eraSeconds_bounds time
  have h1970 : JAN_1900_TO_1970.toNat = 2208988800 := rfl
  unfold ntpTimeToTimespec
  rw [toInt_toInt64, UInt64.toNat_sub, hsecs, h1970]
  split <;> omega

/-- The product has room in 64 bits, and the fraction stays below a second. -/
theorem nsec_ntpTimeToTimespec :
    (ntpTimeToTimespec time).nsec.toInt = (ntpFraction time * 10 ^ 9 / 2 ^ 32 : ℕ) := by
  have hword : (word32 time[4] time[5] time[6] time[7]).toUInt64.toNat = ntpFraction time := by
    rw [UInt32.toNat_toUInt64]
    exact toNat_word32 _ _ _ _
  have hf := ntpFraction_lt time
  have hnsecs : (((word32 time[4] time[5] time[6] time[7]).toUInt64 * 1000000000) >>> (32 : UInt64)).toNat =
      ntpFraction time * 10 ^ 9 / 2 ^ 32 := by
    rw [UInt64.toNat_shiftRight, UInt64.toNat_mul, hword, Nat.shiftRight_eq_div_pow]
    show ntpFraction time * 1000000000 % 2 ^ 64 / 2 ^ 32 = _
    rw [Nat.mod_eq_of_lt (by omega)]
    rfl
  unfold ntpTimeToTimespec
  rw [toInt_toInt64, hnsecs, if_pos (by omega)]

theorem nsec_bounds : ntpFraction time * 10 ^ 9 / 2 ^ 32 < 10 ^ 9 := by
  have hf := ntpFraction_lt time
  omega

/-- The conversion rounds down to whole nanoseconds. -/
theorem nanoseconds_ntpTimeToTimespec : (ntpTimeToTimespec time).nanoseconds =
    (instant time * 10 ^ 9 / 2 ^ 32 : ℕ) - 2208988800 * 1000000000 := by
  have hfloor : instant time * 10 ^ 9 / 2 ^ 32 = eraSeconds time * 10 ^ 9 + ntpFraction time * 10 ^ 9 / 2 ^ 32 := by
    have hsplit : instant time * 10 ^ 9 = ntpFraction time * 10 ^ 9 + 2 ^ 32 * (eraSeconds time * 10 ^ 9) := by
      unfold instant
      ring
    rw [hsplit, Nat.add_mul_div_left _ _ (Nat.two_pow_pos 32), Nat.add_comm]
  unfold Timespec.nanoseconds
  rw [sec_ntpTimeToTimespec, nsec_ntpTimeToTimespec, hfloor]
  push_cast
  ring

end

/-- Whole nanoseconds decide which of two times is the later one. -/
theorem timespec_le_iff {t u : Timespec} (ht : 0 ≤ t.nsec.toInt ∧ t.nsec.toInt < 1000000000)
    (hu : 0 ≤ u.nsec.toInt ∧ u.nsec.toInt < 1000000000) : t.Le u ↔ t.nanoseconds ≤ u.nanoseconds := by
  unfold Timespec.Le Timespec.nanoseconds
  omega

/-! ## Main results -/

/-- A later timestamp is not converted to an earlier time. -/
theorem ntpTimeToTimespec_le {time time' : Vector UInt8 8} (h : instant time ≤ instant time') :
    (ntpTimeToTimespec time).Le (ntpTimeToTimespec time') := by
  have hbounds (time : Vector UInt8 8) : 0 ≤ (ntpTimeToTimespec time).nsec.toInt ∧
      (ntpTimeToTimespec time).nsec.toInt < 1000000000 := by
    have := nsec_bounds time
    rw [nsec_ntpTimeToTimespec]
    omega
  have hfloor : instant time * 10 ^ 9 / 2 ^ 32 ≤ instant time' * 10 ^ 9 / 2 ^ 32 :=
    Nat.div_le_div_right (Nat.mul_le_mul_right _ h)
  rw [timespec_le_iff (hbounds time) (hbounds time'), nanoseconds_ntpTimeToTimespec, nanoseconds_ntpTimeToTimespec]
  omega

/-- **Exact and in order.**  The seconds of both eras and the fraction in nanoseconds are exact for
any eight bytes, and the later of two timestamps is never converted to an earlier time. -/
theorem ntpTimeToTimespec_exact (time : Vector UInt8 8) :
    (ntpTimeToTimespec time).sec.toInt = (if 2 ^ 31 ≤ ntpSeconds time then (ntpSeconds time : ℤ) - 2208988800
      else ntpSeconds time + 2 ^ 32 - 2208988800) ∧
    (ntpTimeToTimespec time).nsec.toInt = (ntpFraction time * 10 ^ 9 / 2 ^ 32 : ℕ) ∧
    0 ≤ (ntpTimeToTimespec time).nsec.toInt ∧ (ntpTimeToTimespec time).nsec.toInt ≤ 999999999 ∧
    ∀ time' : Vector UInt8 8, instant time ≤ instant time' → (ntpTimeToTimespec time).Le (ntpTimeToTimespec time') := by
  refine ⟨?_, nsec_ntpTimeToTimespec time, ?_, ?_, fun time' h => ntpTimeToTimespec_le h⟩
  · rw [sec_ntpTimeToTimespec]
    unfold eraSeconds
    split <;> split <;> omega
  · rw [nsec_ntpTimeToTimespec]
    exact Int.natCast_nonneg _
  · have := nsec_bounds time
    rw [nsec_ntpTimeToTimespec]
    omega

end Monolinux
