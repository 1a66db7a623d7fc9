import Mathlib.Data.List.Forall2
import Monolinux.Lib.Scanf
import Monolinux.Errors

/-!
# The load of the CPUs

`/proc/stat` begins with a line of counters for each CPU.  `mlGetCpusStats` reads them
twice and returns what part of the change of all counters is that of three of them, in
percent.

The totals are sums of 64-bit counters in 64 bits, so the difference of two totals is the
change of all counters, modulo 2 ^ 64 (`totalDiff_toNat`).  Nothing checks that it is not
zero.  If the change is between 0 and 2 ^ 64 the loads are percentages, also where a
counter times 100 does not fit into 64 bits (`cpuLoads_percentages`); if it is a multiple
of 2 ^ 64, such as zero, the division has no result (`cpuLoads_isSome_iff`).
-/

namespace Monolinux

/-! ## The code -/

/-- `struct cpu_stats_t`, as `read_cpu_stats()` fills it. -/
structure CpuStats where
  user : UInt64
  nice : UInt64
  system : UInt64
  idle : UInt64
  iowait : UInt64
  irq : UInt64
  softirq : UInt64
  total : UInt64
  total_eq : total = 0 + user + nice + system + idle + iowait + irq + softirq
  deriving DecidableEq

/-- `struct ml_cpu_stats_t`. -/
structure MlCpuStats where
  user : UInt32
  system : UInt32
  idle : UInt32
  deriving DecidableEq

/-- `"cp%*s %llu %llu %llu %llu %llu %llu %llu"`. -/
def cpuFormat : List Directive :=
  [.literal 0x63, .literal 0x70, .word, .space, .unsigned true, .space, .unsigned true, .space, .unsigned true, .space,
    .unsigned true, .space, .unsigned true, .space, .unsigned true, .space, .unsigned true]

/-- `read_cpu_stats()`: the counters of the next line, or `none` if the CPUs are over. -/
def readCpuStats (file : List UInt8) : Except ℤ (Option CpuStats × List UInt8) :=
  match fgets 128 file with
  | none => .error (-EGENERAL)
  | some (line, file) =>
    if line.take 4 = bytesOf "intr" then .ok (none, file)
    else
      match (sscanf cpuFormat (line.takeWhile (· ≠ 0))).values with
      | [user, nice, system, idle, iowait, irq, softirq] =>
        .ok (some ⟨user, nice, system, idle, iowait, irq, softirq, _, rfl⟩, file)
      | _ => .error (-EGENERAL)

/-- The loop of `read_cpus_stats()`, for the CPUs that are left. -/
def readCpusLoop : ℕ → List UInt8 → Except ℤ (List CpuStats)
  | 0, _ => .ok []
  | length + 1, file =>
    match readCpuStats file with
    | .error res => .error res
    | .ok (none, _) => .ok []
    | .ok (some stats, file) => (readCpusLoop length file).map (stats :: ·)

/-- `read_cpus_stats()`.  Without a turn of the loop the value is that of its start. -/
def readCpusStats (file : Except ℕ+ (List UInt8)) (length : ℕ) : Except ℤ (List CpuStats) :=
  match file with
  | .error errno => .error (-errno)
  | .ok file => if length = 0 then .error (-EGENERAL) else readCpusLoop length file

/-- `calc_cpu_load()`; a division by zero has no result. -/
def calcCpuLoad (old new totalDiff : UInt64) : Option UInt32 :=
  if totalDiff = 0 then none else some (100 * (new - old) / totalDiff).toUInt32

/-- A turn of the loop of `ml_get_cpus_stats()`. -/
def cpuLoads (old new : CpuStats) : Option MlCpuStats := do
  let totalDiff := new.total - old.total
  let user ← calcCpuLoad old.user new.user totalDiff
  let system ← calcCpuLoad old.system new.system totalDiff
  let idle ← calcCpuLoad old.idle new.idle totalDiff
  some ⟨user, system, idle⟩

def cpusLoads : List CpuStats → List CpuStats → Option (List MlCpuStats)
  | old :: olds, new :: news => do
    let stats ← cpuLoads old new
    let rest ← cpusLoads olds news
    some (stats :: rest)
  | _, _ => some []

/-- `ml_get_cpus_stats()`, with `/proc/stat` as it is read first and 500 ms later. -/
def mlGetCpusStats (first second : Except ℕ+ (List UInt8)) (length : ℕ) : Option (Except ℤ (List MlCpuStats)) :=
  match readCpusStats first length with
  | .error res => some (.error res)
  | .ok olds =>
    match readCpusStats second olds.length with
    | .error res => some (.error res)
    | .ok news =>
      if news.length ≠ olds.length then some (.error (-EGENERAL))
      else (cpusLoads olds news).map .ok

/-! ## Percentages -/

/-- No counter of `new` is smaller than it is in `old`. -/
structure CpuStats.Le (old new : CpuStats) : Prop where
  user : old.user ≤ new.user
  nice : old.nice ≤ new.nice
  system : old.system ≤ new.system
  idle : old.idle ≤ new.idle
  iowait : old.iowait ≤ new.iowait
  irq : old.irq ≤ new.irq
  softirq : old.softirq ≤ new.softirq

/-- What the seven counters changed by, in sum. -/
def changes (old new : CpuStats) : ℕ :=
  (new.user.toNat - old.user.toNat) + (new.nice.toNat - old.nice.toNat) + (new.system.toNat - old.system.toNat)
    + (new.idle.toNat - old.idle.toNat) + (new.iowait.toNat - old.iowait.toNat) + (new.irq.toNat - old.irq.toNat)
    + (new.softirq.toNat - old.softirq.toNat)

structure MlCpuStats.Percentages (stats : MlCpuStats) : Prop where
  user : stats.user.toNat ≤ 100
  system : stats.system.toNat ≤ 100
  idle : stats.idle.toNat ≤ 100
  sum : stats.user.toNat + stats.system.toNat + stats.idle.toNat ≤ 100

/-- There is a result, with the loads of `length` CPUs, and they are percentages. -/
def LoadsArePercentages (length : ℕ) (res : Option (Except ℤ (List MlCpuStats))) : Prop :=
  ∃ loads, res = some (.ok loads) ∧ loads.length = length ∧ ∀ stats ∈ loads, stats.Percentages

/-! ## One CPU -/

theorem CpuStats.total_toNat (stats : CpuStats) :
    stats.total.toNat = (stats.user.toNat + stats.nice.toNat + stats.system.toNat + stats.idle.toNat
      + stats.iowait.toNat + stats.irq.toNat + stats.softirq.toNat) % 2 ^ 64 := by
  rw [stats.total_eq]
  simp only [UInt64.toNat_add, UInt64.toNat_zero, Nat.zero_add, Nat.mod_add_mod]

section
variable {old new : CpuStats}

/-- The totals may have wrapped between the two; their difference has not, if the changes fit. -/
theorem totalDiff_toNat (h : old.Le new) : (new.total - old.total).toNat = changes old new % 2 ^ 64 := by
  obtain ⟨h1, h2, h3, h4, h5, h6, h7⟩ := h
  rw [UInt64.le_iff_toNat_le] at h1 h2 h3 h4 h5 h6 h7
  rw [UInt64.toNat_sub, old.total_toNat, new.total_toNat]
  unfold changes
  omega

theorem totalDiff_eq_zero_iff (h : old.Le new) : new.total - old.total = 0 ↔ 2 ^ 64 ∣ changes old new := by
  rw [← UInt64.toNat_inj, totalDiff_toNat h]
  exact (Nat.dvd_iff_mod_eq_zero ..).symm

/-- Neither the product nor the conversion to `unsigned` makes a load larger. -/
theorem calcCpuLoad_le {old new totalDiff : UInt64} (hle : old ≤ new) (hdiff : totalDiff ≠ 0) :
    ∃ load, calcCpuLoad old new totalDiff = some load ∧
      load.toNat ≤ 100 * (new.toNat - old.toNat) / totalDiff.toNat := by
  refine ⟨_, if_neg hdiff, ?_⟩
  rw [UInt64.toNat_toUInt32, UInt64.toNat_div, UInt64.toNat_mul, UInt64.toNat_sub_of_le _ _ hle]
  calc 100 * (new.toNat - old.toNat) % 2 ^ 64 / totalDiff.toNat % 2 ^ 32
      ≤ 100 * (new.toNat - old.toNat) % 2 ^ 64 / totalDiff.toNat := Nat.mod_le _ _
    _ ≤ 100 * (new.toNat - old.toNat) / totalDiff.toNat := Nat.div_le_div_right (Nat.mod_le _ _)

/-- The parts of a whole, each in percent and rounded down, are not more than all of it. -/
theorem percent_sum_le {a b c whole : ℕ} (h : a + b + c ≤ whole) :
    100 * a / whole + 100 * b / whole + 100 * c / whole ≤ 100 := by
  have hab : 100 * a / whole + 100 * b / whole ≤ (100 * a + 100 * b) / whole := Nat.div_add_div_le_add_div
  have habc : (100 * a + 100 * b) / whole + 100 * c / whole ≤ (100 * a + 100 * b + 100 * c) / whole :=
    Nat.div_add_div_le_add_div
  have hall : (100 * a + 100 * b + 100 * c) / whole ≤ 100 :=
    Nat.div_le_of_le_mul (by rw [Nat.mul_comm whole]; omega)
  omega

theorem cpuLoads_percentages (h : old.Le new) (hpos : 0 < changes old new) (hlt : changes old new < 2 ^ 64) :
    ∃ stats, cpuLoads old new = some stats ∧ stats.Percentages := by
  have hdiff : (new.total - old.total).toNat = changes old new := by
    rw [totalDiff_toNat h, Nat.mod_eq_of_lt hlt]
  have hne : new.total - old.total ≠ 0 := by
    intro hzero
    exact Nat.not_dvd_of_pos_of_lt hpos hlt ((totalDiff_eq_zero_iff h).mp hzero)
  obtain ⟨user, huser, huser_le⟩ := calcCpuLoad_le h.user hne
  obtain ⟨system, hsystem, hsystem_le⟩ := calcCpuLoad_le h.system hne
  obtain ⟨idle, hidle, hidle_le⟩ := calcCpuLoad_le h.idle hne
  rw [hdiff] at huser_le hsystem_le hidle_le
  have hsum : user.toNat + system.toNat + idle.toNat ≤ 100 := by
    have hparts : (new.user.toNat - old.user.toNat) + (new.system.toNat - old.system.toNat)
        + (new.idle.toNat - old.idle.toNat) ≤ changes old new := by
      unfold changes
      omega
    have hpercent := percent_sum_le hparts
    omega
  exact ⟨⟨user, system, idle⟩, by simp [cpuLoads, huser, hsystem, hidle],
    { user := by dsimp only; omega, system := by dsimp only; omega, idle := by dsimp only; omega, sum := hsum }⟩

/-- The three divisions are by the same number. -/
theorem cpuLoads_isSome_iff (h : old.Le new) : (cpuLoads old new).isSome ↔ ¬ 2 ^ 64 ∣ changes old new := by
  rw [← totalDiff_eq_zero_iff h]
  by_cases hzero : new.total - old.total = 0
  · simp [cpuLoads, calcCpuLoad, hzero]
  · simp [cpuLoads, calcCpuLoad, hzero]

end

/-! ## All CPUs -/

section
variable {olds news : List CpuStats}

theorem cpusLoads_percentages
    (h : List.Forall₂ (fun old new => ∃ stats, cpuLoads old new = some stats ∧ stats.Percentages) olds news) :
    ∃ loads, cpusLoads olds news = some loads ∧ loads.length = olds.length ∧ ∀ stats ∈ loads, stats.Percentages := by
  induction h with
  | nil => exact ⟨[], rfl, rfl, by simp⟩
  | cons hcpu _ ih =>
    obtain ⟨stats, hstats, hpercent⟩ := hcpu
    obtain ⟨loads, hloads, hlength, hall⟩ := ih
    refine ⟨stats :: loads, by simp [cpusLoads, hstats, hloads], by simp [hlength], ?_⟩
    simpa using ⟨hpercent, hall⟩

/-- One CPU without loads is enough for none at all. -/
theorem cpusLoads_isSome_iff (hlength : olds.length = news.length) :
    (cpusLoads olds news).isSome ↔ List.Forall₂ (fun old new => (cpuLoads old new).isSome) olds news := by
  induction olds generalizing news with
  | nil =>
    obtain rfl := List.length_eq_zero_iff.mp hlength.symm
    exact iff_of_true rfl .nil
  | cons old olds ih =>
    cases news with
    | nil => cases hlength
    | cons new news =>
      rw [List.forall₂_cons, ← ih (Nat.succ.inj hlength)]
      cases hcpu : cpuLoads old new with
      | none => simp [cpusLoads, hcpu]
      | some stats => cases hrest : cpusLoads olds news <;> simp [cpusLoads, hcpu, hrest]

end

theorem mlGetCpusStats_eq {first second : Except ℕ+ (List UInt8)} {length : ℕ} {olds news : List CpuStats}
    (hfirst : readCpusStats first length = .ok olds) (hsecond : readCpusStats second olds.length = .ok news)
    (hlength : olds.length = news.length) :
    mlGetCpusStats first second length = (cpusLoads olds news).map .ok := by
  rw [mlGetCpusStats, hfirst]
  simp only [hsecond]
  exact if_neg (fun hne => hne hlength.symm)

/-- **Loads are percentages if the counters of every CPU have changed**, by less than 2 ^ 64
in all; and there are loads at all if and only if the changes of no CPU are a multiple of that. -/
theorem mlGetCpusStats_percentages {first second : Except ℕ+ (List UInt8)} {length : ℕ} {olds news : List CpuStats}
    (hfirst : readCpusStats first length = .ok olds) (hsecond : readCpusStats second olds.length = .ok news)
    (hle : List.Forall₂ CpuStats.Le olds news) :
    (List.Forall₂ (fun old new => 0 < changes old new ∧ changes old new < 2 ^ 64) olds news →
      LoadsArePercentages olds.length (mlGetCpusStats first second length)) ∧
    ((mlGetCpusStats first second length).isSome ↔
      List.Forall₂ (fun old new => ¬ 2 ^ 64 ∣ changes old new) olds news) := by
  have hlength := hle.length_eq
  rw [mlGetCpusStats_eq hfirst hsecond hlength]
  constructor
  · intro hchanges
    have hcpus := hle.mp (fun old new h ⟨hpos, hlt⟩ => cpuLoads_percentages h hpos hlt) hchanges
    obtain ⟨loads, hloads, hnumber, hall⟩ := cpusLoads_percentages hcpus
    exact ⟨loads, by rw [hloads]; rfl, hnumber, hall⟩
  · rw [Option.isSome_map, cpusLoads_isSome_iff hlength]
    constructor
    · exact hle.mp (fun old new h => (cpuLoads_isSome_iff h).mp)
    · exact hle.mp (fun old new h => (cpuLoads_isSome_iff h).mpr)

/-- `/proc/stat` of two CPUs, with their sum in front. -/
def statFirst : List UInt8 :=
  bytesOf ("cpu  30 0 10 200 0 0 0 0 0 0\n" ++ "cpu0 10 0 5 100 0 0 0 0 0 0\n" ++ "cpu1 20 0 5 100 0 0 0 0 0 0\n" ++ "intr 7\n")

/-- 500 ms later: the first CPU was busy for two of five ticks, the second one for seven of seven. -/
def statSecond : List UInt8 :=
  bytesOf ("cpu  38 0 11 203 0 0 0 0 0 0\n" ++ "cpu0 12 0 5 103 0 0 0 0 0 0\n" ++ "cpu1 26 0 6 100 0 0 0 0 0 0\n" ++ "intr 9\n")

theorem mlGetCpusStats_percentages_one :
    LoadsArePercentages 3 (mlGetCpusStats (.ok statFirst) (.ok statSecond) 8) ∧
      mlGetCpusStats (.ok statFirst) (.ok statSecond) 8 = some (.ok [⟨66, 8, 25⟩, ⟨40, 0, 60⟩, ⟨85, 14, 0⟩]) := by
  have hfirst : readCpusStats (.ok statFirst) 8 = .ok [⟨30, 0, 10, 200, 0, 0, 0, 240, rfl⟩,
      ⟨10, 0, 5, 100, 0, 0, 0, 115, rfl⟩, ⟨20, 0, 5, 100, 0, 0, 0, 125, rfl⟩] := by
    decide +kernel
  have hsecond : readCpusStats (.ok statSecond) 3 = .ok [⟨38, 0, 11, 203, 0, 0, 0, 252, rfl⟩,
      ⟨12, 0, 5, 103, 0, 0, 0, 120, rfl⟩, ⟨26, 0, 6, 100, 0, 0, 0, 132, rfl⟩] := by
    decide +kernel
  refine ⟨(mlGetCpusStats_percentages hfirst hsecond (.cons ?_ (.cons ?_ (.cons ?_ .nil)))).1
    (.cons (by decide) (.cons (by decide) (.cons (by decide) .nil))), by decide +kernel⟩
  all_goals constructor <;> decide

/-- Two equal readings. -/
theorem mlGetCpusStats_unchanged :
    ∃ (file : List UInt8) (stats : CpuStats), readCpusStats (.ok file) 1 = .ok [stats] ∧
      List.Forall₂ CpuStats.Le [stats] [stats] ∧
      mlGetCpusStats (.ok file) (.ok file) 1 = none ∧
      ¬ LoadsArePercentages 1 (mlGetCpusStats (.ok file) (.ok file) 1) := by
  have hnone : mlGetCpusStats (.ok (bytesOf "cpu  10 0 5 100 0 0 0\n")) (.ok (bytesOf "cpu  10 0 5 100 0 0 0\n")) 1
      = none := by decide +kernel
  refine ⟨bytesOf "cpu  10 0 5 100 0 0 0\n", ⟨10, 0, 5, 100, 0, 0, 0, 115, rfl⟩, by decide +kernel,
    .cons (by constructor <;> decide) .nil, hnone, ?_⟩
  rintro ⟨loads, hsome, -, -⟩
  rw [hnone] at hsome
  cases hsome

end Monolinux
