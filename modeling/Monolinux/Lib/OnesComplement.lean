import Mathlib.Data.List.Basic
import Mathlib.Data.Nat.ModEq
import Mathlib.Algebra.BigOperators.Group.List.Basic
import Mathlib.Algebra.GroupWithZero.Nat

/-!
# One's complement sums

`m` is the word with all bits set.  Words are the numbers up to `m`; a carry out of
the top of a word is added at its bottom.  There are two zeros, `0` and `m`, and only
a sum of nothing but zeros is `0` (`onesRep`).

  words added one by one         (`onesSum_eq`)
  words added first, carries last (`endAround_endAround`)
  what a sum keeps                (`onesRep_eq_iff`)
-/

namespace Monolinux

variable {m : ℕ}

/-- The carries of `x` are added to its lowest word. -/
def endAround (m x : ℕ) : ℕ := x / (m + 1) + x % (m + 1)

def onesAdd (m a b : ℕ) : ℕ := endAround m (a + b)

def onesSum (m : ℕ) (words : List ℕ) : ℕ := words.foldl (onesAdd m) 0

/-- The word that stands for `x` when carries go around. -/
def onesRep (m x : ℕ) : ℕ := if x = 0 then 0 else (x - 1) % m + 1

/-! ## The word of a number -/

theorem onesRep_le (hm : 0 < m) (x : ℕ) : onesRep m x ≤ m := by
  unfold onesRep
  split
  · exact Nat.zero_le m
  · have := Nat.mod_lt (x - 1) hm
    omega

theorem onesRep_of_le {x : ℕ} (h : x ≤ m) : onesRep m x = x := by
  unfold onesRep
  split
  next hx => exact hx.symm
  next hx =>
    rw [Nat.mod_eq_of_lt (by omega)]
    omega

theorem onesRep_eq_zero_iff {x : ℕ} : onesRep m x = 0 ↔ x = 0 := by
  unfold onesRep
  split
  next hx => exact ⟨fun _ => hx, fun _ => rfl⟩
  next hx => exact ⟨fun h => absurd h (Nat.succ_ne_zero _), fun h => absurd h hx⟩

theorem onesRep_modEq (x : ℕ) : onesRep m x ≡ x [MOD m] := by
  unfold onesRep
  split
  next hx => rw [hx]
  next hx =>
    have h : (x - 1) % m + 1 ≡ x - 1 + 1 [MOD m] := (Nat.mod_modEq _ _).add_right 1
    rwa [Nat.sub_add_cancel (by omega)] at h

/-- **A word keeps of a number its remainder by `m`, and whether it is `0`.** -/
theorem onesRep_eq_iff {x y : ℕ} : onesRep m x = onesRep m y ↔ (x = 0 ↔ y = 0) ∧ x ≡ y [MOD m] := by
  constructor
  · intro h
    refine ⟨?_, ?_⟩
    · rw [← onesRep_eq_zero_iff (m := m), h, onesRep_eq_zero_iff]
    · calc x ≡ onesRep m x [MOD m] := (onesRep_modEq x).symm
        _ ≡ y [MOD m] := h ▸ onesRep_modEq y
  · rintro ⟨hzero, hmod⟩
    by_cases hx : x = 0
    · rw [hx, hzero.mp hx]
    have hy : y ≠ 0 := fun hy => hx (hzero.mpr hy)
    unfold onesRep
    rw [if_neg hx, if_neg hy]
    have h : x - 1 + 1 ≡ y - 1 + 1 [MOD m] := by
      rwa [Nat.sub_add_cancel (by omega), Nat.sub_add_cancel (by omega)]
    rw [show (x - 1) % m = (y - 1) % m from Nat.ModEq.add_right_cancel' 1 h]

/-- The other zero. -/
theorem onesRep_eq_top_iff (hm : 0 < m) {x : ℕ} : onesRep m x = m ↔ x ≠ 0 ∧ m ∣ x := by
  constructor
  · intro h
    refine ⟨?_, ?_⟩
    · rintro rfl
      unfold onesRep at h
      rw [if_pos rfl] at h
      omega
    · have hx : x ≡ 0 [MOD m] := by
        calc x ≡ onesRep m x [MOD m] := (onesRep_modEq x).symm
          _ = m := h
          _ ≡ 0 [MOD m] := Nat.modEq_zero_iff_dvd.mpr dvd_rfl
      exact Nat.modEq_zero_iff_dvd.mp hx
  · rintro ⟨hx, hdvd⟩
    have hmod : x ≡ m [MOD m] :=
      (Nat.modEq_zero_iff_dvd.mpr hdvd).trans (Nat.modEq_zero_iff_dvd.mpr dvd_rfl).symm
    calc onesRep m x = onesRep m m :=
          onesRep_eq_iff.mpr ⟨⟨fun h => absurd h hx, fun h => absurd h hm.ne'⟩, hmod⟩
      _ = m := onesRep_of_le le_rfl

/-! ## Carries -/

theorem endAround_eq_zero_iff {x : ℕ} : endAround m x = 0 ↔ x = 0 := by
  have hx := Nat.div_add_mod x (m + 1)
  constructor
  · intro h
    obtain ⟨hq, hr⟩ := Nat.add_eq_zero_iff.mp h
    rw [hq, hr] at hx
    exact hx.symm
  · rintro rfl
    simp only [endAround, Nat.zero_div, Nat.zero_mod]

theorem endAround_modEq (x : ℕ) : endAround m x ≡ x [MOD m] := by
  have hx : x = m * (x / (m + 1)) + endAround m x := by
    calc x = (m + 1) * (x / (m + 1)) + x % (m + 1) := (Nat.div_add_mod x (m + 1)).symm
      _ = m * (x / (m + 1)) + endAround m x := by rw [endAround, Nat.add_mul, Nat.one_mul, Nat.add_assoc]
  have hzero : m * (x / (m + 1)) ≡ 0 [MOD m] := Nat.modEq_zero_iff_dvd.mpr (Nat.dvd_mul_right _ _)
  have h := hzero.add_right (endAround m x)
  rw [← hx, Nat.zero_add] at h
  exact h.symm

theorem onesRep_endAround (x : ℕ) : onesRep m (endAround m x) = onesRep m x :=
  onesRep_eq_iff.mpr ⟨endAround_eq_zero_iff, endAround_modEq x⟩

/-- One step is enough for a number with at most one carry. -/
theorem endAround_of_lt {x : ℕ} (hx : x ≤ 2 * m) : endAround m x = onesRep m x := by
  have hle : endAround m x ≤ m := by
    unfold endAround
    by_cases h : x < m + 1
    · rw [Nat.div_eq_of_lt h, Nat.mod_eq_of_lt h]
      omega
    · have hq : x / (m + 1) = 1 := by
        rw [Nat.div_eq_iff (Nat.succ_pos m)]
        omega
      have hr := Nat.div_add_mod x (m + 1)
      rw [hq] at hr ⊢
      omega
  rw [← onesRep_endAround, onesRep_of_le hle]

/-- **Two steps are enough for a number of two words.** -/
theorem endAround_endAround {x : ℕ} (hx : x < (m + 1) * (m + 1)) : endAround m (endAround m x) = onesRep m x := by
  have hq : x / (m + 1) < m + 1 := Nat.div_lt_of_lt_mul hx
  have hr : x % (m + 1) < m + 1 := Nat.mod_lt _ (Nat.succ_pos m)
  have hle : endAround m x ≤ 2 * m := by
    unfold endAround
    omega
  rw [endAround_of_lt hle, onesRep_endAround]

/-! ## Sums -/

theorem onesAdd_onesRep (hm : 0 < m) (x : ℕ) {w : ℕ} (hw : w ≤ m) : onesAdd m (onesRep m x) w = onesRep m (x + w) := by
  have hle := onesRep_le hm x
  unfold onesAdd
  rw [endAround_of_lt (by omega), onesRep_eq_iff]
  refine ⟨?_, (onesRep_modEq x).add_right w⟩
  have := onesRep_eq_zero_iff (m := m) (x := x)
  omega

/-- **Adding word by word gives the word of the sum.** -/
theorem onesSum_eq (hm : 0 < m) {words : List ℕ} (h : ∀ w ∈ words, w ≤ m) :
    onesSum m words = onesRep m words.sum := by
  have hrun : ∀ (words : List ℕ) (x : ℕ), (∀ w ∈ words, w ≤ m) →
      words.foldl (onesAdd m) (onesRep m x) = onesRep m (x + words.sum) := by
    intro words
    induction words with
    | nil =>
      intro x _
      rfl
    | cons w words ih =>
      intro x h
      rw [List.foldl_cons, onesAdd_onesRep hm x (h w List.mem_cons_self),
        ih _ fun v hv => h v (List.mem_cons_of_mem w hv), List.sum_cons, Nat.add_assoc]
  have h0 := hrun words 0 h
  rwa [Nat.zero_add] at h0

end Monolinux
