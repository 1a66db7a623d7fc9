import Mathlib.Data.Finset.Card

/-!
# Waiting for places

Threads wait for places, and a place that gets free wakes a thread that waits, if there
is one.  A thread that is woken has no claim on the place: another thread may take it
first.  `Covered waits woken free`: if any thread waits, then at least as many threads are
woken as places are free.  It is kept when a place is taken, by whomever
(`Covered.take`), and when one gets free (`Covered.give`), and says that no wake-up is
lost (`Covered.exists_woken`).
-/

namespace Monolinux

variable {ι : Type*}

def Covered (waits woken : ι → Prop) (free : ℕ) : Prop :=
  (∃ t, waits t) → ∃ S : Finset ι, (∀ t ∈ S, woken t) ∧ free ≤ S.card

namespace Covered

variable {waits waits' woken woken' : ι → Prop} {free free' : ℕ}

theorem zero (waits woken : ι → Prop) : Covered waits woken 0 := fun _ => ⟨∅, fun _ ht => by simp at ht, Nat.zero_le _⟩

/-- **No wake-up is lost.** -/
theorem exists_woken (h : Covered waits woken free) (hw : ∃ t, waits t) (hf : 0 < free) : ∃ t, woken t := by
  obtain ⟨S, hS, hcard⟩ := h hw
  obtain ⟨t, ht⟩ := Finset.card_pos.mp (Nat.lt_of_lt_of_le hf hcard)
  exact ⟨t, hS t ht⟩

/-- Fewer threads wait, and the same are woken. -/
theorem mono (h : Covered waits woken free) (hw : ∀ t, waits' t → waits t) (hk : ∀ t, woken t → woken' t)
    (hf : free' ≤ free) : Covered waits' woken' free' := by
  rintro ⟨t, ht⟩
  obtain ⟨S, hS, hcard⟩ := h ⟨t, hw t ht⟩
  exact ⟨S, fun u hu => hk u (hS u hu), hf.trans hcard⟩

/-- The thread `t` takes a place, whether it was woken or not. -/
theorem take [DecidableEq ι] (h : Covered waits woken free) (t : ι) (hw : ∀ u, waits' u → waits u)
    (hk : ∀ u, u ≠ t → woken u → woken' u) : Covered waits' woken' (free - 1) := by
  rintro ⟨u, hu⟩
  obtain ⟨S, hS, hcard⟩ := h ⟨u, hw u hu⟩
  refine ⟨S.erase t, fun u hu => ?_, ?_⟩
  · obtain ⟨hne, hmem⟩ := Finset.mem_erase.mp hu
    exact hk u hne (hS u hmem)
  · have := Finset.pred_card_le_card_erase (s := S) (a := t)
    omega

/-- A place gets free, and a thread that waits is woken, if there is one. -/
theorem give [DecidableEq ι] (h : Covered waits woken free) (hw : ∀ u, waits' u → waits u)
    (hk : ∀ u, woken u → woken' u) (hwake : (∃ u, waits u) → ∃ u, ¬ woken u ∧ woken' u) :
    Covered waits' woken' (free + 1) := by
  rintro ⟨u, hu⟩
  obtain ⟨S, hS, hcard⟩ := h ⟨u, hw u hu⟩
  obtain ⟨v, hv, hv'⟩ := hwake ⟨u, hw u hu⟩
  have hnew : v ∉ S := fun hmem => hv (hS v hmem)
  refine ⟨insert v S, fun u hu => ?_, ?_⟩
  · rcases Finset.mem_insert.mp hu with rfl | hmem
    · exact hv'
    · exact hk u (hS u hmem)
  · rw [Finset.card_insert_of_notMem hnew]
    omega

end Covered

end Monolinux
