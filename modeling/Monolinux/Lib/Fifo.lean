import Monolinux.Lib.Run
import Mathlib.Data.Nat.ModEq
import Mathlib.Tactic.Ring

/-!
# Bounded FIFOs and ring buffers

`fifo cap` is a bounded first-in first-out queue.  In every run of it the
pushed values are the popped ones followed by the contents (`fifo_run`), so the
`k`-th pop gets the `k`-th push (`fifo_order`).

`RingHolds slots rd l`: an array of slots used as a ring holds the list `l`
from the slot `rd` on.  One slot stays unused, so that the write position
`(rd + l.length) % slots.length` tells empty (`ring_empty`) from full
(`ring_full`); `RingHolds.push` and `RingHolds.pop` are the two updates.
-/

namespace Monolinux

variable {μ : Type*}

/-! ## The bounded FIFO -/

inductive FifoEvent (μ : Type*)
  | push (m : μ)
  | pop (m : μ)

def fifo (cap : ℕ) : System (List μ) (FifoEvent μ) where
  start := []
  enabled
    | l, .push _ => l.length < cap
    | l, .pop m => l.head? = some m
  next
    | l, .push m => l ++ [m]
    | l, .pop _ => l.tail

def FifoEvent.pushed? : FifoEvent μ → Option μ
  | .push m => some m
  | .pop _ => none

def FifoEvent.popped? : FifoEvent μ → Option μ
  | .push _ => none
  | .pop m => some m

def pushes (tr : List (FifoEvent μ)) : List μ := tr.filterMap FifoEvent.pushed?

def pops (tr : List (FifoEvent μ)) : List μ := tr.filterMap FifoEvent.popped?

/-- **Nothing is lost, duplicated or reordered**, and the bound is kept. -/
theorem fifo_run {cap : ℕ} {tr : List (FifoEvent μ)} {l : List μ} (h : (fifo cap).Run tr l) :
    pushes tr = pops tr ++ l ∧ l.length ≤ cap := by
  induction h with
  | nil => exact ⟨rfl, Nat.zero_le _⟩
  | snoc e _ he ih =>
    obtain ⟨ih1, ih2⟩ := ih
    unfold pushes pops at *
    rw [List.filterMap_append, List.filterMap_append, ih1]
    cases e with
    | push m =>
      have hlt : _ < cap := he
      refine ⟨by simp [FifoEvent.pushed?, FifoEvent.popped?, fifo], ?_⟩
      simp only [fifo, List.length_append, List.length_singleton]
      omega
    | pop m =>
      have hm : List.head? _ = some m := he
      obtain ⟨t, rfl⟩ := List.head?_eq_some_iff.mp hm
      refine ⟨by simp [FifoEvent.pushed?, FifoEvent.popped?, fifo], ?_⟩
      simp only [fifo, List.tail_cons, List.length_cons] at ih2 ⊢
      omega

theorem fifo_order {cap : ℕ} {tr : List (FifoEvent μ)} {l : List μ} (h : (fifo cap).Run tr l) {k : ℕ} {m : μ}
    (hk : (pops tr)[k]? = some m) : (pushes tr)[k]? = some m := by
  rw [(fifo_run h).1]
  exact List.getElem?_append_left (List.getElem?_eq_some_iff.mp hk).1 ▸ hk

/-! ## Rings -/

/-- The slots from `rd` on, modulo their number, hold `l`, and one slot is spare. -/
structure RingHolds (slots : List (Option μ)) (rd : ℕ) (l : List μ) : Prop where
  rd_lt : rd < slots.length
  len : l.length < slots.length
  slot : ∀ i m, l[i]? = some m → slots[(rd + i) % slots.length]? = some (some m)

theorem ring_ne (rd : ℕ) {i j n : ℕ} (hi : i < n) (hj : j < n) (hne : i ≠ j) : (rd + i) % n ≠ (rd + j) % n := by
  intro h
  have hmod : i ≡ j [MOD n] := Nat.ModEq.add_left_cancel' rd h
  rw [Nat.ModEq, Nat.mod_eq_of_lt hi, Nat.mod_eq_of_lt hj] at hmod
  exact hne hmod

theorem ring_empty {rd len n : ℕ} (hrd : rd < n) (hlen : len < n) : rd = (rd + len) % n ↔ len = 0 := by
  constructor
  · intro h
    by_contra hne
    exact ring_ne rd hlen (by omega) hne (by rw [← h, Nat.add_zero, Nat.mod_eq_of_lt hrd])
  · rintro rfl
    rw [Nat.add_zero, Nat.mod_eq_of_lt hrd]

theorem ring_full {rd len n : ℕ} (hrd : rd < n) (hlen : len < n) :
    ((rd + len) % n + 1) % n = rd ↔ len + 1 = n := by
  rw [Nat.mod_add_mod, Nat.add_assoc]
  constructor
  · intro h
    by_contra hne
    have := ring_ne rd (show len + 1 < n by omega) (show 0 < n by omega) (by omega)
    rw [h, Nat.add_zero, Nat.mod_eq_of_lt hrd] at this
    exact this rfl
  · rintro rfl
    rw [Nat.add_mod_right, Nat.mod_eq_of_lt hrd]

theorem RingHolds.nil (n : ℕ) : RingHolds (List.replicate (n + 1) (none : Option μ)) 0 [] where
  rd_lt := by simp
  len := by simp
  slot i m h := by simp at h

theorem RingHolds.push {slots : List (Option μ)} {rd : ℕ} {l : List μ} (h : RingHolds slots rd l) (m : μ)
    (hroom : l.length + 1 < slots.length) :
    RingHolds (slots.set ((rd + l.length) % slots.length) (some m)) rd (l ++ [m]) where
  rd_lt := by rw [List.length_set]; exact h.rd_lt
  len := by rw [List.length_set, List.length_append, List.length_singleton]; exact hroom
  slot i m' hi := by
    rw [List.length_set]
    rcases Nat.lt_trichotomy i l.length with hlt | heq | hgt
    · rw [List.getElem?_append_left hlt] at hi
      rw [List.getElem?_set_ne (ring_ne rd h.len (by omega) (by omega))]
      exact h.slot i m' hi
    · subst heq
      rw [List.getElem?_append_right (Nat.le_refl _), Nat.sub_self] at hi
      obtain rfl : m = m' := by simpa using hi
      exact List.getElem?_set_self (Nat.mod_lt _ (by omega))
    · rw [List.getElem?_eq_none (by rw [List.length_append, List.length_singleton]; omega)] at hi
      cases hi

theorem RingHolds.pop {slots : List (Option μ)} {rd : ℕ} {l : List μ} {m : μ} (h : RingHolds slots rd (m :: l)) :
    slots[rd]? = some (some m) ∧ RingHolds slots ((rd + 1) % slots.length) l := by
  have hpos : 0 < slots.length := Nat.lt_of_le_of_lt (Nat.zero_le _) h.rd_lt
  constructor
  · have := h.slot 0 m rfl
    rwa [Nat.add_zero, Nat.mod_eq_of_lt h.rd_lt] at this
  · refine ⟨Nat.mod_lt _ hpos, ?_, fun i m' hi => ?_⟩
    · have := h.len
      rw [List.length_cons] at this
      omega
    · rw [Nat.mod_add_mod, show rd + 1 + i = rd + (i + 1) by ring]
      exact h.slot (i + 1) m' hi

end Monolinux
