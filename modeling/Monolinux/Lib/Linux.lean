import Mathlib.Data.List.Basic
import Mathlib.Data.List.Nodup
import Mathlib.Algebra.Order.BigOperators.Group.List
import Mathlib.Algebra.Order.Group.Nat
import Mathlib.Algebra.GroupWithZero.Nat
import Mathlib.Tactic.Common

/-!
# Descriptors and timers of a Linux process

`Descriptors κ` are the open descriptors of (a part of) a program, each with the kind
of file `κ` it refers to.  A new descriptor gets a number that is not in use; which one
is up to the kernel.  Closing a number that is not open closes nothing of the program's
own, and is recorded: the number was closed twice, or never opened.

A `TimerFd` is a timer of `timerfd_create` that runs once: armed, and with an expiry
that nobody has read.
-/

namespace Monolinux

variable {κ : Type*}

structure Descriptors (κ : Type*) where
  opened : List (ℕ × κ)
  /-- closed while not open -/
  stray : List ℕ

namespace Descriptors

/-- Numbers in use. -/
def numbers (d : Descriptors κ) : List ℕ := d.opened.map Prod.fst

/-- The kernel's choice `n`, or another number if `n` is in use. -/
def pick (d : Descriptors κ) (n : ℕ) : ℕ := if n ∈ d.numbers then d.numbers.sum + 1 else n

def create (d : Descriptors κ) (kind : κ) (n : ℕ) : Descriptors κ :=
  { d with opened := d.opened ++ [(d.pick n, kind)] }

def close (d : Descriptors κ) (fd : ℕ) : Descriptors κ :=
  if fd ∈ d.numbers then { d with opened := d.opened.filter fun f => f.1 ≠ fd }
  else { d with stray := d.stray ++ [fd] }

end Descriptors

/-- No number is in use twice, and none was closed that was not open. -/
structure Descriptors.Wf (d : Descriptors κ) : Prop where
  nodup : d.numbers.Nodup
  stray : d.stray = []

section
variable {d : Descriptors κ} {fd : ℕ}

theorem pick_notMem (d : Descriptors κ) (n : ℕ) : d.pick n ∉ d.numbers := by
  unfold Descriptors.pick
  split
  · intro hmem
    have := List.single_le_sum (fun _ _ => Nat.zero_le _) _ hmem
    omega
  · next h => exact h

theorem create_wf (h : d.Wf) (kind : κ) (n : ℕ) : (d.create kind n).Wf where
  nodup := by
    show (List.map Prod.fst (d.opened ++ [(d.pick n, kind)])).Nodup
    rw [List.map_append]
    refine List.nodup_append.mpr ⟨h.nodup, List.nodup_singleton _, fun a ha b hb hab => ?_⟩
    obtain rfl : b = d.pick n := List.mem_singleton.mp hb
    exact pick_notMem d n (hab ▸ ha)
  stray := h.stray

theorem close_eq (h : fd ∈ d.numbers) :
    d.close fd = { d with opened := d.opened.filter fun f => f.1 ≠ fd } := if_pos h

/-- What is open can be closed. -/
theorem close_wf (h : d.Wf) (hfd : fd ∈ d.numbers) : (d.close fd).Wf := by
  rw [close_eq hfd]
  exact ⟨h.nodup.sublist (List.filter_sublist.map _), h.stray⟩

/-- Closing what is not open is never repaired. -/
theorem close_stray (hfd : fd ∉ d.numbers) : (d.close fd).stray ≠ [] := by
  unfold Descriptors.close
  rw [if_neg hfd]
  simp

end

/-- The open descriptors are those in `l`, in any order. -/
structure Descriptors.Owns (d : Descriptors κ) (l : List (ℕ × κ)) : Prop extends d.Wf where
  perm : d.opened.Perm l

section
variable {d : Descriptors κ} {l l' : List (ℕ × κ)} {f : ℕ × κ}

theorem Descriptors.Owns.mem_iff (h : d.Owns l) : f ∈ d.opened ↔ f ∈ l := h.perm.mem_iff

theorem Descriptors.Owns.nodup_fst (h : d.Owns l) : (l.map Prod.fst).Nodup := (h.perm.map _).nodup_iff.mp h.nodup

theorem Descriptors.Owns.of_perm (h : d.Owns l) (hl : l.Perm l') : d.Owns l' := ⟨h.toWf, h.perm.trans hl⟩

theorem owns_nil : (⟨[], []⟩ : Descriptors κ).Owns [] := ⟨⟨List.nodup_nil, rfl⟩, .nil⟩

theorem owns_create (h : d.Owns l) (kind : κ) (n : ℕ) : (d.create kind n).Owns ((d.pick n, kind) :: l) where
  toWf := create_wf h.toWf kind n
  perm := (List.perm_append_singleton _ _).trans (h.perm.cons _)

/-- A descriptor that is owned is closed, and no other. -/
theorem owns_close (h : d.Owns (f :: l)) : (d.close f.1).Owns l := by
  have hmem : f.1 ∈ d.numbers := List.mem_map_of_mem (h.mem_iff.mpr List.mem_cons_self)
  refine ⟨close_wf h.toWf hmem, ?_⟩
  have hne : ∀ g ∈ l, g.1 ≠ f.1 := fun g hg he =>
    (List.nodup_cons.mp h.nodup_fst).1 (he ▸ List.mem_map_of_mem hg)
  have hfilter : (f :: l).filter (fun g => g.1 ≠ f.1) = l := by
    rw [List.filter_cons_of_neg (by simp), List.filter_eq_self]
    exact fun g hg => by simpa using hne g hg
  rw [close_eq hmem]
  exact (hfilter ▸ h.perm.filter _ : (d.opened.filter fun g => g.1 ≠ f.1).Perm l)

/-- Create and close. -/
theorem close_create (h : d.Owns l) (kind : κ) (n : ℕ) : ((d.create kind n).close (d.pick n)).Owns l :=
  owns_close (owns_create h kind n)

end

/-! ## Owners

Each of any number of owners has one descriptor at most. -/

section
variable {ι : Type*} [DecidableEq ι]

/-- The open descriptors are those of the owners, each of its own. -/
structure Descriptors.OwnedBy (d : Descriptors κ) (fd : ι → Option ℕ) : Prop where
  wf : d.Wf
  mem : ∀ n, n ∈ d.numbers ↔ ∃ i, fd i = some n
  own : ∀ i j n, fd i = some n → fd j = some n → i = j

variable {d : Descriptors κ} {fd : ι → Option ℕ} {i : ι}

/-- A new descriptor of an owner that has none. -/
theorem Descriptors.OwnedBy.create (h : d.OwnedBy fd) (hi : fd i = none) (kind : κ) (n : ℕ) :
    (d.create kind n).OwnedBy (Function.update fd i (some (d.pick n))) := by
  have hnumbers : (d.create kind n).numbers = d.numbers ++ [d.pick n] := by
    simp [Descriptors.create, Descriptors.numbers]
  have hother {j : ι} {m : ℕ} (hj : j ≠ i) : Function.update fd i (some (d.pick n)) j = some m ↔ fd j = some m := by
    rw [Function.update_of_ne hj]
  have hfresh {j : ι} (hj : fd j = some (d.pick n)) : False := pick_notMem d n ((h.mem _).mpr ⟨j, hj⟩)
  refine ⟨create_wf h.wf kind n, fun m => ?_, fun j k m hj hk => ?_⟩
  · rw [hnumbers, List.mem_append, List.mem_singleton, h.mem]
    constructor
    · rintro (⟨j, hj⟩ | rfl)
      · have hne : j ≠ i := by
          rintro rfl
          rw [hi] at hj
          cases hj
        exact ⟨j, (hother hne).mpr hj⟩
      · exact ⟨i, Function.update_self ..⟩
    · rintro ⟨j, hj⟩
      by_cases hne : j = i
      · subst hne
        rw [Function.update_self] at hj
        exact .inr (Option.some_inj.mp hj).symm
      · exact .inl ⟨j, (hother hne).mp hj⟩
  · by_cases hji : j = i <;> by_cases hki : k = i
    · exact hji.trans hki.symm
    · subst hji
      rw [Function.update_self, Option.some_inj] at hj
      subst hj
      exact (hfresh ((hother hki).mp hk)).elim
    · subst hki
      rw [Function.update_self, Option.some_inj] at hk
      subst hk
      exact (hfresh ((hother hji).mp hj)).elim
    · exact h.own j k m ((hother hji).mp hj) ((hother hki).mp hk)

/-- The owner closes its descriptor. -/
theorem Descriptors.OwnedBy.close {n : ℕ} (h : d.OwnedBy fd) (hi : fd i = some n) :
    (d.close n).OwnedBy (Function.update fd i none) := by
  have hn : n ∈ d.numbers := (h.mem n).mpr ⟨i, hi⟩
  have hnumbers (m : ℕ) : m ∈ (d.close n).numbers ↔ m ∈ d.numbers ∧ m ≠ n := by
    rw [close_eq hn]
    simp [Descriptors.numbers]
  have hother {j : ι} {m : ℕ} : Function.update fd i none j = some m ↔ fd j = some m ∧ j ≠ i := by
    by_cases hj : j = i
    · subst hj
      simp
    · simp [hj]
  refine ⟨close_wf h.wf hn, fun m => ?_, fun j k m hj hk => h.own j k m (hother.mp hj).1 (hother.mp hk).1⟩
  rw [hnumbers, h.mem]
  constructor
  · rintro ⟨⟨j, hj⟩, hne⟩
    refine ⟨j, hother.mpr ⟨hj, ?_⟩⟩
    rintro rfl
    exact hne (Option.some_inj.mp (hj.symm.trans hi))
  · rintro ⟨j, hj⟩
    obtain ⟨hj, hne⟩ := hother.mp hj
    refine ⟨⟨j, hj⟩, ?_⟩
    rintro rfl
    exact hne (h.own j i _ hj hi)

end

/-! ## Timers -/

structure TimerFd where
  armed : Bool
  /-- has expired since it was set -/
  unread : Bool
deriving DecidableEq

namespace TimerFd

/-- `timerfd_settime` for one expiry: zero disarms, a negative time is refused. -/
def settime (t : TimerFd) (seconds : ℤ) (nanoseconds : ℕ) : Bool × TimerFd :=
  if seconds < 0 then (false, t) else (true, ⟨decide (seconds ≠ 0 ∨ nanoseconds ≠ 0), false⟩)

def expire (_ : TimerFd) : TimerFd := ⟨false, true⟩

/-- Will be readable, or is. -/
def Pending (t : TimerFd) : Prop := t.armed = true ∨ t.unread = true

instance : DecidablePred Pending := fun _ => inferInstanceAs (Decidable (_ ∨ _))

/-- A negative time leaves the timer as it is. -/
theorem settime_pending_iff (t : TimerFd) (seconds : ℤ) :
    (t.settime seconds 0).2.Pending ↔ 0 < seconds ∨ seconds < 0 ∧ t.Pending := by
  unfold settime
  split
  · next h => exact ⟨fun hp => Or.inr ⟨h, hp⟩, fun hp => hp.elim (by omega) And.right⟩
  · next h =>
    unfold Pending
    simp only [ne_eq, not_true_eq_false, or_false, decide_eq_true_eq, Bool.false_eq_true]
    omega

theorem settime_pending (t : TimerFd) {seconds : ℤ} (h : 0 < seconds) : (t.settime seconds 0).2.Pending :=
  (settime_pending_iff t seconds).mpr (Or.inl h)

end TimerFd

end Monolinux
