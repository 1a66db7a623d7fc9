import Mathlib.Logic.Function.Basic
import Mathlib.Data.List.Induction

/-!
# Runs of a labelled system

A `System` is a start state, a condition under which a label can be taken, and
the state the label leads to; every choice of the environment or of the
scheduler is part of the label.  `M.Run tr s`: the labels `tr` can be taken in
order from the start, and lead to `s`.

* `Run.invariant`, `Run.invariantOn`: an invariant of the state (or of the
  trace and the state) is shown step by step.
* `restrict C`: the runs whose every step meets `C`.
* `Run.refines`: a simulation carries every run to a run of an abstract
  system; labels without an abstract event are stuttering steps.
-/

namespace Monolinux

structure System (σ ℓ : Type*) where
  start : σ
  enabled : σ → ℓ → Prop
  next : σ → ℓ → σ

namespace System

variable {σ ℓ α ε : Type*}

inductive Run (M : System σ ℓ) : List ℓ → σ → Prop
  | nil : Run M [] M.start
  | snoc {tr : List ℓ} {s : σ} (l : ℓ) : Run M tr s → M.enabled s l → Run M (tr ++ [l]) (M.next s l)

/-- The labels in `tr` can be taken from `s` on and lead to `s'`. -/
inductive Path (M : System σ ℓ) : σ → List ℓ → σ → Prop
  | nil (s : σ) : Path M s [] s
  | cons {s s' : σ} {tr : List ℓ} (l : ℓ) : M.enabled s l → Path M (M.next s l) tr s' → Path M s (l :: tr) s'

/-- The steps of `M` that meet `C`. -/
def restrict (M : System σ ℓ) (C : σ → ℓ → Prop) : System σ ℓ where
  start := M.start
  enabled s l := M.enabled s l ∧ C s l
  next := M.next

variable {M : System σ ℓ}

/-- **Invariants of the trace and the state.** -/
theorem Run.invariantOn (I : List ℓ → σ → Prop) (h0 : I [] M.start)
    (hstep : ∀ tr s l, M.Run tr s → I tr s → M.enabled s l → I (tr ++ [l]) (M.next s l))
    {tr : List ℓ} {s : σ} (h : M.Run tr s) : I tr s := by
  induction h with
  | nil => exact h0
  | snoc l hr he ih => exact hstep _ _ l hr ih he

/-- **Invariants of the state.** -/
theorem Run.invariant (I : σ → Prop) (h0 : I M.start)
    (hstep : ∀ s l, I s → M.enabled s l → I (M.next s l)) {tr : List ℓ} {s : σ} (h : M.Run tr s) : I s :=
  h.invariantOn (fun _ s => I s) h0 fun _ s l _ hi he => hstep s l hi he

theorem Run.append {tr tr' : List ℓ} {s s' : σ} (h : M.Run tr s) (p : M.Path s tr' s') :
    M.Run (tr ++ tr') s' := by
  induction p generalizing tr with
  | nil s => rw [List.append_nil]; exact h
  | cons l he _ ih =>
    have := ih (h.snoc l he)
    rwa [List.append_assoc, List.singleton_append] at this

theorem Path.trans {tr tr' : List ℓ} {s s' s'' : σ} (p : M.Path s tr s') (p' : M.Path s' tr' s'') :
    M.Path s (tr ++ tr') s'' := by
  induction p with
  | nil s => exact p'
  | cons l he _ ih => exact .cons l he (ih p')

theorem Path.run {tr : List ℓ} {s : σ} (p : M.Path M.start tr s) : M.Run tr s := by
  have := Run.nil.append p
  rwa [List.nil_append] at this

/-- The labels in `tr` can be taken from `s` on. -/
def runs (M : System σ ℓ) [∀ s l, Decidable (M.enabled s l)] (s : σ) : List ℓ → Bool
  | [] => true
  | l :: tr => decide (M.enabled s l) && M.runs (M.next s l) tr

theorem path_of_runs [∀ s l, Decidable (M.enabled s l)] {s : σ} {tr : List ℓ} (h : M.runs s tr = true) :
    M.Path s tr (tr.foldl M.next s) := by
  induction tr generalizing s with
  | nil => exact .nil s
  | cons l tr ih =>
    obtain ⟨hl, htr⟩ := (Bool.and_eq_true _ _).mp h
    exact .cons l (of_decide_eq_true hl) (ih htr)

instance (M : System σ ℓ) (C : σ → ℓ → Prop) [∀ s l, Decidable (M.enabled s l)] [∀ s l, Decidable (C s l)] (s : σ)
    (l : ℓ) : Decidable ((M.restrict C).enabled s l) := inferInstanceAs (Decidable (_ ∧ _))

/-- A run that ends with the label `l` got there by a run without it. -/
theorem Run.last {tr : List ℓ} {l : ℓ} {s : σ} (h : M.Run (tr ++ [l]) s) :
    ∃ s₀, M.Run tr s₀ ∧ M.enabled s₀ l ∧ s = M.next s₀ l := by
  generalize he : tr ++ [l] = tr' at h
  cases h with
  | nil => simp at he
  | snoc l' hr hen =>
    obtain ⟨rfl, hl⟩ := List.append_inj' he rfl
    obtain rfl := List.singleton_inj.mp hl
    exact ⟨_, hr, hen, rfl⟩

/-- Every prefix of a run is a run. -/
theorem Run.take {tr tr' : List ℓ} {s : σ} (h : M.Run (tr ++ tr') s) : ∃ s₀, M.Run tr s₀ := by
  induction tr' using List.reverseRecOn generalizing s with
  | nil => exact ⟨s, by rwa [List.append_nil] at h⟩
  | append_singleton tr' l ih =>
    rw [← List.append_assoc] at h
    obtain ⟨s₁, h₁, -, -⟩ := h.last
    exact ih h₁

/-- The state of a run is determined by its labels. -/
theorem Run.eq_foldl {tr : List ℓ} {s : σ} (h : M.Run tr s) : s = tr.foldl M.next M.start := by
  induction h with
  | nil => rfl
  | snoc l _ _ ih => rw [List.foldl_append, ← ih]; rfl

theorem Run.of_restrict {C : σ → ℓ → Prop} {tr : List ℓ} {s : σ} (h : (M.restrict C).Run tr s) : M.Run tr s := by
  induction h with
  | nil => exact .nil
  | snoc l _ he ih => exact ih.snoc l he.1

/-- **Refinement.**  `R` relates concrete to abstract states, `ev` gives the
abstract event of a label, if it has one. -/
theorem Run.refines {A : System α ε} (R : σ → α → Prop) (ev : ℓ → Option ε) (h0 : R M.start A.start)
    (hstep : ∀ tr s a l, M.Run tr s → R s a → M.enabled s l →
      match ev l with
      | none => R (M.next s l) a
      | some e => A.enabled a e ∧ R (M.next s l) (A.next a e))
    {tr : List ℓ} {s : σ} (h : M.Run tr s) : ∃ a, A.Run (tr.filterMap ev) a ∧ R s a := by
  induction h with
  | nil => exact ⟨A.start, .nil, h0⟩
  | snoc l hr he ih =>
    obtain ⟨a, ha, hR⟩ := ih
    have hs := hstep _ _ a l hr hR he
    rw [List.filterMap_append]
    cases hl : ev l with
    | none =>
      rw [hl] at hs
      exact ⟨a, by simpa [hl] using ha, hs⟩
    | some e =>
      rw [hl] at hs
      exact ⟨A.next a e, by simpa [hl] using ha.snoc e hs.1, hs.2⟩

end System

end Monolinux
