import Mathlib.Algebra.Order.Field.Rat
import Mathlib.Data.List.Basic
import Mathlib.Tactic.Linarith
import Mathlib.Tactic.Push
import Mathlib.Tactic.Ring

/-!
# Events with the times they happen

The events of a trace happen in order, and those that are beats of a clock come at least
a period apart.

  the time that a number of beats takes         (`InTime.span`)
  a trace can go on with beats of a clock       (`InTime.metronome`)
-/

namespace Monolinux

variable {α : Type*} {beat : α → Bool} {period : ℚ}

/-- In order, with the beats at least `period` apart. -/
def InTime (beat : α → Bool) (period : ℚ) (tr : List (ℚ × α)) : Prop :=
  tr.Pairwise fun a b => a.1 ≤ b.1 ∧ (beat a.2 = true → beat b.2 = true → a.1 + period ≤ b.1)

instance (tr : List (ℚ × α)) : Decidable (InTime beat period tr) :=
  inferInstanceAs (Decidable (List.Pairwise _ tr))

/-- The events of a trace. -/
def events (tr : List (ℚ × α)) : List α := tr.map Prod.snd

/-- The time from an event to a beat that follows it. -/
theorem InTime.span {a b : ℚ × α} {tr : List (ℚ × α)}
    (h : InTime beat period (a :: (tr ++ [b]))) (hb : beat b.2 = true) :
    a.1 + period * (events (a :: tr)).countP beat ≤ b.1 := by
  induction tr generalizing a with
  | nil =>
    obtain ⟨hle, hbeat⟩ := (List.pairwise_cons.mp h).1 b List.mem_cons_self
    show a.1 + period * ([a.2].countP beat : ℕ) ≤ b.1
    by_cases ha : beat a.2 = true
    · rw [List.countP_cons_of_pos ha, List.countP_nil]
      have := hbeat ha hb
      push_cast
      linarith
    · rw [List.countP_cons_of_neg ha, List.countP_nil]
      push_cast
      linarith
  | cons c tr ih =>
    obtain ⟨ha, hc⟩ := List.pairwise_cons.mp h
    obtain ⟨hle, hbeat⟩ := ha c List.mem_cons_self
    show a.1 + period * ((a.2 :: c.2 :: events tr).countP beat : ℕ) ≤ b.1
    by_cases hcb : beat c.2 = true
    · -- from `c` on
      have hrest : c.1 + period * ((c.2 :: events tr).countP beat : ℕ) ≤ b.1 := ih hc
      by_cases hab : beat a.2 = true
      · rw [List.countP_cons_of_pos hab]
        have := hbeat hab hcb
        push_cast
        linarith
      · rw [List.countP_cons_of_neg hab]
        linarith
    · -- `c` is no beat, and can be left out
      have hout : InTime beat period (a :: (tr ++ [b])) :=
        List.pairwise_cons.mpr ⟨fun d hd => ha d (List.mem_cons_of_mem c hd), (List.pairwise_cons.mp hc).2⟩
      have hrest : a.1 + period * ((a.2 :: events tr).countP beat : ℕ) ≤ b.1 := ih hout
      have hcount : (a.2 :: c.2 :: events tr).countP beat = (a.2 :: events tr).countP beat := by
        rw [List.countP_cons, List.countP_cons_of_neg hcb, ← List.countP_cons]
      rw [hcount]
      exact hrest

/-- `n` times the event `e`, one `period` after the other from `start` on. -/
def metronome (period start : ℚ) (e : α) : ℕ → List (ℚ × α)
  | 0 => []
  | n + 1 => metronome period start e n ++ [(start + period * (n + 1), e)]

theorem events_metronome (period start : ℚ) (e : α) (n : ℕ) :
    events (metronome period start e n) = List.replicate n e := by
  induction n with
  | zero => rfl
  | succ n ih =>
    unfold events at ih ⊢
    rw [metronome, List.map_append, ih, List.replicate_succ']
    rfl

/-- **A clock can go on** after a trace that has come to the time `start`. -/
theorem InTime.metronome (hperiod : 0 ≤ period) {tr : List (ℚ × α)} {start : ℚ} (h : InTime beat period tr)
    (hstart : ∀ a ∈ tr, a.1 ≤ start) (e : α) (n : ℕ) :
    InTime beat period (tr ++ Monolinux.metronome period start e n) ∧
      ∀ a ∈ tr ++ Monolinux.metronome period start e n, a.1 ≤ start + period * n := by
  induction n with
  | zero =>
    have hzero : tr ++ Monolinux.metronome period start e 0 = tr := List.append_nil tr
    rw [hzero]
    refine ⟨h, fun a ha => ?_⟩
    have := hstart a ha
    push_cast
    linarith
  | succ n ih =>
    obtain ⟨hin, hle⟩ := ih
    have hsucc : tr ++ Monolinux.metronome period start e (n + 1) =
        (tr ++ Monolinux.metronome period start e n) ++ [(start + period * (n + 1), e)] :=
      (List.append_assoc _ _ _).symm
    rw [hsucc]
    constructor
    · refine List.pairwise_append.mpr ⟨hin, List.pairwise_singleton _ _, ?_⟩
      intro a ha b hb
      rw [List.mem_singleton.mp hb]
      have := hle a ha
      exact ⟨by linarith, fun _ _ => by linarith⟩
    · intro a ha
      push_cast
      rcases List.mem_append.mp ha with ha | ha
      · have := hle a ha
        linarith
      · rw [List.mem_singleton.mp ha]

end Monolinux
