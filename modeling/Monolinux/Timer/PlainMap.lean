import Monolinux.Timer.Spec

/-!
# The timer list refines a plain map

`PlainTimers` says what a timer handler is for: a map from timers to the ticks they
have left.  Any number of starts, stops and ticks, in any order, leaves the list of
the code in step with the map:

  one operation      (`exec_refines`)
  any sequence       (`execAll_refines`)
  every operation after every sequence, with the timers it fires
                     (`timer_list_refines_map`)
-/

namespace Monolinux

open DeltaList hiding insert remove

variable {τ : Type*} [DecidableEq τ]

inductive TimerOp (τ : Type*)
  | start (t : τ) (initial rep : UInt32)
  | stop (t : τ)
  | tick

namespace TimerHandler

/-- The timers that fire, and the handler afterwards. -/
def exec (h : TimerHandler τ) : TimerOp τ → Option (List τ × TimerHandler τ)
  | .start t initial rep => (h.mlTimerHandlerTimerStart t initial rep).map fun h' => ([], h')
  | .stop t => some ([], h.mlTimerHandlerTimerStop t)
  | .tick => h.tick

def execAll (h : TimerHandler τ) : List (TimerOp τ) → Option (TimerHandler τ)
  | [] => some h
  | op :: ops => (h.exec op).bind fun r => execAll r.2 ops

end TimerHandler

/-! ## The plain map -/

structure PlainTimers (τ : Type*) where
  /-- ticks left, if active -/
  remaining : τ → Option ℕ
  /-- zero: one-shot -/
  repeatTicks : τ → ℕ

namespace PlainTimers

def empty : PlainTimers τ := ⟨fun _ => none, fun _ => 0⟩

/-- After a tick that left `t` no time, a periodic timer starts over. -/
def elapse (p : PlainTimers τ) (t : τ) : Option ℕ → Option ℕ
  | some 0 => if 0 < p.repeatTicks t then some (p.repeatTicks t) else none
  | r => r

def step (p : PlainTimers τ) : TimerOp τ → PlainTimers τ
  | .start t initial rep =>
    ⟨Function.update p.remaining t (some (ticks initial + 1)), Function.update p.repeatTicks t (ticks rep)⟩
  | .stop t => { p with remaining := Function.update p.remaining t none }
  | .tick => { p with remaining := fun t => p.elapse t ((p.remaining t).map (· - 1)) }

/-- A tick takes the last tick that `t` has left. -/
def Fires (p : PlainTimers τ) (op : TimerOp τ) (t : τ) : Prop :=
  op = .tick ∧ (p.remaining t).map (· - 1) = some 0

def steps (p : PlainTimers τ) (ops : List (TimerOp τ)) : PlainTimers τ := ops.foldl step p

end PlainTimers

/-! ## The refinement -/

/-- The list of `h` stands for the map `p`. -/
structure TimerHandler.Refines (h : TimerHandler τ) (p : PlainTimers τ) : Prop where
  nodup : h.list.Nodup
  head : ∀ e rest, h.list = e :: rest → 1 ≤ (h.timer e).delta
  tail : h.tailDelta = 0xffffffff
  /-- no delta has wrapped -/
  delta_le : ∀ t ∈ h.list, (h.timer t).delta.toNat ≤ maxTicks
  remaining : ∀ t, h.remaining t = p.remaining t
  repeatTicks : ∀ t ∈ h.list, (h.timer t).repeatTicks.toNat = p.repeatTicks t

theorem TimerHandler.Ready.refines {h : TimerHandler τ} {p : PlainTimers τ} (hr : h.Ready)
    (hrem : ∀ t, h.remaining t = p.remaining t)
    (hrep : ∀ t ∈ h.list, (h.timer t).repeatTicks.toNat = p.repeatTicks t) : h.Refines p where
  nodup := hr.nodup
  head := headPos_iff.mp hr.head_pos
  tail := hr.tail
  delta_le t ht := by
    have hmem : (t, (h.timer t).delta.toNat) ∈ h.deltas := List.mem_map_of_mem ht
    have hn : (keys h.deltas).Nodup := by rw [keys_deltas]; exact hr.nodup
    obtain ⟨r, hdue, hle⟩ := le_due hn hmem
    exact Nat.le_trans hle (hr.due_le t r hdue)
  remaining := hrem
  repeatTicks := hrep

section
variable {h h' : TimerHandler τ} {p : PlainTimers τ}

/-- An operation on `t` puts no other timer on the list. -/
theorem mem_of_remaining_update {t u : τ} {r : Option ℕ} (hrem : h'.remaining = Function.update h.remaining t r)
    (hut : u ≠ t) (hu : u ∈ h'.list) : u ∈ h.list := by
  obtain ⟨r', hr'⟩ := mem_list_iff.mp hu
  rw [hrem, Function.update_of_ne hut] at hr'
  exact mem_list_iff.mpr ⟨r', hr'⟩

/-- An operation on `t` that does the same to the list as to the map. -/
theorem remaining_update_eq (href : h.Refines p) {t : τ} {r : Option ℕ}
    (hrem : h'.remaining = Function.update h.remaining t r) (u : τ) :
    h'.remaining u = Function.update p.remaining t r u := by
  rw [hrem, funext href.remaining]

theorem start_refines (hready : h.Ready) (href : h.Refines p) (t : τ) (initial rep : UInt32) :
    ∃ h', h.mlTimerHandlerTimerStart t initial rep = some h' ∧ h'.Ready ∧ h'.Refines (p.step (.start t initial rep)) := by
  obtain ⟨h', h1, hready', hself, hother, hrem⟩ := mlTimerHandlerTimerStart_spec hready t initial rep
  refine ⟨h', h1, hready', hready'.refines (remaining_update_eq href hrem) (fun u hu => ?_)⟩
  by_cases hut : u = t
  · subst hut
    rw [hself]
    exact (Function.update_self u (ticks rep) p.repeatTicks).symm
  · rw [hother u hut, href.repeatTicks u (mem_of_remaining_update hrem hut hu)]
    exact (Function.update_of_ne hut (ticks rep) p.repeatTicks).symm

theorem stop_refines (hready : h.Ready) (href : h.Refines p) (t : τ) :
    (h.mlTimerHandlerTimerStop t).Ready ∧ (h.mlTimerHandlerTimerStop t).Refines (p.step (.stop t)) := by
  obtain ⟨hready', hrep, hrem⟩ := mlTimerHandlerTimerStop_remaining hready t
  refine ⟨hready', hready'.refines (remaining_update_eq href hrem) (fun u hu => ?_)⟩
  have hut : u ≠ t := by
    rintro rfl
    exact not_mem_stop hready.toOk u hu
  rw [hrep u]
  exact href.repeatTicks u (mem_of_remaining_update hrem hut hu)

theorem tick_refines (hready : h.Ready) (href : h.Refines p) :
    ∃ fs h', h.tick = some (fs, h') ∧ h'.Ready ∧ h'.Refines (p.step .tick) ∧ fs.Nodup ∧
      ∀ t, t ∈ fs ↔ p.Fires .tick t := by
  obtain ⟨fs, h', h1, hready', hnodup, hmem, hrem, hrep⟩ := tick_spec hready
  have hone := hready.map_pred_eq_zero
  have hrem' : ∀ t, h'.remaining t = p.elapse t ((p.remaining t).map (· - 1)) := by
    intro t
    rw [hrem t, ← href.remaining t]
    by_cases h0 : h.remaining t = some 1
    · have hlist : t ∈ h.list := mem_list_iff.mpr ⟨1, h0⟩
      rw [if_pos h0, h0]
      show _ = if 0 < p.repeatTicks t then some (p.repeatTicks t) else none
      rw [← href.repeatTicks t hlist]
      rfl
    · rw [if_neg h0]
      have hne := mt (hone t).mp h0
      unfold PlainTimers.elapse
      split
      · next h => exact absurd h hne
      · rfl
  refine ⟨fs, h', h1, hready', hready'.refines hrem' (fun t ht => ?_), hnodup, fun t => ?_⟩
  · -- a timer that is on the list after the tick was on it before
    have ht' : t ∈ h.list := by
      obtain ⟨r, hr⟩ := mem_list_iff.mp ht
      rw [hrem t] at hr
      by_cases h0 : h.remaining t = some 1
      · exact mem_list_iff.mpr ⟨1, h0⟩
      · rw [if_neg h0] at hr
        obtain ⟨r', hr', -⟩ := Option.map_eq_some_iff.mp hr
        exact mem_list_iff.mpr ⟨r', hr'⟩
    rw [hrep t]
    exact href.repeatTicks t ht'
  · unfold PlainTimers.Fires
    rw [hmem t, ← hone t, href.remaining t]
    simp

/-- **One operation**: the code gets through it, the map keeps in step, and the timers that fire
are those that run out of ticks. -/
theorem exec_refines (hready : h.Ready) (href : h.Refines p) (op : TimerOp τ) :
    ∃ fs h', h.exec op = some (fs, h') ∧ h'.Ready ∧ h'.Refines (p.step op) ∧ fs.Nodup ∧
      ∀ t, t ∈ fs ↔ p.Fires op t := by
  -- only ticks fire timers
  have hnone {op : TimerOp τ} (hop : op ≠ .tick) (u : τ) : u ∈ ([] : List τ) ↔ p.Fires op u :=
    iff_of_false List.not_mem_nil fun hf => hop hf.1
  cases op with
  | start t initial rep =>
    obtain ⟨h', h1, hready', href'⟩ := start_refines hready href t initial rep
    exact ⟨[], h', by simp [TimerHandler.exec, h1], hready', href', List.nodup_nil, hnone nofun⟩
  | stop t =>
    obtain ⟨hready', href'⟩ := stop_refines hready href t
    exact ⟨[], h.mlTimerHandlerTimerStop t, rfl, hready', href', List.nodup_nil, hnone nofun⟩
  | tick => exact tick_refines hready href

end

theorem execAll_refines {h : TimerHandler τ} {p : PlainTimers τ} (hready : h.Ready) (href : h.Refines p)
    (ops : List (TimerOp τ)) : ∃ h', h.execAll ops = some h' ∧ h'.Ready ∧ h'.Refines (p.steps ops) := by
  induction ops generalizing h p with
  | nil => exact ⟨h, rfl, hready, href⟩
  | cons op ops ih =>
    obtain ⟨fs, h₁, h1, hready₁, href₁, -, -⟩ := exec_refines hready href op
    obtain ⟨h', h2, hready', href'⟩ := ih hready₁ href₁
    exact ⟨h', by rw [TimerHandler.execAll, h1]; exact h2, hready', href'⟩

/-- **The timer list refines a plain map.**  Whatever starts, stops and ticks went before, the next
operation finds and leaves the list in step with the map, and fires exactly the timers whose last
tick it takes, each once. -/
theorem timer_list_refines_map (mem : τ → Timer) (ops : List (TimerOp τ)) (op : TimerOp τ) :
    ∃ h fs h', (TimerHandler.mlTimerHandlerInit mem).execAll ops = some h ∧ h.exec op = some (fs, h') ∧
      h.Refines (PlainTimers.empty.steps ops) ∧ h'.Refines ((PlainTimers.empty.steps ops).step op) ∧
      fs.Nodup ∧ ∀ t, t ∈ fs ↔ (PlainTimers.empty.steps ops).Fires op t := by
  have hready := mlTimerHandlerInit_ready mem
  have href : (TimerHandler.mlTimerHandlerInit mem).Refines PlainTimers.empty :=
    hready.refines (fun _ => rfl) (fun _ ht => absurd ht List.not_mem_nil)
  obtain ⟨h, h1, hready₁, href₁⟩ := execAll_refines hready href ops
  obtain ⟨fs, h', h2, -, href', hnodup, hmem⟩ := exec_refines hready₁ href₁ op
  exact ⟨h, fs, h', h1, h2, href₁, href', hnodup, hmem⟩

end Monolinux
