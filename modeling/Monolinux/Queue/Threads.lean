import Mathlib.Data.Fintype.Basic
import Monolinux.Queue.Ring

/-!
# `ml_queue_put` and `ml_queue_get` called by any number of threads

A thread of type `ι` is outside the queue, in `ml_queue_put` with a message, or
in `ml_queue_get` (`Pc`).  The part of a call between taking and releasing the
mutex (or waiting, which releases it) is one step.  `pthread_cond_signal` wakes
at least one thread that waits on the condition, if there is one (`Signals`);
a thread that is woken re-checks its condition when it runs again, and may be
woken without a signal.

Every run pushes and pops as a bounded FIFO does, and no pop reads a slot that
was never written:

    (threads n hook).Run tr s →
      (fifo n).Run (queueEvents tr) s.queue.contents ∧ s.queue.Wf n      (threads_fifo)

Each call of a thread pushes its message, or pops one, exactly once before it
returns (`calls_eq`), and `n` messages fit (`fill`).
-/

namespace Monolinux

open Queue

variable {ι μ : Type*}

/-- Where a thread is in `ml_queue_put` or `ml_queue_get`. -/
inductive Pc (μ : Type*)
  | idle
  /-- about to take the mutex with this message -/
  | put (m : μ)
  /-- waits on `full_cond` -/
  | fullWait (m : μ)
  /-- woken, to take the mutex again and to re-check -/
  | fullWoken (m : μ)
  /-- has pushed and released the mutex, `on_put` not yet called -/
  | onPut
  | get
  /-- waits on `empty_cond` -/
  | emptyWait
  | emptyWoken
  deriving DecidableEq

namespace Pc

def waitsFull : Pc μ → Bool
  | fullWait _ => true
  | _ => false

def waitsEmpty : Pc μ → Bool
  | emptyWait => true
  | _ => false

def wake : Pc μ → Pc μ
  | fullWait m => fullWoken m
  | emptyWait => emptyWoken
  | p => p

/-- The message a thread is about to push in its locked section. -/
def putting : Pc μ → Option μ
  | put m | fullWoken m => some m
  | _ => none

def getting : Pc μ → Bool
  | get | emptyWoken => true
  | _ => false

/-- The message of a put call that has not pushed yet. -/
def unpushed : Pc μ → List μ
  | put m | fullWait m | fullWoken m => [m]
  | _ => []

/-- One for a get call that has not popped yet. -/
def unpopped : Pc μ → ℕ
  | get | emptyWait | emptyWoken => 1
  | _ => 0

@[simp] theorem unpushed_wake (p : Pc μ) : p.wake.unpushed = p.unpushed := by cases p <;> rfl

@[simp] theorem unpopped_wake (p : Pc μ) : p.wake.unpopped = p.unpopped := by cases p <;> rfl

theorem unpushed_of_putting {p : Pc μ} {m : μ} (h : p.putting = some m) : p.unpushed = [m] ∧ p.unpopped = 0 := by
  cases p <;> simp_all [putting, unpushed, unpopped]

theorem unpopped_of_getting {p : Pc μ} (h : p.getting = true) : p.unpushed = [] ∧ p.unpopped = 1 := by
  cases p <;> simp_all [getting, unpushed, unpopped]

end Pc

structure QueueState (ι μ : Type*) where
  queue : Queue μ
  pc : ι → Pc μ

inductive QueueLabel (ι μ : Type*)
  | callPut (t : ι) (m : μ)
  /-- `is_full` holds: waits on `full_cond` -/
  | putWaits (t : ι)
  /-- `push_message` and the signal, which wakes `woken` -/
  | push (t : ι) (m : μ) (woken : List ι)
  /-- `on_put.func` is called -/
  | onPut (t : ι)
  | callGet (t : ι)
  /-- `is_empty` holds: waits on `empty_cond` -/
  | getWaits (t : ι)
  /-- `pop_message` read `r`, and the signal, which wakes `woken` -/
  | pop (t : ι) (r : Option μ) (woken : List ι)
  /-- `t` wakes up without a signal -/
  | spurious (t : ι)

/-- `pthread_cond_signal`: `woken` wait on the condition, and one does if any thread waits. -/
def Signals (waits : Pc μ → Bool) (pc : ι → Pc μ) (woken : List ι) : Prop :=
  (∀ u ∈ woken, waits (pc u) = true) ∧ ((∃ u, waits (pc u) = true) → woken ≠ [])

variable [DecidableEq ι]

def wakeAll (pc : ι → Pc μ) (woken : List ι) : ι → Pc μ :=
  fun u => if u ∈ woken then (pc u).wake else pc u

namespace QueueState

variable (s : QueueState ι μ)

def setPc (t : ι) (p : Pc μ) : QueueState ι μ := { s with pc := Function.update s.pc t p }

/-- The rest of the locked section of `ml_queue_put` once the queue is not full. -/
def pushSection (t : ι) (m : μ) (woken : List ι) : QueueState ι μ where
  queue := s.queue.pushMessage m
  pc := Function.update (wakeAll s.pc woken) t (if s.queue.onPut then .onPut else .idle)

/-- The rest of the locked section of `ml_queue_get` once the queue is not empty. -/
def popSection (t : ι) (woken : List ι) : QueueState ι μ where
  queue := s.queue.popMessage.2
  pc := Function.update (wakeAll s.pc woken) t .idle

end QueueState

/-- The queue made by `ml_queue_init(n)`, with an `on_put` function if `hook`, and its threads. -/
def threads (n : ℕ) (hook : Bool) : System (QueueState ι μ) (QueueLabel ι μ) where
  start := ⟨if hook then mlQueueSetOnPut (mlQueueInit n) else mlQueueInit n, fun _ => .idle⟩
  enabled s
    | .callPut t _ => s.pc t = .idle
    | .putWaits t => (s.pc t).putting.isSome ∧ s.queue.isFull = true
    | .push t m woken => (s.pc t).putting = some m ∧ s.queue.isFull = false ∧ Signals Pc.waitsEmpty s.pc woken
    | .onPut t => s.pc t = .onPut
    | .callGet t => s.pc t = .idle
    | .getWaits t => (s.pc t).getting = true ∧ s.queue.isEmpty = true
    | .pop t r woken => (s.pc t).getting = true ∧ s.queue.isEmpty = false ∧ r = s.queue.popMessage.1 ∧
        Signals Pc.waitsFull s.pc woken
    | .spurious t => (s.pc t).waitsFull = true ∨ (s.pc t).waitsEmpty = true
  next s
    | .callPut t m => s.setPc t (.put m)
    | .putWaits t => match (s.pc t).putting with
      | some m => s.setPc t (.fullWait m)
      | none => s
    | .push t m woken => s.pushSection t m woken
    | .onPut t => s.setPc t .idle
    | .callGet t => s.setPc t .get
    | .getWaits t => s.setPc t .emptyWait
    | .pop t _ woken => s.popSection t woken
    | .spurious t => s.setPc t (s.pc t).wake

instance Signals.decidable [Fintype ι] (waits : Pc μ → Bool) (pc : ι → Pc μ) (woken : List ι) :
    Decidable (Signals waits pc woken) := inferInstanceAs (Decidable (_ ∧ (_ → _)))

instance threads_decidableEnabled [Fintype ι] [DecidableEq μ] (n : ℕ) (hook : Bool) (s : QueueState ι μ) :
    ∀ l : QueueLabel ι μ, Decidable ((threads n hook).enabled s l)
  | .callPut _ _ | .onPut _ | .callGet _ => inferInstanceAs (Decidable (_ = _))
  | .putWaits _ | .getWaits _ => inferInstanceAs (Decidable (_ ∧ _))
  | .push _ _ _ => inferInstanceAs (Decidable (_ ∧ _ ∧ Signals _ _ _))
  | .pop _ _ _ => inferInstanceAs (Decidable (_ ∧ _ ∧ _ ∧ Signals _ _ _))
  | .spurious _ => inferInstanceAs (Decidable (_ ∨ _))

/-! ## Every run is a run of the bounded FIFO -/

def QueueLabel.event? : QueueLabel ι μ → Option (FifoEvent μ)
  | .push _ m _ => some (.push m)
  | .pop _ (some m) _ => some (.pop m)
  | _ => none

/-- The pushes and pops of a run, in order. -/
def queueEvents (tr : List (QueueLabel ι μ)) : List (FifoEvent μ) := tr.filterMap QueueLabel.event?

variable {n : ℕ} {hook : Bool} {tr : List (QueueLabel ι μ)} {s : QueueState ι μ}

theorem threads_start_wf : (threads n hook : System (QueueState ι μ) _).start.queue.Holds n [] := by
  have h : (mlQueueInit n : Queue μ).Holds n [] := mlQueueInit_holds n
  cases hook
  · exact h
  · exact ⟨h.length, h.slots, h.ring, h.wrpos⟩

/-- The ring is left alone by every step but a push and a pop. -/
theorem next_queue_eq (l : QueueLabel ι μ) (hpush : ∀ t m w, l ≠ .push t m w) (hpop : ∀ t r w, l ≠ .pop t r w) :
    ((threads n hook).next s l).queue = s.queue := by
  cases l with
  | push t m w => exact absurd rfl (hpush t m w)
  | pop t r w => exact absurd rfl (hpop t r w)
  | putWaits t => simp only [threads]; split <;> rfl
  | _ => rfl

/-- **Refinement of the bounded FIFO.** -/
theorem threads_fifo (h : (threads n hook).Run tr s) :
    (fifo n).Run (queueEvents tr) s.queue.contents ∧ s.queue.Wf n := by
  have hstart : (threads n hook : System (QueueState ι μ) _).start.queue.Holds n [] := threads_start_wf
  have key := h.refines (A := fifo n) (fun s l => s.queue.Wf n ∧ l = s.queue.contents) QueueLabel.event?
    ⟨hstart.wf, by rw [hstart.contents_eq]; rfl⟩ ?_
  · obtain ⟨a, ha, hw, rfl⟩ := key
    exact ⟨ha, hw⟩
  · rintro _ s _ l - ⟨hw, rfl⟩ he
    cases l with
    | push t m w =>
      obtain ⟨-, hf, -⟩ := he
      exact ⟨lt_of_not_full hw hf, wf_push hw hf m, (contents_push hw hf m).symm⟩
    | pop t r w =>
      obtain ⟨-, hem, hr, -⟩ := he
      obtain ⟨m, h1, h2, h3⟩ := popMessage_head hw hem
      obtain rfl : r = some m := hr.trans h1
      refine ⟨by simp only [fifo]; rw [h2]; rfl, h3, ?_⟩
      simp only [fifo]
      rw [h2]
      rfl
    | _ =>
      simp only [QueueLabel.event?]
      rw [next_queue_eq _ (by simp) (by simp)]
      exact ⟨hw, rfl⟩

/-- No pop reads a slot that was never written. -/
theorem pop_ne_none (h : (threads n hook).Run tr s) : ∀ t w, QueueLabel.pop t none w ∉ tr := by
  induction h with
  | nil => intro t w hm; cases hm
  | snoc l hr he ih =>
    intro t w hm
    rcases List.mem_append.mp hm with hm | hm
    · exact ih t w hm
    · obtain rfl := List.mem_singleton.mp hm
      obtain ⟨-, hem, hnone, -⟩ := he
      obtain ⟨m, h1, -, -⟩ := popMessage_head (threads_fifo hr).2 hem
      rw [← hnone] at h1
      cases h1

/-! ## Each call pushes or pops once -/

namespace QueueLabel

/-- The thread that runs. -/
def thread : QueueLabel ι μ → ι
  | callPut t _ | putWaits t | push t _ _ | onPut t | callGet t | getWaits t | pop t _ _ | spurious t => t

/-- The messages `ml_queue_put` is called with. -/
def called : QueueLabel ι μ → List μ
  | callPut _ m => [m]
  | _ => []

def pushed : QueueLabel ι μ → List μ
  | push _ m _ => [m]
  | _ => []

def getCalled : QueueLabel ι μ → ℕ
  | callGet _ => 1
  | _ => 0

def popped : QueueLabel ι μ → ℕ
  | pop _ _ _ => 1
  | _ => 0

end QueueLabel

/-- The steps of `t`. -/
def stepsOf (t : ι) (tr : List (QueueLabel ι μ)) : List (QueueLabel ι μ) := tr.filter fun l => l.thread = t

theorem stepsOf_snoc (t : ι) (tr : List (QueueLabel ι μ)) (l : QueueLabel ι μ) :
    stepsOf t (tr ++ [l]) = stepsOf t tr ++ if l.thread = t then [l] else [] := by
  unfold stepsOf
  rw [List.filter_append]
  split
  · next h => simp [h]
  · next h => simp [h]

theorem wakeAll_cases (pc : ι → Pc μ) (woken : List ι) (t : ι) :
    wakeAll pc woken t = pc t ∨ wakeAll pc woken t = (pc t).wake := by
  unfold wakeAll
  split
  · exact Or.inr rfl
  · exact Or.inl rfl

/-- Another thread's step only wakes `t`. -/
theorem next_pc_ne (n : ℕ) (hook : Bool) (s : QueueState ι μ) (l : QueueLabel ι μ) (t : ι) (ht : l.thread ≠ t) :
    ((threads n hook).next s l).pc t = s.pc t ∨ ((threads n hook).next s l).pc t = (s.pc t).wake := by
  cases l with
  | push u m w =>
    have hne : t ≠ u := Ne.symm ht
    simp only [threads, QueueState.pushSection]
    rw [Function.update_of_ne hne]
    exact wakeAll_cases s.pc w t
  | pop u r w =>
    have hne : t ≠ u := Ne.symm ht
    simp only [threads, QueueState.popSection]
    rw [Function.update_of_ne hne]
    exact wakeAll_cases s.pc w t
  | putWaits u =>
    left
    simp only [threads]
    split
    · exact Function.update_of_ne (Ne.symm ht) _ _
    · rfl
  | _ => exact Or.inl (Function.update_of_ne (Ne.symm ht) _ _)

/-- The message of a put call and the open end of a get call before and after a step of its thread. -/
theorem next_pc_self (l : QueueLabel ι μ) (he : (threads n hook).enabled s l) :
    (s.pc l.thread).unpushed ++ l.called =
      l.pushed ++ (((threads n hook).next s l).pc l.thread).unpushed ∧
    (s.pc l.thread).unpopped + l.getCalled =
      l.popped + (((threads n hook).next s l).pc l.thread).unpopped := by
  cases l with
  | callPut t m =>
    have ht : s.pc t = .idle := he
    simp only [threads, QueueState.setPc, QueueLabel.thread, Function.update_self, ht]
    exact ⟨rfl, rfl⟩
  | putWaits t =>
    obtain ⟨m, hm⟩ := Option.isSome_iff_exists.mp he.1
    obtain ⟨h1, h2⟩ := Pc.unpushed_of_putting hm
    simp only [threads, QueueState.setPc, QueueLabel.thread, hm, Function.update_self, h1, h2]
    exact ⟨rfl, rfl⟩
  | push t m w =>
    obtain ⟨h1, h2⟩ := Pc.unpushed_of_putting he.1
    simp only [threads, QueueState.pushSection, QueueLabel.thread, Function.update_self, h1, h2]
    split <;> exact ⟨rfl, rfl⟩
  | onPut t =>
    have ht : s.pc t = .onPut := he
    simp only [threads, QueueState.setPc, QueueLabel.thread, Function.update_self, ht]
    exact ⟨rfl, rfl⟩
  | callGet t =>
    have ht : s.pc t = .idle := he
    simp only [threads, QueueState.setPc, QueueLabel.thread, Function.update_self, ht]
    exact ⟨rfl, rfl⟩
  | getWaits t =>
    obtain ⟨h1, h2⟩ := Pc.unpopped_of_getting he.1
    simp only [threads, QueueState.setPc, QueueLabel.thread, Function.update_self, h1, h2]
    exact ⟨rfl, rfl⟩
  | pop t r w =>
    obtain ⟨h1, h2⟩ := Pc.unpopped_of_getting he.1
    simp only [threads, QueueState.popSection, QueueLabel.thread, Function.update_self, h1, h2]
    exact ⟨rfl, rfl⟩
  | spurious t =>
    simp only [threads, QueueState.setPc, QueueLabel.thread, Function.update_self, Pc.unpushed_wake,
      Pc.unpopped_wake]
    exact ⟨by simp [QueueLabel.called, QueueLabel.pushed], by simp [QueueLabel.getCalled, QueueLabel.popped]⟩

/-- **Each `ml_queue_put` call pushes its message once, each `ml_queue_get` call pops once**, in
the order of the thread's calls; the last call of a thread may still be under way. -/
theorem calls_eq (h : (threads n hook).Run tr s) (t : ι) :
    (stepsOf t tr).flatMap QueueLabel.called = (stepsOf t tr).flatMap QueueLabel.pushed ++ (s.pc t).unpushed ∧
    ((stepsOf t tr).map QueueLabel.getCalled).sum =
      ((stepsOf t tr).map QueueLabel.popped).sum + (s.pc t).unpopped := by
  induction h with
  | nil => exact ⟨rfl, rfl⟩
  | @snoc tr s l _ he ih =>
    obtain ⟨ih1, ih2⟩ := ih
    rw [stepsOf_snoc]
    by_cases ht : l.thread = t
    · subst ht
      obtain ⟨h1, h2⟩ := next_pc_self l he
      rw [if_pos rfl]
      constructor
      · rw [List.flatMap_append, List.flatMap_append, List.flatMap_singleton, List.flatMap_singleton, ih1,
          List.append_assoc, h1, List.append_assoc]
      · rw [List.map_append, List.map_append, List.sum_append, List.sum_append, ih2, List.map_singleton,
          List.map_singleton, List.sum_singleton, List.sum_singleton]
        omega
    · rw [if_neg ht, List.append_nil, ih1, ih2]
      rcases next_pc_ne n hook s l t ht with h | h
      · rw [h]
        exact ⟨rfl, rfl⟩
      · rw [h, Pc.unpushed_wake, Pc.unpopped_wake]
        exact ⟨rfl, rfl⟩

/-! ## The capacity is reached -/

/-- One call of `ml_queue_put` that finds the queue not full and no thread in it. -/
theorem put_path (n : ℕ) (hook : Bool) (t : ι) (m : μ) (hidle : ∀ u, s.pc u = .idle)
    (hf : s.queue.isFull = false) :
    ∃ tr s', (threads n hook).Path s tr s' ∧ s'.queue = s.queue.pushMessage m ∧ ∀ u, s'.pc u = .idle := by
  let s₁ := s.setPc t (.put m)
  let s₂ := s₁.pushSection t m []
  have h1 : (threads n hook).enabled s (.callPut t m) := hidle t
  have h2 : (threads n hook).enabled s₁ (.push t m []) := by
    refine ⟨by simp [s₁, QueueState.setPc, Pc.putting], hf, by simp, ?_⟩
    rintro ⟨u, hu⟩
    by_cases hut : u = t
    · subst hut
      simp [s₁, QueueState.setPc, Pc.waitsEmpty] at hu
    · simp [s₁, QueueState.setPc, hut, hidle, Pc.waitsEmpty] at hu
  have hother : ∀ u, u ≠ t → s₂.pc u = .idle := by
    intro u hu
    simp [s₂, s₁, QueueState.pushSection, QueueState.setPc, wakeAll, hu, hidle]
  by_cases hook' : s.queue.onPut = true
  · refine ⟨[.callPut t m, .push t m [], .onPut t], s₂.setPc t .idle, .cons _ h1 (.cons _ h2 (.cons _ ?_ (.nil _))),
      rfl, ?_⟩
    · show s₂.pc t = .onPut
      simp [s₂, s₁, QueueState.pushSection, QueueState.setPc, hook']
    · intro u
      by_cases hut : u = t
      · simp [hut, QueueState.setPc]
      · simp only [QueueState.setPc, Function.update_of_ne hut]
        exact hother u hut
  · refine ⟨[.callPut t m, .push t m []], s₂, .cons _ h1 (.cons _ h2 (.nil _)), rfl, ?_⟩
    intro u
    by_cases hut : u = t
    · simp [hut, s₂, s₁, QueueState.pushSection, QueueState.setPc, hook']
    · exact hother u hut

/-- **Any `n` messages fit** into the queue at once. -/
theorem fill (t : ι) (ms : List μ) (hms : ms.length ≤ n) :
    ∃ tr, ∃ s : QueueState ι μ, (threads n hook).Run tr s ∧ s.queue.contents = ms ∧ ∀ u, s.pc u = .idle := by
  induction ms using List.reverseRecOn with
  | nil =>
    have hstart : (threads n hook : System (QueueState ι μ) _).start.queue.Holds n [] := threads_start_wf
    exact ⟨[], (threads n hook).start, .nil, hstart.contents_eq, fun _ => rfl⟩
  | append_singleton ms m ih =>
    rw [List.length_append, List.length_singleton] at hms
    obtain ⟨tr, s, hr, hc, hidle⟩ := ih (by omega)
    have hw := (threads_fifo hr).2
    have hf : s.queue.isFull = false := by
      rw [Bool.eq_false_iff, ne_eq, isFull_iff hw, hc]
      omega
    obtain ⟨tr', s', hp, hq, hidle'⟩ := put_path n hook t m hidle hf
    exact ⟨tr ++ tr', s', hr.append hp, by rw [hq, contents_push hw hf, hc], hidle'⟩

end Monolinux
