import Monolinux.Lib.Wakeup
import Monolinux.Queue.Threads

/-!
# No lost wake-ups

A thread that waits on a condition may have to wait on although the queue has got room,
or a message, but only if another thread has been woken for it and has yet to run.  For
both conditions at least as many threads are woken as could go on, if any thread waits
(`full_covered`, `empty_covered`):

  no thread waits with nothing pending                        (`no_lost_wakeup`)
-/

namespace Monolinux

open Queue

variable {ι μ : Type*}

namespace Pc

/-- Woken from `full_cond`, and yet to take the mutex. -/
def wokenFull : Pc μ → Bool
  | fullWoken _ => true
  | _ => false

def wokenEmpty : Pc μ → Bool
  | emptyWoken => true
  | _ => false

end Pc

/-- A condition variable, by the threads that wait on it and those that are woken. -/
structure Condition (waits woken : Pc μ → Bool) : Prop where
  waits_of_wake : ∀ p, waits p.wake = true → waits p = true
  woken_wake : ∀ p, woken p = true → woken p.wake = true
  wake : ∀ p, waits p = true → woken p = false ∧ woken p.wake = true

theorem fullCond : Condition (μ := μ) Pc.waitsFull Pc.wokenFull where
  waits_of_wake p h := by cases p <;> first | exact h | cases h
  woken_wake p h := by cases p <;> first | exact h | cases h
  wake p h := by cases p <;> first | exact ⟨rfl, rfl⟩ | cases h

theorem emptyCond : Condition (μ := μ) Pc.waitsEmpty Pc.wokenEmpty where
  waits_of_wake p h := by cases p <;> first | exact h | cases h
  woken_wake p h := by cases p <;> first | exact h | cases h
  wake p h := by cases p <;> first | exact ⟨rfl, rfl⟩ | cases h

/-- If a thread waits, as many are woken as `free` says. -/
def Covers (waits woken : Pc μ → Bool) (pc : ι → Pc μ) (free : ℕ) : Prop :=
  Covered (fun t => waits (pc t) = true) (fun t => woken (pc t) = true) free

/-! ## The steps of a thread -/

section
variable {waits woken : Pc μ → Bool} {pc pc' : ι → Pc μ} {free : ℕ} {t : ι}

/-- The thread `t` makes a step, which may wake others. -/
def StepOf (t : ι) (pc pc' : ι → Pc μ) : Prop := ∀ u, u ≠ t → pc' u = pc u ∨ pc' u = (pc u).wake

theorem Condition.waits_step (c : Condition waits woken) (h : StepOf t pc pc')
    (hself : waits (pc' t) = true → waits (pc t) = true) (u : ι) (hu : waits (pc' u) = true) : waits (pc u) = true := by
  by_cases hut : u = t
  · subst hut
    exact hself hu
  · rcases h u hut with hpc | hpc
    · rwa [hpc] at hu
    · rw [hpc] at hu
      exact c.waits_of_wake _ hu

theorem Condition.woken_step (c : Condition waits woken) (h : StepOf t pc pc') {u : ι} (hut : u ≠ t)
    (hu : woken (pc u) = true) : woken (pc' u) = true := by
  rcases h u hut with hpc | hpc
  · rwa [hpc]
  · rw [hpc]
    exact c.woken_wake _ hu

/-- The thread neither starts to wait on the condition nor uses up a wake-up. -/
theorem Condition.mono (c : Condition waits woken) (h : StepOf t pc pc')
    (hwaits : waits (pc' t) = true → waits (pc t) = true) (hwoken : woken (pc t) = true → woken (pc' t) = true)
    (hc : Covers waits woken pc free) : Covers waits woken pc' free := by
  refine Covered.mono hc (c.waits_step h hwaits) (fun u hu => ?_) le_rfl
  by_cases hut : u = t
  · subst hut
    exact hwoken hu
  · exact c.woken_step h hut hu

variable [DecidableEq ι]

/-- The thread takes a place. -/
theorem Condition.take (c : Condition waits woken) (h : StepOf t pc pc')
    (hwaits : waits (pc' t) = true → waits (pc t) = true) (hc : Covers waits woken pc free) :
    Covers waits woken pc' (free - 1) :=
  Covered.take hc t (c.waits_step h hwaits) fun _ hut hu => c.woken_step h hut hu

/-- The thread frees a place, and signals. -/
theorem Condition.give (c : Condition waits woken) {signalled : List ι} (hs : Signals waits pc signalled)
    (hpc : ∀ u, u ≠ t → pc' u = wakeAll pc signalled u) (hwaits : waits (pc' t) = true → waits (pc t) = true)
    (hself : waits (pc t) = false ∧ woken (pc t) = false) (hc : Covers waits woken pc free) :
    Covers waits woken pc' (free + 1) := by
  have h : StepOf t pc pc' := fun u hut => by rw [hpc u hut]; exact wakeAll_cases pc signalled u
  refine Covered.give hc (c.waits_step h hwaits) (fun u hu => ?_) fun hw => ?_
  · have hut : u ≠ t := by
      rintro rfl
      rw [hself.2] at hu
      cases hu
    exact c.woken_step h hut hu
  · -- one of the threads that are signalled
    obtain ⟨u, hu⟩ := List.exists_mem_of_ne_nil _ (hs.2 hw)
    have hwu := hs.1 u hu
    have hut : u ≠ t := by
      rintro rfl
      rw [hself.1] at hwu
      cases hwu
    obtain ⟨hk, hk'⟩ := c.wake _ hwu
    refine ⟨u, fun hk'' => ?_, ?_⟩
    · rw [hk] at hk''
      cases hk''
    · rw [hpc u hut, wakeAll, if_pos hu]
      exact hk'

end

/-! ## The queue -/

theorem Pc.of_putting {p : Pc μ} {m : μ} (h : p.putting = some m) :
    p.waitsFull = false ∧ p.waitsEmpty = false ∧ p.wokenEmpty = false := by
  cases p <;> first | exact ⟨rfl, rfl, rfl⟩ | simp [Pc.putting] at h

theorem Pc.of_getting {p : Pc μ} (h : p.getting = true) :
    p.waitsEmpty = false ∧ p.waitsFull = false ∧ p.wokenFull = false := by
  cases p <;> first | exact ⟨rfl, rfl, rfl⟩ | simp [Pc.getting] at h

variable [DecidableEq ι] {n : ℕ} {hook : Bool} {tr : List (QueueLabel ι μ)} {s : QueueState ι μ}

theorem stepOf_next (n : ℕ) (hook : Bool) (s : QueueState ι μ) (l : QueueLabel ι μ) :
    StepOf l.thread s.pc ((threads n hook).next s l).pc := fun u hu => next_pc_ne n hook s l u hu.symm

/-- The steps that neither push nor pop. -/
theorem covers_setPc {waits woken : Pc μ → Bool} (c : Condition waits woken) {t : ι} {p : Pc μ} {free : ℕ}
    (hwaits : waits p = true → waits (s.pc t) = true) (hwoken : woken (s.pc t) = true → woken p = true)
    (hc : Covers waits woken s.pc free) : Covers waits woken (s.setPc t p).pc free := by
  have hp : (s.setPc t p).pc t = p := Function.update_self ..
  refine c.mono (t := t) (fun u hu => Or.inl (Function.update_of_ne hu _ _)) ?_ ?_ hc
  · rw [hp]
    exact hwaits
  · rw [hp]
    exact hwoken

/-- The thread was not woken, and does not wait now. -/
theorem covers_setPc_of {waits woken : Pc μ → Bool} (c : Condition waits woken) {t : ι} {p : Pc μ} {free : ℕ}
    (hwaits : waits p = false) (hwoken : woken (s.pc t) = false) (hc : Covers waits woken s.pc free) :
    Covers waits woken (s.setPc t p).pc free := by
  refine covers_setPc c (fun h => ?_) (fun h => ?_) hc
  · rw [hwaits] at h
    cases h
  · rw [hwoken] at h
    cases h

/-- A thread that is about to call, or to signal, is in no condition variable. -/
theorem covers_setPc_idle {waits woken : Pc μ → Bool} (c : Condition waits woken) {t : ι} {p p' : Pc μ} {free : ℕ}
    (ht : s.pc t = p) (hwoken : woken p = false) (hwaits : waits p' = false) (hc : Covers waits woken s.pc free) :
    Covers waits woken (s.setPc t p').pc free :=
  covers_setPc_of c hwaits (by rw [ht, hwoken]) hc

/-- Where a putter goes once it has pushed. -/
theorem pc_push (n : ℕ) (hook : Bool) (s : QueueState ι μ) (t : ι) (m : μ) (signalled : List ι) :
    ((threads n hook).next s (.push t m signalled)).pc t = if s.queue.onPut then .onPut else .idle :=
  Function.update_self ..

/-- Where a getter goes once it has popped. -/
theorem pc_pop (n : ℕ) (hook : Bool) (s : QueueState ι μ) (t : ι) (r : Option μ) (signalled : List ι) :
    ((threads n hook).next s (.pop t r signalled)).pc t = .idle := Function.update_self ..

/-- **The putters.** -/
theorem full_covered (h : (threads n hook).Run tr s) :
    Covers Pc.waitsFull Pc.wokenFull s.pc (n - s.queue.contents.length) := by
  induction h with
  | nil =>
    rintro ⟨_, ht⟩
    cases ht
  | @snoc tr s l hr he ih =>
    have hw := (threads_fifo hr).2
    cases l with
    | callPut t m => exact covers_setPc_idle fullCond he rfl rfl ih
    | onPut t => exact covers_setPc_idle fullCond he rfl rfl ih
    | callGet t => exact covers_setPc_idle fullCond he rfl rfl ih
    | getWaits t =>
      refine covers_setPc_of fullCond rfl ?_ ih
      rw [(Pc.of_getting he.1).2.2]
    | spurious t =>
      exact covers_setPc fullCond (fullCond.waits_of_wake _) (fullCond.woken_wake _) ih
    | putWaits t =>
      -- the queue is full
      obtain ⟨m, hm⟩ := Option.isSome_iff_exists.mp he.1
      have hfull := (isFull_iff hw).mp he.2
      have hq : ((threads n hook).next s (.putWaits t)).queue = s.queue :=
        next_queue_eq _ (fun _ _ _ h => by cases h) fun _ _ _ h => by cases h
      rw [hq, hfull, Nat.sub_self]
      exact Covered.zero _ _
    | push t m signalled =>
      have hlen : ((threads n hook).next s (.push t m signalled)).queue.contents.length = s.queue.contents.length + 1 :=
        length_contents_push hw he.2.1 m
      rw [hlen, ← Nat.sub_sub]
      refine fullCond.take (stepOf_next n hook s (.push t m signalled)) (fun hwaits => ?_) ih
      change (((threads n hook).next s (.push t m signalled)).pc t).waitsFull = true at hwaits
      rw [pc_push] at hwaits
      split at hwaits <;> cases hwaits
    | pop t r signalled =>
      obtain ⟨hg, hem, -, hs⟩ := he
      have hle := hw.length_le
      have hlen : n - ((threads n hook).next s (.pop t r signalled)).queue.contents.length =
          n - s.queue.contents.length + 1 := by
        show n - s.queue.popMessage.2.contents.length = _
        rw [length_contents_pop hw hem] at hle ⊢
        omega
      rw [hlen]
      refine fullCond.give (t := t) hs (fun u hu => Function.update_of_ne hu _ _) ?_ (Pc.of_getting hg).2 ih
      rw [pc_pop]
      intro h
      cases h

/-- **The getters.** -/
theorem empty_covered (h : (threads n hook).Run tr s) :
    Covers Pc.waitsEmpty Pc.wokenEmpty s.pc s.queue.contents.length := by
  induction h with
  | nil =>
    rintro ⟨_, ht⟩
    cases ht
  | @snoc tr s l hr he ih =>
    have hw := (threads_fifo hr).2
    cases l with
    | callPut t m => exact covers_setPc_idle emptyCond he rfl rfl ih
    | onPut t => exact covers_setPc_idle emptyCond he rfl rfl ih
    | callGet t => exact covers_setPc_idle emptyCond he rfl rfl ih
    | getWaits t =>
      -- the queue is empty
      have hempty := (isEmpty_iff hw).mp he.2
      have hq : ((threads n hook).next s (.getWaits t)).queue = s.queue :=
        next_queue_eq _ (fun _ _ _ h => by cases h) fun _ _ _ h => by cases h
      rw [hq, hempty]
      exact Covered.zero _ _
    | spurious t =>
      exact covers_setPc emptyCond (emptyCond.waits_of_wake _) (emptyCond.woken_wake _) ih
    | putWaits t =>
      obtain ⟨m, hm⟩ := Option.isSome_iff_exists.mp he.1
      have hnext : (threads n hook).next s (.putWaits t) = s.setPc t (.fullWait m) := by
        simp only [threads, hm]
      rw [hnext]
      refine covers_setPc_of emptyCond rfl ?_ ih
      rw [(Pc.of_putting hm).2.2]
    | push t m signalled =>
      obtain ⟨hp, hf, hs⟩ := he
      have hlen : ((threads n hook).next s (.push t m signalled)).queue.contents.length = s.queue.contents.length + 1 :=
        length_contents_push hw hf m
      rw [hlen]
      refine emptyCond.give (t := t) hs (fun u hu => Function.update_of_ne hu _ _) ?_ (Pc.of_putting hp).2 ih
      rw [pc_push]
      split <;> (intro h; cases h)
    | pop t r signalled =>
      have hlen : ((threads n hook).next s (.pop t r signalled)).queue.contents.length =
          s.queue.contents.length - 1 := by
        show s.queue.popMessage.2.contents.length = _
        rw [length_contents_pop hw he.2.1, Nat.add_sub_cancel]
      rw [hlen]
      refine emptyCond.take (stepOf_next n hook s (.pop t r signalled)) (fun hwaits => ?_) ih
      change (((threads n hook).next s (.pop t r signalled)).pc t).waitsEmpty = true at hwaits
      rw [pc_pop] at hwaits
      cases hwaits

/-- **No lost wake-up**: a putter waits while the queue is not full only if a putter is woken, and a getter
waits while it is not empty only if a getter is. -/
theorem no_lost_wakeup (h : (threads n hook).Run tr s) :
    ((∃ t, (s.pc t).waitsFull = true) → s.queue.isFull = false → ∃ t, (s.pc t).wokenFull = true) ∧
      ((∃ t, (s.pc t).waitsEmpty = true) → s.queue.isEmpty = false → ∃ t, (s.pc t).wokenEmpty = true) := by
  have hw := (threads_fifo h).2
  constructor
  · intro hwaits hf
    have hlt := lt_of_not_full hw hf
    exact (full_covered h).exists_woken hwaits (by omega)
  · intro hwaits hem
    have hne : s.queue.contents ≠ [] := by
      intro hnil
      rw [(isEmpty_iff hw).mpr hnil] at hem
      cases hem
    exact (empty_covered h).exists_woken hwaits (List.length_pos_iff.mpr hne)

/-- Two putters wait when a message is taken, and two getters when one is put. -/
theorem no_lost_wakeup_one :
    (∃ s : QueueState (Fin 3) ℕ,
      (threads 1 false).Run [.callPut 0 7, .push 0 7 [], .callPut 1 8, .putWaits 1, .callPut 2 9, .putWaits 2,
        .callGet 0, .pop 0 (some 7) [1]] s ∧
      (s.pc 2).waitsFull = true ∧ ∃ t, (s.pc t).wokenFull = true) ∧
    ∃ s : QueueState (Fin 3) ℕ,
      (threads 1 false).Run [.callGet 1, .getWaits 1, .callGet 2, .getWaits 2, .callPut 0 7, .push 0 7 [1]] s ∧
      (s.pc 2).waitsEmpty = true ∧ ∃ t, (s.pc t).wokenEmpty = true := by
  have hputters : ∃ s : QueueState (Fin 3) ℕ, (threads 1 false).Path (threads 1 false).start
      [.callPut 0 7, .push 0 7 [], .callPut 1 8, .putWaits 1, .callPut 2 9, .putWaits 2, .callGet 0,
        .pop 0 (some 7) [1]] s ∧ (s.pc 2).waitsFull = true ∧ s.queue.isFull = false :=
    ⟨_, .cons _ rfl (.cons _ ⟨rfl, rfl, by decide, by decide⟩ (.cons _ rfl (.cons _ ⟨rfl, rfl⟩ (.cons _ rfl
      (.cons _ ⟨rfl, rfl⟩ (.cons _ rfl (.cons _ ⟨rfl, rfl, rfl, by decide, by decide⟩ (.nil _)))))))), rfl, rfl⟩
  have hgetters : ∃ s : QueueState (Fin 3) ℕ, (threads 1 false).Path (threads 1 false).start
      [.callGet 1, .getWaits 1, .callGet 2, .getWaits 2, .callPut 0 7, .push 0 7 [1]] s ∧
        (s.pc 2).waitsEmpty = true ∧ s.queue.isEmpty = false :=
    ⟨_, .cons _ rfl (.cons _ ⟨rfl, rfl⟩ (.cons _ rfl (.cons _ ⟨rfl, rfl⟩ (.cons _ rfl
      (.cons _ ⟨rfl, rfl, by decide, by decide⟩ (.nil _)))))), rfl, rfl⟩
  obtain ⟨s, hp, hw, hf⟩ := hputters
  obtain ⟨s', hp', hw', hem⟩ := hgetters
  exact ⟨⟨s, hp.run, hw, (no_lost_wakeup hp.run).1 ⟨2, hw⟩ hf⟩, s', hp'.run, hw', (no_lost_wakeup hp'.run).2 ⟨2, hw'⟩ hem⟩

end Monolinux
