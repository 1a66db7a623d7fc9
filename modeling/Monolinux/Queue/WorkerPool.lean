import Monolinux.Queue.Threads
import Mathlib.Data.List.Basic
import Mathlib.Data.List.Nodup

/-!
# `ml_worker_pool_t`: several getters on one queue

The workers of a pool loop around `ml_queue_get` on the pool's job queue; any
thread, a worker inside a job included, may spawn.  `pool` adds this loop to
the threads of `Monolinux.Queue.Threads`, so that every run of a pool is a run
of its queue (`pool_threads`).

* `pool_jobs`: every spawned job is still in its `ml_queue_put`, in the queue,
  or was taken by exactly one worker, once.
* `pool_runs`: a worker runs each job it took once, in the order it took them.
* `queue_refines_fifo`: the queue's own refinement theorem together with what
  it means for the pool.
-/

namespace Monolinux

open Queue

variable {ι α : Type*}

/-- `struct worker_pool_job_message_t`; `id` tells the allocated messages apart. -/
structure Job (α : Type*) where
  id : ℕ
  /-- `entry` and `arg_p` -/
  entry : α

/-- Where a worker is in the loop of `worker_pool_main`. -/
inductive WorkerPc (α : Type*)
  /-- in `ml_queue_get`, or about to call it -/
  | get
  /-- about to call the entry of the job it took -/
  | run (j : Job α)
  /-- inside the entry, to free the message when it returns -/
  | free (j : Job α)

def WorkerPc.toRun : WorkerPc α → List (Job α)
  | run j => [j]
  | _ => []

structure PoolState (ι α : Type*) where
  jobs : QueueState ι (Job α)
  /-- Number of job messages allocated so far. -/
  allocated : ℕ
  worker : ι → WorkerPc α

inductive PoolLabel (ι α : Type*)
  /-- `ml_worker_pool_spawn` allocates `j` and calls `ml_queue_put`. -/
  | spawn (t : ι) (j : Job α)
  /-- a step inside `ml_queue_put` or `ml_queue_get`, or a worker's call of the latter -/
  | queue (l : QueueLabel ι (Job α))
  | run (w : ι) (j : Job α)
  | free (w : ι) (j : Job α)

variable [DecidableEq ι]

/-- The steps of the queue that a pool makes by itself. -/
def PoolState.mayStep (isWorker : ι → Bool) (s : PoolState ι α) : QueueLabel ι (Job α) → Prop
  | .callPut _ _ => False
  | .callGet w => isWorker w = true ∧ s.worker w = .get
  | _ => True

def PoolState.took (s : PoolState ι α) : QueueLabel ι (Job α) → ι → WorkerPc α
  | .pop w (some j) _ => Function.update s.worker w (.run j)
  | _ => s.worker

def pool (isWorker : ι → Bool) (n : ℕ) : System (PoolState ι α) (PoolLabel ι α) where
  start := ⟨(threads n false).start, 0, fun _ => .get⟩
  enabled s
    | .spawn t j => s.jobs.pc t = .idle ∧ j.id = s.allocated ∧
        (isWorker t = true → ∃ k, s.worker t = .free k)
    | .queue l => (threads n false).enabled s.jobs l ∧ s.mayStep isWorker l
    | .run w j => s.worker w = .run j
    | .free w j => s.worker w = .free j ∧ s.jobs.pc w = .idle
  next s
    | .spawn t j => { s with jobs := (threads n false).next s.jobs (.callPut t j), allocated := s.allocated + 1 }
    | .queue l => { s with jobs := (threads n false).next s.jobs l, worker := s.took l }
    | .run w j => { s with worker := Function.update s.worker w (.free j) }
    | .free w _ => { s with worker := Function.update s.worker w .get }

/-! ## What happened in a run -/

/-- The step of the queue a pool label makes. -/
def PoolLabel.queue? : PoolLabel ι α → Option (QueueLabel ι (Job α))
  | .spawn t j => some (.callPut t j)
  | .queue l => some l
  | _ => none

def PoolLabel.spawned? : PoolLabel ι α → Option (Job α)
  | .spawn _ j => some j
  | _ => none

/-- The worker that took a job. -/
def PoolLabel.taken? : PoolLabel ι α → Option (ι × Job α)
  | .queue (.pop w (some j) _) => some (w, j)
  | _ => none

def PoolLabel.ran? : PoolLabel ι α → Option (ι × Job α)
  | .run w j => some (w, j)
  | _ => none

def spawned (tr : List (PoolLabel ι α)) : List (Job α) := tr.filterMap PoolLabel.spawned?

def taken (tr : List (PoolLabel ι α)) : List (ι × Job α) := tr.filterMap PoolLabel.taken?

def ran (tr : List (PoolLabel ι α)) : List (ι × Job α) := tr.filterMap PoolLabel.ran?

/-- The jobs pushed to the queue. -/
def pushedJobs (tr : List (PoolLabel ι α)) : List (Job α) :=
  pushes (queueEvents (tr.filterMap PoolLabel.queue?))

variable {isWorker : ι → Bool} {n : ℕ} {tr : List (PoolLabel ι α)} {s : PoolState ι α}

/-- **The pool's queue is used as any other queue.** -/
theorem pool_threads (h : (pool isWorker n).Run tr s) :
    (threads n false).Run (tr.filterMap PoolLabel.queue?) s.jobs := by
  obtain ⟨a, ha, rfl⟩ := h.refines (A := threads n false) (fun s a => a = s.jobs) PoolLabel.queue? rfl (by
    rintro _ s _ l - rfl he
    cases l with
    | spawn t j => exact ⟨he.1, rfl⟩
    | queue l => exact ⟨he.1, rfl⟩
    | run w j => exact rfl
    | free w j => exact rfl)
  exact ha

omit [DecidableEq ι] in
theorem taken_eq_pops (tr : List (PoolLabel ι α)) :
    (taken tr).map Prod.snd = pops (queueEvents (tr.filterMap PoolLabel.queue?)) := by
  unfold taken pops queueEvents
  rw [List.map_filterMap, List.filterMap_filterMap, List.filterMap_filterMap]
  apply List.filterMap_congr
  intro l _
  rcases l with ⟨t, j⟩ | ⟨_ | _ | _ | _ | _ | _ | ⟨t, _ | j, w⟩ | _⟩ | _ | _ <;> rfl

/-- What is pushed is what is taken, then what is queued. -/
theorem pushedJobs_eq (h : (pool isWorker n).Run tr s) :
    pushedJobs tr = (taken tr).map Prod.snd ++ s.jobs.queue.contents := by
  rw [taken_eq_pops]
  exact (fifo_run (threads_fifo (pool_threads h)).1).1

/-! ## A job is pushed once -/

/-- What a step of the queue does to the messages that are not pushed yet. -/
theorem unpushed_cases {μ : Type*} {q : QueueState ι μ} (l : QueueLabel ι μ) (he : (threads n false).enabled q l) :
    (∃ t m, l = .callPut t m ∧ (q.pc t).unpushed = [] ∧
      ∀ u, (((threads n false).next q l).pc u).unpushed = if u = t then [m] else (q.pc u).unpushed) ∨
    (∃ t m w, l = .push t m w ∧ (q.pc t).unpushed = [m] ∧
      ∀ u, (((threads n false).next q l).pc u).unpushed = if u = t then [] else (q.pc u).unpushed) ∨
    (l.called = [] ∧ l.pushed = [] ∧
      ∀ u, (((threads n false).next q l).pc u).unpushed = (q.pc u).unpushed) := by
  have hother : ∀ u, u ≠ l.thread → (((threads n false).next q l).pc u).unpushed = (q.pc u).unpushed := by
    intro u hu
    rcases next_pc_ne n false q l u (Ne.symm hu) with h | h
    · rw [h]
    · rw [h, Pc.unpushed_wake]
  have hself := (next_pc_self l he).1
  have hsame : l.called = [] → l.pushed = [] →
      ∀ u, (((threads n false).next q l).pc u).unpushed = (q.pc u).unpushed := by
    intro hc hp u
    by_cases hu : u = l.thread
    · rw [hc, hp, List.append_nil, List.nil_append] at hself
      rw [hu, hself]
    · exact hother u hu
  cases l with
  | callPut t m =>
    left
    have hidle : q.pc t = .idle := he
    have hnil : (q.pc t).unpushed = [] := by rw [hidle]; rfl
    refine ⟨t, m, rfl, hnil, fun u => ?_⟩
    split
    · next hu =>
      have hs : (q.pc t).unpushed ++ [m] = [] ++ _ := hself
      rw [hnil, List.nil_append, List.nil_append] at hs
      rw [hu]
      exact hs.symm
    · next hu => exact hother u hu
  | push t m w =>
    right; left
    have hm := (Pc.unpushed_of_putting he.1).1
    refine ⟨t, m, w, rfl, hm, fun u => ?_⟩
    split
    · next hu =>
      have hs : (q.pc t).unpushed ++ [] = [m] ++ _ := hself
      rw [hm, List.append_nil] at hs
      rw [hu]
      exact (List.append_cancel_left (show [m] ++ [] = _ from hs)).symm
    · next hu => exact hother u hu
  | _ => exact Or.inr (Or.inr ⟨rfl, rfl, hsame rfl rfl⟩)

/-- Jobs are told apart by their number: `U t` waits in a put call of `t`, `P` has been pushed,
`S` has been spawned, all numbers are below `A`. -/
structure JobsOk (U : ι → List (Job α)) (P S : List (Job α)) (A : ℕ) : Prop where
  pushed_nodup : (P.map Job.id).Nodup
  pushed_lt : ∀ j ∈ P, j.id < A
  waiting_lt : ∀ t, ∀ j ∈ U t, j.id < A
  waiting_new : ∀ t, ∀ j ∈ U t, j.id ∉ P.map Job.id
  distinct : ∀ t u, ∀ j ∈ U t, ∀ k ∈ U u, j.id = k.id → t = u
  spawned : ∀ j ∈ S, j ∈ P ∨ ∃ t, j ∈ U t

variable {U : ι → List (Job α)} {P S : List (Job α)} {A : ℕ}

omit [DecidableEq ι] in
theorem JobsOk.start : JobsOk (fun _ : ι => ([] : List (Job α))) [] [] 0 := by
  constructor <;> simp

theorem JobsOk.spawn (h : JobsOk U P S A) {t : ι} {j : Job α} (hU : U t = []) (hj : j.id = A) :
    JobsOk (fun u => if u = t then [j] else U u) P (S ++ [j]) (A + 1) := by
  refine ⟨h.pushed_nodup, fun k hk => ?_, fun u k hk => ?_, fun u k hk => ?_, fun u v k hk k' hk' he => ?_,
    fun k hk => ?_⟩
  · have := h.pushed_lt k hk
    omega
  · split at hk
    · obtain rfl := List.mem_singleton.mp hk
      omega
    · have := h.waiting_lt u k hk
      omega
  · split at hk
    · obtain rfl := List.mem_singleton.mp hk
      intro hm
      obtain ⟨k', hk', he⟩ := List.mem_map.mp hm
      have := h.pushed_lt k' hk'
      omega
    · exact h.waiting_new u k hk
  · split at hk <;> split at hk'
    · next h1 h2 => rw [h1, h2]
    · obtain rfl := List.mem_singleton.mp hk
      have := h.waiting_lt v k' hk'
      omega
    · obtain rfl := List.mem_singleton.mp hk'
      have := h.waiting_lt u k hk
      omega
    · exact h.distinct u v k hk k' hk' he
  · rcases List.mem_append.mp hk with hk | hk
    · rcases h.spawned k hk with hp | ⟨u, hu⟩
      · exact Or.inl hp
      · right
        refine ⟨u, ?_⟩
        have hne : u ≠ t := by
          rintro rfl
          rw [hU] at hu
          cases hu
        rwa [if_neg hne]
    · obtain rfl := List.mem_singleton.mp hk
      exact Or.inr ⟨t, by rw [if_pos rfl]; exact List.mem_singleton_self k⟩

theorem JobsOk.push (h : JobsOk U P S A) {t : ι} {j : Job α} (hU : U t = [j]) :
    JobsOk (fun u => if u = t then [] else U u) (P ++ [j]) S A := by
  have hj : j ∈ U t := by rw [hU]; exact List.mem_singleton_self j
  refine ⟨?_, fun k hk => ?_, fun u k hk => ?_, fun u k hk => ?_, fun u v k hk k' hk' he => ?_, fun k hk => ?_⟩
  · rw [List.map_append, List.map_singleton]
    exact (List.nodup_append_comm.mp (by
      rw [List.singleton_append]
      exact List.nodup_cons.mpr ⟨h.waiting_new t j hj, h.pushed_nodup⟩))
  · rcases List.mem_append.mp hk with hk | hk
    · exact h.pushed_lt k hk
    · obtain rfl := List.mem_singleton.mp hk
      exact h.waiting_lt t k hj
  · split at hk
    · cases hk
    · exact h.waiting_lt u k hk
  · split at hk
    · cases hk
    · next hne =>
      rw [List.map_append, List.mem_append]
      rintro (hm | hm)
      · exact h.waiting_new u k hk hm
      · exact hne (h.distinct u t k hk j hj (by simpa using hm))
  · split at hk
    · cases hk
    · split at hk'
      · cases hk'
      · exact h.distinct u v k hk k' hk' he
  · rcases h.spawned k hk with hp | ⟨u, hu⟩
    · exact Or.inl (List.mem_append_left _ hp)
    · by_cases hut : u = t
      · rw [hut, hU, List.mem_singleton] at hu
        subst hu
        exact Or.inl (List.mem_append_right _ (List.mem_singleton_self k))
      · exact Or.inr ⟨u, by rwa [if_neg hut]⟩

def PoolInv (tr : List (PoolLabel ι α)) (s : PoolState ι α) : Prop :=
  JobsOk (fun t => (s.jobs.pc t).unpushed) (pushedJobs tr) (spawned tr) s.allocated

omit [DecidableEq ι] in
theorem pushedJobs_snoc (tr : List (PoolLabel ι α)) (l : PoolLabel ι α) :
    pushedJobs (tr ++ [l]) = pushedJobs tr ++ pushedJobs [l] := by
  simp only [pushedJobs, pushes, queueEvents, List.filterMap_append]

omit [DecidableEq ι] in
theorem spawned_snoc (tr : List (PoolLabel ι α)) (l : PoolLabel ι α) :
    spawned (tr ++ [l]) = spawned tr ++ spawned [l] := by
  simp only [spawned, List.filterMap_append]

omit [DecidableEq ι] in
theorem pushedJobs_queue (l : QueueLabel ι (Job α)) : pushedJobs [.queue l] = l.pushed := by
  rcases l with _ | _ | _ | _ | _ | _ | ⟨_, _ | _, _⟩ | _ <;> rfl

omit [DecidableEq ι] in
theorem spawned_queue (l : QueueLabel ι (Job α)) : spawned [.queue l] = [] := rfl

theorem PoolInv.step (l : PoolLabel ι α) (hi : PoolInv tr s) (he : (pool isWorker n).enabled s l) :
    PoolInv (tr ++ [l]) ((pool isWorker n).next s l) := by
  unfold PoolInv at *
  rw [pushedJobs_snoc, spawned_snoc]
  cases l with
  | spawn t j =>
    obtain ⟨hidle, hj, -⟩ := he
    have hpushed : pushedJobs [PoolLabel.spawn t j] = [] := rfl
    rcases unpushed_cases (n := n) (.callPut t j) hidle with ⟨_, _, hl, hnil, hU⟩ | ⟨_, _, _, hl, -⟩ | ⟨hc, -, -⟩
    · cases hl
      have hfun : (fun u => (((pool isWorker n).next s (.spawn t j)).jobs.pc u).unpushed) =
          fun u => if u = t then [j] else (s.jobs.pc u).unpushed := funext hU
      rw [hpushed, List.append_nil, hfun]
      exact hi.spawn hnil hj
    · cases hl
    · cases hc
  | queue l =>
    obtain ⟨he, hmay⟩ := he
    rw [pushedJobs_queue, spawned_queue, List.append_nil]
    rcases unpushed_cases l he with ⟨_, _, rfl, -, -⟩ | ⟨t, j, w, rfl, hm, hU⟩ | ⟨-, hp, hU⟩
    · exact absurd hmay (by simp [PoolState.mayStep])
    · have hfun : (fun u => (((pool isWorker n).next s (.queue (.push t j w))).jobs.pc u).unpushed) =
          fun u => if u = t then [] else (s.jobs.pc u).unpushed := funext hU
      rw [hfun]
      exact hi.push hm
    · have hfun : (fun u => (((pool isWorker n).next s (.queue l)).jobs.pc u).unpushed) =
          fun u => (s.jobs.pc u).unpushed := funext hU
      rw [hp, List.append_nil, hfun]
      exact hi
  | run w j =>
    rw [show pushedJobs [PoolLabel.run w j] = [] from rfl, show spawned [PoolLabel.run w j] = [] from rfl,
      List.append_nil, List.append_nil]
    exact hi
  | free w j =>
    rw [show pushedJobs [PoolLabel.free w j] = [] from rfl, show spawned [PoolLabel.free w j] = [] from rfl,
      List.append_nil, List.append_nil]
    exact hi

theorem pool_inv (h : (pool isWorker n).Run tr s) : PoolInv tr s := by
  have hstart : PoolInv ([] : List (PoolLabel ι α)) (pool isWorker n).start := JobsOk.start
  exact h.invariantOn PoolInv hstart fun _ _ l _ hi he => hi.step l he

/-- The entries of `l` whose job has the number of `j`. -/
def entriesOf (j : Job α) (l : List (ι × Job α)) : List (ι × Job α) := l.filter fun e => e.2.id = j.id

omit [DecidableEq ι] in
theorem entriesOf_eq {l : List (ι × Job α)} (hn : ((l.map Prod.snd).map Job.id).Nodup) {w : ι} {j : Job α}
    (hm : (w, j) ∈ l) : entriesOf j l = [(w, j)] := by
  induction l with
  | nil => cases hm
  | cons e l ih =>
    rw [List.map_cons, List.map_cons, List.nodup_cons] at hn
    obtain ⟨hnew, hn⟩ := hn
    unfold entriesOf at *
    rcases List.mem_cons.mp hm with rfl | hm
    · rw [List.filter_cons_of_pos (by simp), List.filter_eq_nil_iff.mpr]
      intro e' he' hid
      apply hnew
      rw [← of_decide_eq_true hid]
      exact List.mem_map_of_mem (List.mem_map_of_mem he')
    · rw [List.filter_cons_of_neg, ih hn hm]
      intro hid
      apply hnew
      rw [of_decide_eq_true hid]
      exact List.mem_map_of_mem (List.mem_map_of_mem (f := Prod.snd) hm)

/-- **Each spawned job** waits in its `ml_queue_put`, is queued, or was taken by exactly one worker, once. -/
theorem pool_jobs (h : (pool isWorker n).Run tr s) {j : Job α} (hj : j ∈ spawned tr) :
    (∃ t, j ∈ (s.jobs.pc t).unpushed) ∨ j ∈ s.jobs.queue.contents ∨ ∃ w, entriesOf j (taken tr) = [(w, j)] := by
  have hi := pool_inv h
  rcases hi.spawned j hj with hp | hw
  · right
    have hn := hi.pushed_nodup
    rw [pushedJobs_eq h] at hp hn
    rcases List.mem_append.mp hp with hm | hm
    · obtain ⟨⟨w, j'⟩, hmem, rfl⟩ := List.mem_map.mp hm
      right
      rw [List.map_append] at hn
      exact ⟨w, entriesOf_eq hn.of_append_left hmem⟩
    · exact Or.inl hm
  · exact Or.inl hw

/-! ## A worker runs what it took -/

/-- The jobs of `l` that belong to `w`. -/
def jobsOf (w : ι) (l : List (ι × Job α)) : List (Job α) := (l.filter fun e => e.1 = w).map Prod.snd

theorem jobsOf_append (w : ι) (l l' : List (ι × Job α)) : jobsOf w (l ++ l') = jobsOf w l ++ jobsOf w l' := by
  simp only [jobsOf, List.filter_append, List.map_append]

theorem jobsOf_self (w : ι) (j : Job α) : jobsOf w [(w, j)] = [j] := by simp [jobsOf]

theorem jobsOf_ne {w w' : ι} (hne : w ≠ w') (j : Job α) : jobsOf w [(w', j)] = [] := by
  simp [jobsOf, Ne.symm hne]

omit [DecidableEq ι] in
theorem taken_snoc (tr : List (PoolLabel ι α)) (l : PoolLabel ι α) : taken (tr ++ [l]) = taken tr ++ taken [l] := by
  simp only [taken, List.filterMap_append]

omit [DecidableEq ι] in
theorem ran_snoc (tr : List (PoolLabel ι α)) (l : PoolLabel ι α) : ran (tr ++ [l]) = ran tr ++ ran [l] := by
  simp only [ran, List.filterMap_append]

/-- A worker is in a get call only between two jobs, and has run what it took but for the job in hand. -/
def WorkInv (tr : List (PoolLabel ι α)) (s : PoolState ι α) : Prop :=
  ∀ w, ((s.jobs.pc w).unpopped ≠ 0 → s.worker w = .get) ∧
    jobsOf w (taken tr) = jobsOf w (ran tr) ++ (s.worker w).toRun

theorem Pc.unpopped_le {μ : Type*} (p : Pc μ) : p.unpopped ≤ 1 := by cases p <;> simp [Pc.unpopped]

/-- After a step of the queue a get call is open that was open before, or that the step opened. -/
theorem unpopped_next {μ : Type*} {q : QueueState ι μ} (l : QueueLabel ι μ) (he : (threads n false).enabled q l)
    (u : ι) (hne : (((threads n false).next q l).pc u).unpopped ≠ 0) :
    l = .callGet u ∨ ((q.pc u).unpopped ≠ 0 ∧ ∀ r w, l ≠ .pop u r w) := by
  by_cases hu : l.thread = u
  · subst hu
    have hself := (next_pc_self l he).2
    have hle := Pc.unpopped_le (q.pc l.thread)
    cases l with
    | callGet t => exact Or.inl rfl
    | pop t r w =>
      have hs : (q.pc t).unpopped + 0 = 1 + _ := hself
      have hle' : (q.pc t).unpopped ≤ 1 := hle
      exact absurd (by omega) hne
    | _ =>
      right
      refine ⟨fun h0 => hne ?_, by simp⟩
      simp only [QueueLabel.getCalled, QueueLabel.popped] at hself
      omega
  · right
    refine ⟨?_, fun r w hl => hu (by rw [hl]; rfl)⟩
    rcases next_pc_ne n false q l u hu with h | h
    · rwa [h] at hne
    · rwa [h, Pc.unpopped_wake] at hne

theorem jobsOf_taken_snoc (w : ι) (tr : List (PoolLabel ι α)) (l : PoolLabel ι α) :
    jobsOf w (taken (tr ++ [l])) = jobsOf w (taken tr) ++ jobsOf w (taken [l]) := by
  rw [taken_snoc, jobsOf_append]

theorem jobsOf_ran_snoc (w : ι) (tr : List (PoolLabel ι α)) (l : PoolLabel ι α) :
    jobsOf w (ran (tr ++ [l])) = jobsOf w (ran tr) ++ jobsOf w (ran [l]) := by
  rw [ran_snoc, jobsOf_append]

/-- A step that is not of this worker's. -/
theorem WorkInv.keep (hi : WorkInv tr s) {l : PoolLabel ι α} {w : ι} (htaken : jobsOf w (taken [l]) = [])
    (hran : jobsOf w (ran [l]) = []) (hworker : ((pool isWorker n).next s l).worker w = s.worker w) :
    jobsOf w (taken (tr ++ [l])) = jobsOf w (ran (tr ++ [l])) ++ (((pool isWorker n).next s l).worker w).toRun := by
  rw [jobsOf_taken_snoc, jobsOf_ran_snoc, htaken, hran, hworker, List.append_nil, List.append_nil]
  exact (hi w).2

/-- A worker takes a job. -/
theorem WorkInv.pop (hi : WorkInv tr s) {w' : ι} {j : Job α} {woken : List ι}
    (he : (threads n false).enabled s.jobs (.pop w' (some j) woken)) :
    WorkInv (tr ++ [.queue (.pop w' (some j) woken)]) ((pool isWorker n).next s (.queue (.pop w' (some j) woken))) := by
  intro w
  obtain ⟨hget, hran⟩ := hi w
  have hopen := unpopped_next _ he w
  by_cases hw : w = w'
  · subst hw
    have hwas : s.worker w = .get := hget (by rw [(Pc.unpopped_of_getting he.1).2]; omega)
    refine ⟨fun hne => ?_, ?_⟩
    · rcases hopen hne with hl | ⟨-, hl⟩
      · cases hl
      · exact absurd rfl (hl _ _)
    · have htook : ((pool isWorker n).next s (.queue (.pop w (some j) woken))).worker w = .run j := Function.update_self ..
      rw [jobsOf_taken_snoc, jobsOf_ran_snoc, htook, hran, hwas]
      show _ ++ [] ++ jobsOf w [(w, j)] = _ ++ [] ++ [j]
      rw [jobsOf_self]
  · have hsame : ((pool isWorker n).next s (.queue (.pop w' (some j) woken))).worker w = s.worker w :=
      Function.update_of_ne hw _ _
    refine ⟨fun hne => ?_, hi.keep (jobsOf_ne hw j) rfl hsame⟩
    rw [hsame]
    rcases hopen hne with hl | ⟨h, -⟩
    · cases hl
    · exact hget h

/-- A worker has run its job. -/
theorem WorkInv.run (hi : WorkInv tr s) {w' : ι} {j : Job α} (he : s.worker w' = .run j) :
    WorkInv (tr ++ [.run w' j]) ((pool isWorker n).next s (.run w' j)) := by
  intro w
  obtain ⟨hget, hran⟩ := hi w
  by_cases hw : w = w'
  · subst hw
    refine ⟨fun hne => ?_, ?_⟩
    · rw [hget hne] at he
      cases he
    · have hfree : ((pool isWorker n).next s (.run w j)).worker w = .free j := Function.update_self ..
      rw [jobsOf_taken_snoc, jobsOf_ran_snoc, hfree, hran, he]
      show _ ++ [j] ++ [] = _ ++ jobsOf w [(w, j)] ++ []
      rw [jobsOf_self]
  · have hsame : ((pool isWorker n).next s (.run w' j)).worker w = s.worker w := Function.update_of_ne hw _ _
    refine ⟨fun hne => ?_, hi.keep rfl (jobsOf_ne hw j) hsame⟩
    rw [hsame]
    exact hget hne

/-- A worker frees its job, and gets the next one. -/
theorem WorkInv.free (hi : WorkInv tr s) {w' : ι} {j : Job α} (he : s.worker w' = .free j) :
    WorkInv (tr ++ [.free w' j]) ((pool isWorker n).next s (.free w' j)) := by
  intro w
  obtain ⟨hget, hran⟩ := hi w
  by_cases hw : w = w'
  · subst hw
    have hnext : ((pool isWorker n).next s (.free w j)).worker w = .get := Function.update_self ..
    refine ⟨fun _ => hnext, ?_⟩
    rw [jobsOf_taken_snoc, jobsOf_ran_snoc, hnext, hran, he, List.append_assoc, List.append_assoc]
    rfl
  · have hsame : ((pool isWorker n).next s (.free w' j)).worker w = s.worker w := Function.update_of_ne hw _ _
    refine ⟨fun hne => ?_, hi.keep rfl rfl hsame⟩
    rw [hsame]
    exact hget hne

theorem WorkInv.step (l : PoolLabel ι α) (hi : WorkInv tr s) (he : (pool isWorker n).enabled s l) :
    WorkInv (tr ++ [l]) ((pool isWorker n).next s l) := by
  cases l with
  | spawn t j =>
    intro w
    refine ⟨fun hne => ?_, hi.keep rfl rfl rfl⟩
    rcases unpopped_next (n := n) (.callPut t j) he.1 w hne with hl | ⟨h, -⟩
    · cases hl
    · exact (hi w).1 h
  | queue l =>
    obtain ⟨he, hmay⟩ := he
    by_cases hpop : ∃ w' j woken, l = .pop w' (some j) woken
    · obtain ⟨w', j, woken, rfl⟩ := hpop
      exact hi.pop he
    · -- nothing is taken
      have hnone : s.took l = s.worker ∧ taken [PoolLabel.queue l] = [] := by
        rcases l with _ | _ | _ | _ | _ | _ | ⟨t, _ | j, w⟩ | _
        all_goals first
          | exact ⟨rfl, rfl⟩
          | exact absurd ⟨_, _, _, rfl⟩ hpop
      obtain ⟨htook, htaken⟩ := hnone
      have hworker : ((pool isWorker n).next s (.queue l)).worker = s.worker := htook
      intro w
      refine ⟨fun hne => ?_, hi.keep (by rw [htaken]; rfl) rfl (congrFun hworker w)⟩
      rw [hworker]
      rcases unpopped_next l he w hne with rfl | ⟨h, -⟩
      · exact hmay.2
      · exact (hi w).1 h
  | run w' j => exact hi.run he
  | free w' j => exact hi.free he.1

/-- **A worker runs each job it took once**, in order; the last one may still be in its hands. -/
theorem pool_runs (h : (pool isWorker n).Run tr s) (w : ι) :
    jobsOf w (taken tr) = jobsOf w (ran tr) ++ (s.worker w).toRun :=
  (h.invariantOn WorkInv (fun _ => ⟨fun _ => rfl, rfl⟩) (fun _ _ l _ hi he => hi.step l he) w).2

/-! ## The queue as its users see it -/

theorem queue_refines_fifo {μ : Type*} (n : ℕ) (hook : Bool) :
    (∀ (tr : List (QueueLabel ι μ)) (s : QueueState ι μ), (threads n hook).Run tr s →
      s.queue.rdpos < s.queue.messages.length ∧ s.queue.wrpos < s.queue.messages.length ∧
      s.queue.contents.length ≤ n ∧
      (s.queue.isFull = true ↔ s.queue.contents.length = n) ∧
      (s.queue.isEmpty = true ↔ s.queue.contents = []) ∧
      (fifo n).Run (queueEvents tr) s.queue.contents ∧
      pushes (queueEvents tr) = pops (queueEvents tr) ++ s.queue.contents ∧
      (∀ t w, QueueLabel.pop t none w ∉ tr) ∧
      ∀ t, (stepsOf t tr).flatMap QueueLabel.called =
          (stepsOf t tr).flatMap QueueLabel.pushed ++ (s.pc t).unpushed ∧
        ((stepsOf t tr).map QueueLabel.getCalled).sum =
          ((stepsOf t tr).map QueueLabel.popped).sum + (s.pc t).unpopped) ∧
    (∀ (_ : ι) (ms : List μ), ms.length = n →
      ∃ tr, ∃ s : QueueState ι μ, (threads n hook).Run tr s ∧ s.queue.contents = ms) ∧
    (∀ (isWorker : ι → Bool) (tr : List (PoolLabel ι μ)) (s : PoolState ι μ), (pool isWorker n).Run tr s →
      (∀ j ∈ spawned tr, (∃ t, j ∈ (s.jobs.pc t).unpushed) ∨ j ∈ s.jobs.queue.contents ∨
        ∃ w, entriesOf j (taken tr) = [(w, j)]) ∧
      ∀ w, jobsOf w (taken tr) = jobsOf w (ran tr) ++ (s.worker w).toRun) := by
  refine ⟨fun tr s h => ?_, fun t ms hms => ?_, fun isWorker tr s h => ⟨fun j hj => pool_jobs h hj, pool_runs h⟩⟩
  · obtain ⟨hfifo, hw⟩ := threads_fifo h
    exact ⟨hw.rdpos_lt, hw.wrpos_lt, hw.length_le, isFull_iff hw, isEmpty_iff hw, hfifo, (fifo_run hfifo).1,
      pop_ne_none h, calls_eq h⟩
  · obtain ⟨tr, s, hr, hc, -⟩ := fill t ms (Nat.le_of_eq hms)
    exact ⟨tr, s, hr, hc⟩

/-- The putters 0 and 1 and the getter 2, on a queue of capacity 2.  Each putter waits once because the queue is full. -/
def twoPutters : List (QueueLabel (Fin 3) ℕ) :=
  [.callPut 0 7, .push 0 7 [], .callPut 0 8, .push 0 8 [], .callPut 1 9, .putWaits 1, .callGet 2, .pop 2 (some 7) [1],
    .push 1 9 [], .callPut 0 10, .putWaits 0, .callGet 2, .pop 2 (some 8) [0], .push 0 10 [], .callGet 2,
    .pop 2 (some 9) []]

/-- The messages come out in the order in which they were put, the last one from the front of the ring. -/
theorem queue_refines_fifo_one : ∃ s : QueueState (Fin 3) ℕ, (threads 2 false).Run twoPutters s ∧
    (fifo 2).Run (queueEvents twoPutters) s.queue.contents ∧ pops (queueEvents twoPutters) = [7, 8, 9] ∧
    s.queue.contents = [10] ∧ s.queue.wrpos = 1 ∧ ∀ t, (s.pc t).unpushed = [] := by
  have hrun : (threads 2 false).Run twoPutters (twoPutters.foldl (threads 2 false).next (threads 2 false).start) :=
    (System.path_of_runs (by decide +kernel)).run
  obtain ⟨-, -, -, -, -, hfifo, horder, -⟩ := (queue_refines_fifo 2 false).1 _ _ hrun
  have hevents : pushes (queueEvents twoPutters) = [7, 8, 9] ++ [10] ∧ pops (queueEvents twoPutters) = [7, 8, 9] := by decide
  rw [hevents.1, hevents.2] at horder
  exact ⟨_, hrun, hfifo, hevents.2, (List.append_cancel_left horder).symm, by decide +kernel, by decide +kernel⟩

end Monolinux
