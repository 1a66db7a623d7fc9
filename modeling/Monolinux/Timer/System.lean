import Mathlib.Data.Fintype.Basic
import Monolinux.Lib.Stale
import Monolinux.Queue.Ring
import Monolinux.Timer.Spec

/-!
# The timer thread, its queue and its users

`timers n consumer mem`: the handler thread ticks, threads start and stop timers,
and the thread `consumer` gets the expiry messages of all timers from one queue
for `n` messages and checks them in the order it got them.

The handler thread is inside `tick` whenever its `HandlerPc` is not `idle`, and it
holds the mutex of the handler for all that time, also while it waits in
`ml_queue_put` for room in the queue.  A thread that calls into the timer module
waits for the mutex with the locked section it is about to run
(`TimerState.waiting`); `ml_timer_start` has two of them.  Two threads that start
one timer at the same time are not in the model: `ml_timer_start` writes the
timer's ticks outside the mutex.

The mutex keeps the list good in every reachable state (`timers_inv`).
-/

namespace Monolinux

open DeltaList hiding insert remove

variable {ι τ : Type*}

/-- Where the handler thread is in `tick`. -/
inductive HandlerPc (τ : Type*)
  | idle
  /-- at the head of the loop -/
  | firing
  /-- in the `ml_queue_put` of the message of `t` -/
  | putting (t : τ)
  deriving DecidableEq

/-- A message that is made but not yet in the queue. -/
def HandlerPc.message : HandlerPc τ → List τ
  | .putting t => [t]
  | _ => []

/-- The locked sections. -/
inductive TimerCall (τ : Type*)
  /-- `ml_timer_is_message_valid` -/
  | check (t : τ)
  /-- `ml_timer_stop` -/
  | stop (t : τ)
  /-- the `ml_timer_stop` that `ml_timer_start` begins with -/
  | start (t : τ) (initial rep : UInt32)
  /-- the rest of `ml_timer_start` -/
  | insert (t : τ) (initial rep : UInt32)
  deriving DecidableEq

namespace TimerCall

/-- The section that follows in the same call. -/
def rest : TimerCall τ → Option (TimerCall τ)
  | .start t initial rep => some (.insert t initial rep)
  | _ => none

/-- In `ml_timer_start` for `t`. -/
def Starts (t : τ) : TimerCall τ → Prop
  | .start u _ _ => u = t
  | .insert u _ _ => u = t
  | _ => False

end TimerCall

structure TimerState (ι τ : Type*) where
  handler : TimerHandler τ
  pc : HandlerPc τ
  queue : Queue τ
  /-- messages the consumer has got and not checked, oldest first -/
  received : List τ
  waiting : ι → Option (TimerCall τ)

inductive TimerLabel (ι τ : Type*)
  | tickBegin
  | expire (t : τ)
  | put (t : τ)
  | tickEnd
  | get
  /-- thread `i` calls, and waits for the mutex -/
  | call (i : ι) (c : TimerCall τ)
  /-- thread `i` takes the mutex and runs the section -/
  | locked (i : ι) (c : TimerCall τ)

variable [DecidableEq τ]

namespace TimerState

variable (s : TimerState ι τ)

/-- Thread `i` may call `c`. -/
def MayCall (consumer i : ι) : TimerCall τ → Prop
  | .check t => i = consumer ∧ s.received.head? = some t
  | .stop _ => True
  | .start t _ _ => ∀ j c, s.waiting j = some c → ¬ c.Starts t
  | .insert _ _ _ => False

/-- The section, in the order of `ml_timer.c`. -/
def runSection : TimerCall τ → TimerState ι τ
  | .check t => { s with handler := (s.handler.mlTimerIsMessageValid t).2, received := s.received.tail }
  | .stop t => { s with handler := s.handler.mlTimerHandlerTimerStop t }
  | .start t _ _ => { s with handler := s.handler.mlTimerHandlerTimerStop t }
  | .insert t initial rep => { s with handler := (s.handler.insertStarted t initial rep).getD s.handler }

def setWaiting [DecidableEq ι] (i : ι) (c : Option (TimerCall τ)) : TimerState ι τ :=
  { s with waiting := Function.update s.waiting i c }

/-- The consumer gets the oldest message. -/
def getMessage : TimerState ι τ :=
  { s with queue := s.queue.popMessage.2, received := s.received ++ s.queue.popMessage.1.toList }

def beginTick : TimerState ι τ :=
  match s.handler.list with
  | [] => s
  | _ => { s with handler := s.handler.decrementHead, pc := .firing }

/-- The put is done: the periodic timer goes back into the list. -/
def putMessage (t : τ) : TimerState ι τ :=
  { s with queue := s.queue.pushMessage t, handler := (s.handler.resetPeriodic t).getD s.handler, pc := .firing }

end TimerState

/-- `mem`: the memory the timers are in. -/
def timers [DecidableEq ι] (n : ℕ) (consumer : ι) (mem : τ → Timer) : System (TimerState ι τ) (TimerLabel ι τ) where
  start :=
    { handler := .mlTimerHandlerInit fun t => TimerHandler.mlTimerHandlerTimerInit (mem t)
      pc := .idle
      queue := .mlQueueInit n
      received := []
      waiting := fun _ => none }
  enabled
    | s, .tickBegin => s.pc = .idle
    | s, .expire t => s.pc = .firing ∧ s.handler.list.head? = some t ∧ (s.handler.timer t).delta = 0
    | s, .put t => s.pc = .putting t ∧ s.queue.isFull = false
    | s, .tickEnd => s.pc = .firing ∧ ∀ t, s.handler.list.head? = some t → (s.handler.timer t).delta ≠ 0
    | s, .get => s.waiting consumer = none ∧ s.queue.isEmpty = false
    | s, .call i c => s.waiting i = none ∧ s.MayCall consumer i c
    | s, .locked i c => s.pc = .idle ∧ s.waiting i = some c
  next
    | s, .tickBegin => s.beginTick
    | s, .expire t => { s with handler := s.handler.expire t, pc := .putting t }
    | s, .put t => s.putMessage t
    | s, .tickEnd => { s with pc := .idle }
    | s, .get => s.getMessage
    | s, .call i c => s.setWaiting i (some c)
    | s, .locked i c => (s.runSection c).setWaiting i c.rest

instance TimerCall.decidableStarts (t : τ) : ∀ c : TimerCall τ, Decidable (c.Starts t)
  | .start _ _ _ | .insert _ _ _ => inferInstanceAs (Decidable (_ = _))
  | .check _ | .stop _ => .isFalse id

instance TimerState.decidableMayCall [Fintype ι] [DecidableEq ι] (s : TimerState ι τ) (consumer i : ι) :
    ∀ c : TimerCall τ, Decidable (s.MayCall consumer i c)
  | .check _ => inferInstanceAs (Decidable (_ ∧ _))
  | .stop _ => .isTrue trivial
  | .start t _ _ => inferInstanceAs (Decidable (∀ j, ∀ c ∈ s.waiting j, ¬ c.Starts t))
  | .insert _ _ _ => .isFalse id

instance timers_decidableEnabled [Fintype ι] [DecidableEq ι] (n : ℕ) (consumer : ι) (mem : τ → Timer) (s : TimerState ι τ) :
    ∀ l : TimerLabel ι τ, Decidable ((timers n consumer mem).enabled s l)
  | .tickBegin => inferInstanceAs (Decidable (_ = _))
  | .expire _ => inferInstanceAs (Decidable (_ ∧ _ ∧ _))
  | .put _ | .get | .locked _ _ => inferInstanceAs (Decidable (_ ∧ _))
  | .tickEnd => inferInstanceAs (Decidable (_ ∧ ∀ t ∈ s.handler.list.head?, (s.handler.timer t).delta ≠ 0))
  | .call _ _ => inferInstanceAs (Decidable (_ ∧ TimerState.MayCall _ _ _ _))

/-! ## The list stays good -/

structure TimerState.Inv (n : ℕ) (s : TimerState ι τ) : Prop where
  ok : s.handler.Ok
  /-- the mutex is free only between ticks -/
  headPos : s.pc = .idle → HeadPos s.handler.deltas
  putting : ∀ t, s.pc = .putting t → t ∉ s.handler.list ∧ (s.handler.timer t).repeatTicks.toNat ≤ maxTicks
  queue : s.queue.Wf n
  inserting : ∀ i t initial rep, s.waiting i = some (.insert t initial rep) →
    t ∉ s.handler.list ∧ ∀ u, s.pc = .putting u → u ≠ t
  /-- one thread at a time starts a timer -/
  starts : ∀ i j c d t, s.waiting i = some c → s.waiting j = some d → c.Starts t → d.Starts t → i = j

section
variable {h h' : TimerHandler τ} {t u : τ}

omit [DecidableEq τ] in
theorem mem_list_of_insert {d : ℕ} (hd : h'.deltas = DeltaList.insert t d h.deltas) :
    u ∈ h'.list ↔ u = t ∨ u ∈ h.list := by
  rw [← keys_deltas, hd, mem_keys_insert, keys_deltas]

theorem list_of_remove (hd : h'.deltas = DeltaList.remove t h.deltas) : h'.list = h.list.erase t := by
  rw [← keys_deltas, hd, keys_remove, keys_deltas]

theorem list_mlTimerHandlerTimerStop (hok : h.Ok) (t : τ) : (h.mlTimerHandlerTimerStop t).list = h.list.erase t :=
  list_of_remove (mlTimerHandlerTimerStop_spec hok t).2.2

/-- A check changes the two counters and nothing else. -/
theorem mlTimerIsMessageValid_spec (h : TimerHandler τ) (t : τ) :
    (h.mlTimerIsMessageValid t).2.list = h.list ∧ (h.mlTimerIsMessageValid t).2.tailDelta = h.tailDelta ∧
      (∀ u, ((h.mlTimerIsMessageValid t).2.timer u).delta = (h.timer u).delta) ∧
      (∀ u, ((h.mlTimerIsMessageValid t).2.timer u).repeatTicks = (h.timer u).repeatTicks) ∧
      ∀ u, u ≠ t → (h.mlTimerIsMessageValid t).2.timer u = h.timer u := by
  unfold TimerHandler.mlTimerIsMessageValid
  dsimp only
  split
  all_goals
    refine ⟨rfl, rfl, fun u => ?_, fun u => ?_, fun u hu => Function.update_of_ne hu _ _⟩
    all_goals
      by_cases hu : u = t
      · subst hu; simp
      · simp [hu]

theorem mlTimerIsMessageValid_ok (hok : h.Ok) (t : τ) :
    (h.mlTimerIsMessageValid t).2.Ok ∧ (h.mlTimerIsMessageValid t).2.deltas = h.deltas := by
  obtain ⟨hlist, htail, hdelta, hrep, -⟩ := mlTimerIsMessageValid_spec h t
  have heq : (h.mlTimerIsMessageValid t).2 = { h with timer := (h.mlTimerIsMessageValid t).2.timer } := by
    rw [← hlist, ← htail]
  rw [heq]
  exact hok.congr (fun u _ => hdelta u) (fun u _ => hrep u)

end

theorem timers_start_inv [DecidableEq ι] (n : ℕ) (consumer : ι) (mem : τ → Timer) : (timers n consumer mem).start.Inv n where
  ok := (mlTimerHandlerInit_ready _).toOk
  headPos _ := trivial
  putting _ h := nomatch h
  queue := Queue.wf_init n
  inserting _ _ _ _ h := nomatch h
  starts _ _ _ _ _ h := nomatch h

section
variable {n : ℕ} {consumer : ι} {mem : τ → Timer} {s : TimerState ι τ}

/-- What the rest of `ml_timer_start` does in a good state. -/
theorem TimerState.Inv.insert_spec (h : s.Inv n) {i : ι} {t : τ} {initial rep : UInt32}
    (hw : s.waiting i = some (.insert t initial rep)) :
    ∃ h', s.handler.insertStarted t initial rep = some h' ∧ h'.Ok ∧
      SameRest (started s.handler.timer t initial rep) h'.timer ∧
      h'.deltas = DeltaList.insert t (ticks initial + 1) s.handler.deltas :=
  insertStarted_spec h.ok (h.inserting i t initial rep hw).1 initial rep

/-- What the end of a put does in a good state. -/
theorem TimerState.Inv.reset_spec (h : s.Inv n) {t : τ} (hp : s.pc = .putting t) :
    ∃ h', s.handler.resetPeriodic t = some h' ∧ h'.Ok ∧ SameRest s.handler.timer h'.timer ∧
      zeros h'.deltas = zeros s.handler.deltas ∧ ∀ u, u ∈ h'.list → u = t ∨ u ∈ s.handler.list := by
  obtain ⟨hnot, hrep⟩ := h.putting t hp
  obtain ⟨h', h1, hok, hsame, hz, -, hother⟩ := resetPeriodic_spec h.ok hnot hrep
  refine ⟨h', h1, hok, hsame, hz, fun u hu => ?_⟩
  by_cases hut : u = t
  · exact Or.inl hut
  · obtain ⟨r, hr⟩ := mem_list_iff.mp hu
    rw [hother u hut] at hr
    exact Or.inr (mem_list_iff.mpr ⟨r, hr⟩)

/-- A step of the handler thread: no thread's place changes. -/
theorem TimerState.Inv.handlerStep (h : s.Inv n) {s' : TimerState ι τ} (hw : s'.waiting = s.waiting)
    (hok : s'.handler.Ok) (hhead : s'.pc = .idle → HeadPos s'.handler.deltas)
    (hput : ∀ t, s'.pc = .putting t → t ∉ s'.handler.list ∧ (s'.handler.timer t).repeatTicks.toNat ≤ maxTicks)
    (hq : s'.queue.Wf n)
    (hlist : ∀ t, (t ∈ s'.handler.list ∨ s'.pc = .putting t) → t ∈ s.handler.list ∨ s.pc = .putting t) :
    s'.Inv n where
  ok := hok
  headPos := hhead
  putting := hput
  queue := hq
  inserting i t initial rep hi := by
    rw [hw] at hi
    obtain ⟨hnot, hne⟩ := h.inserting i t initial rep hi
    have hout : ¬ (t ∈ s.handler.list ∨ s.pc = .putting t) := by
      rintro (hm | hp)
      · exact hnot hm
      · exact hne t hp rfl
    refine ⟨fun hm => hout (hlist t (Or.inl hm)), fun u hu => ?_⟩
    rintro rfl
    exact hout (hlist u (Or.inr hu))
  starts := by rw [hw]; exact h.starts

theorem timers_inv_beginTick (h : s.Inv n) (hidle : s.pc = .idle) : s.beginTick.Inv n := by
  unfold TimerState.beginTick
  cases hl : s.handler.list with
  | nil => exact h
  | cons e rest =>
    obtain ⟨hok, -, hlist, -⟩ := decrementHead_spec ⟨h.ok, h.headPos hidle⟩
    refine h.handlerStep rfl hok nofun nofun h.queue fun t ht => ?_
    rcases ht with hm | hp
    · exact Or.inl (hlist ▸ hm)
    · cases hp

theorem timers_inv_expire (h : s.Inv n) {t : τ} (hhead : s.handler.list.head? = some t)
    (h0 : (s.handler.timer t).delta = 0) :
    TimerState.Inv n { s with handler := s.handler.expire t, pc := .putting t } := by
  obtain ⟨rest, hl⟩ := List.head?_eq_some_iff.mp hhead
  obtain ⟨hok, hnot, htimer, -⟩ := expire_spec h.ok hl h0
  have hmem : t ∈ s.handler.list := by rw [hl]; exact List.mem_cons_self
  refine h.handlerStep rfl hok nofun (fun u hu => ?_) h.queue fun u hu => ?_
  · cases hu
    refine ⟨hnot, ?_⟩
    show ((s.handler.expire t).timer t).repeatTicks.toNat ≤ maxTicks
    rw [htimer, expired, Function.update_self]
    exact h.ok.repeat_le t hmem
  · rcases hu with hm | hp
    · exact Or.inl (List.mem_of_mem_tail hm)
    · cases hp
      exact Or.inl hmem

theorem timers_inv_put (h : s.Inv n) {t : τ} (hp : s.pc = .putting t) (hf : s.queue.isFull = false) :
    (s.putMessage t).Inv n := by
  obtain ⟨h', h1, hok, -, -, hlist⟩ := h.reset_spec hp
  have hhandler : (s.putMessage t).handler = h' := by
    show (s.handler.resetPeriodic t).getD _ = _
    rw [h1]
    rfl
  refine h.handlerStep rfl (by rw [hhandler]; exact hok) nofun nofun (Queue.wf_push h.queue hf t) fun u hu => ?_
  rcases hu with hm | hp'
  · rw [hhandler] at hm
    rcases hlist u hm with rfl | hm
    · exact Or.inr hp
    · exact Or.inl hm
  · cases hp'

variable [DecidableEq ι]

omit [DecidableEq ι] [DecidableEq τ] in
theorem TimerCall.Starts.of_rest {c d : TimerCall τ} {t : τ} (hd : c.rest = some d) (h : d.Starts t) : c.Starts t := by
  cases c with
  | start u initial rep =>
    cases hd
    exact h
  | _ => cases hd

omit [DecidableEq τ] in
theorem setWaiting_self (s : TimerState ι τ) (i : ι) (c : Option (TimerCall τ)) :
    (s.setWaiting i c).waiting i = c := Function.update_self _ _ _

omit [DecidableEq τ] in
theorem setWaiting_of_ne (s : TimerState ι τ) {i j : ι} (h : j ≠ i) (c : Option (TimerCall τ)) :
    (s.setWaiting i c).waiting j = s.waiting j := Function.update_of_ne h _ _

theorem timers_inv_call (h : s.Inv n) {i : ι} {c : TimerCall τ} (hc : s.MayCall consumer i c) :
    (s.setWaiting i (some c)).Inv n := by
  -- a call begins no second start of a timer, and does not begin in the middle of one
  have hnew : ∀ j d t, j ≠ i → s.waiting j = some d → c.Starts t → ¬ d.Starts t := by
    intro j d t _ hj hct
    cases c with
    | start u initial rep =>
      cases hct
      exact hc j d hj
    | insert u initial rep => exact absurd hc id
    | _ => exact absurd hct id
  refine ⟨h.ok, h.headPos, h.putting, h.queue, fun j t initial rep hj => ?_, fun j k d e t hj hk hdt het => ?_⟩
  · by_cases hji : j = i
    · subst hji
      rw [setWaiting_self] at hj
      cases hj
      exact absurd hc id
    · rw [setWaiting_of_ne s hji] at hj
      exact h.inserting j t initial rep hj
  · by_cases hji : j = i <;> by_cases hki : k = i
    · rw [hji, hki]
    · subst hji
      rw [setWaiting_self] at hj
      rw [setWaiting_of_ne s hki] at hk
      cases hj
      exact absurd het (hnew k e t hki hk hdt)
    · subst hki
      rw [setWaiting_self] at hk
      rw [setWaiting_of_ne s hji] at hj
      cases hk
      exact absurd hdt (hnew j d t hji hj het)
    · rw [setWaiting_of_ne s hji] at hj
      rw [setWaiting_of_ne s hki] at hk
      exact h.starts j k d e t hj hk hdt het

/-- A locked section that is done. -/
theorem TimerState.Inv.userStep (h : s.Inv n) {i : ι} {c : TimerCall τ} (hidle : s.pc = .idle)
    (hw : s.waiting i = some c) {s' : TimerState ι τ} (hpc : s'.pc = s.pc) (hwaiting : s'.waiting = s.waiting)
    (hq : s'.queue = s.queue) (hok : s'.handler.Ok) (hhead : HeadPos s'.handler.deltas)
    (hother : ∀ j t initial rep, j ≠ i → s.waiting j = some (.insert t initial rep) → t ∉ s'.handler.list)
    (hrest : ∀ t initial rep, c.rest = some (.insert t initial rep) → t ∉ s'.handler.list) :
    (s'.setWaiting i c.rest).Inv n := by
  have hnot : s'.pc = .idle := hpc.trans hidle
  refine ⟨hok, fun _ => hhead, fun t ht => ?_, by show s'.queue.Wf n; rw [hq]; exact h.queue,
    fun j t initial rep hj => ⟨?_, fun u hu => ?_⟩, fun j k d e t hj hk hdt het => ?_⟩
  · exact nomatch hnot.symm.trans ht
  · by_cases hji : j = i
    · subst hji
      rw [setWaiting_self] at hj
      exact hrest t initial rep hj
    · rw [setWaiting_of_ne s' hji, hwaiting] at hj
      exact hother j t initial rep hji hj
  · exact nomatch hnot.symm.trans hu
  · -- the thread starts what it started before
    have hback : ∀ k e, (s'.setWaiting i c.rest).waiting k = some e → e.Starts t →
        ∃ e', s.waiting k = some e' ∧ e'.Starts t := by
      intro k e hk het
      by_cases hki : k = i
      · subst hki
        rw [setWaiting_self] at hk
        exact ⟨c, hw, het.of_rest hk⟩
      · rw [setWaiting_of_ne s' hki, hwaiting] at hk
        exact ⟨e, hk, het⟩
    obtain ⟨d', hj', hdt'⟩ := hback j d hj hdt
    obtain ⟨e', hk', het'⟩ := hback k e hk het
    exact h.starts j k d' e' t hj' hk' hdt' het'

theorem timers_inv_locked (h : s.Inv n) {i : ι} {c : TimerCall τ} (hidle : s.pc = .idle)
    (hw : s.waiting i = some c) : ((s.runSection c).setWaiting i c.rest).Inv n := by
  have hhead := h.headPos hidle
  have hold : ∀ j t initial rep, s.waiting j = some (.insert t initial rep) → t ∉ s.handler.list :=
    fun j t initial rep hj => (h.inserting j t initial rep hj).1
  cases c with
  | check t =>
    obtain ⟨hok, hdel⟩ := mlTimerIsMessageValid_ok h.ok t
    obtain ⟨hlist, -⟩ := mlTimerIsMessageValid_spec s.handler t
    refine h.userStep hidle hw rfl rfl rfl hok ?_ (fun j u a b _ hj => ?_) nofun
    · show HeadPos (s.handler.mlTimerIsMessageValid t).2.deltas
      rw [hdel]
      exact hhead
    · show u ∉ (s.handler.mlTimerIsMessageValid t).2.list
      rw [hlist]
      exact hold j u a b hj
  | stop t =>
    obtain ⟨hready, -, -⟩ := mlTimerHandlerTimerStop_remaining ⟨h.ok, hhead⟩ t
    refine h.userStep hidle hw rfl rfl rfl hready.toOk hready.head_pos (fun j u a b _ hj hm => ?_) nofun
    have hm' : u ∈ (s.handler.mlTimerHandlerTimerStop t).list := hm
    rw [list_mlTimerHandlerTimerStop h.ok] at hm'
    exact hold j u a b hj (List.mem_of_mem_erase hm')
  | start t initial rep =>
    obtain ⟨hready, -, -⟩ := mlTimerHandlerTimerStop_remaining ⟨h.ok, hhead⟩ t
    refine h.userStep hidle hw rfl rfl rfl hready.toOk hready.head_pos (fun j u a b _ hj hm => ?_) fun u a b hu => ?_
    · have hm' : u ∈ (s.handler.mlTimerHandlerTimerStop t).list := hm
      rw [list_mlTimerHandlerTimerStop h.ok] at hm'
      exact hold j u a b hj (List.mem_of_mem_erase hm')
    · cases hu
      exact not_mem_stop h.ok t
  | insert t initial rep =>
    obtain ⟨h', h1, hok, -, hdel⟩ := h.insert_spec hw
    have hhandler : (s.runSection (.insert t initial rep)).handler = h' := by
      show (s.handler.insertStarted t initial rep).getD _ = _
      rw [h1]
      rfl
    refine h.userStep hidle hw rfl rfl rfl (by rw [hhandler]; exact hok) ?_ (fun j u a b hji hj => ?_) nofun
    · rw [hhandler, hdel]
      exact hhead.insert (Nat.succ_pos _)
    · rw [hhandler, mem_list_of_insert hdel]
      rintro (rfl | hm)
      · exact hji (h.starts j i _ _ u hj hw rfl rfl)
      · exact hold j u a b hj hm

theorem timers_inv {tr : List (TimerLabel ι τ)} (h : (timers n consumer mem).Run tr s) : s.Inv n := by
  refine h.invariant (TimerState.Inv n) (timers_start_inv n consumer mem) fun s l hs he => ?_
  cases l with
  | tickBegin => exact timers_inv_beginTick hs he
  | expire t => exact timers_inv_expire hs he.2.1 he.2.2
  | put t => exact timers_inv_put hs he.1 he.2
  | tickEnd =>
    refine hs.handlerStep rfl hs.ok (fun _ => headPos_iff.mpr fun e rest hl => ?_) nofun hs.queue fun u hu => ?_
    · have hl' : s.handler.list = e :: rest := hl
      exact UInt32.pos_iff_ne_zero.mpr (he.2 e (by rw [hl']; rfl))
    · rcases hu with hm | hp
      · exact Or.inl hm
      · cases hp
  | get =>
    obtain ⟨m, -, -, hwf⟩ := Queue.popMessage_head hs.queue he.2
    exact ⟨hs.ok, hs.headPos, hs.putting, hwf, hs.inserting, hs.starts⟩
  | call i c => exact timers_inv_call hs he.2
  | locked i c => exact timers_inv_locked hs he.1 he.2

end

end Monolinux
