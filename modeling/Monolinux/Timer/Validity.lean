import Monolinux.Timer.System

/-!
# Stale expiry messages are recognised

An expiry message carries no mark that tells which start of its timer it belongs to.
`ml_timer_is_message_valid` tells from two counters whether the timer was stopped or
started after the message was made:

  messages are checked in the order they were made    (`timers_fifo`)
  the counters of a timer are those of `stale`        (`timers_stale`)
  what a check answers                                (`timer_message_validity`)
-/

namespace Monolinux

variable {ι τ : Type*}

namespace TimerLabel

/-- The label makes an expiry message. -/
def expired? : TimerLabel ι τ → Option τ
  | .expire t => some t
  | _ => none

/-- The label checks an expiry message. -/
def checked? : TimerLabel ι τ → Option τ
  | .locked _ (.check t) => some t
  | _ => none

/-- A locked section of `ml_timer_stop` or `ml_timer_start` for `t`. -/
def Cancels (t : τ) : TimerLabel ι τ → Prop
  | .locked _ (.stop u) => u = t
  | .locked _ (.start u _ _) => u = t
  | .locked _ (.insert u _ _) => u = t
  | _ => False

end TimerLabel

/-- The timers whose messages were made in `tr`, in that order. -/
def expiries (tr : List (TimerLabel ι τ)) : List τ := tr.filterMap TimerLabel.expired?

/-- The timers whose messages were checked in `tr`, in that order. -/
def checks (tr : List (TimerLabel ι τ)) : List τ := tr.filterMap TimerLabel.checked?

/-- Messages made but not checked, oldest first. -/
def TimerState.unchecked (s : TimerState ι τ) : List τ := s.received ++ s.queue.contents ++ s.pc.message

/-- A thread in `ml_timer_is_message_valid` is the consumer, with its oldest message. -/
def TimerState.Checking (consumer : ι) (s : TimerState ι τ) : Prop :=
  ∀ i t, s.waiting i = some (.check t) → i = consumer ∧ s.received.head? = some t

theorem filterMap_singleton {α β : Type*} (f : α → Option β) (a : α) : [a].filterMap f = (f a).toList := by
  cases h : f a <;> simp [h]

variable [DecidableEq τ] [DecidableEq ι]
variable {n : ℕ} {consumer : ι} {mem : τ → Timer} {tr : List (TimerLabel ι τ)} {s : TimerState ι τ}

/-! ## The order of messages -/

omit [DecidableEq ι] in
theorem beginTick_frame (s : TimerState ι τ) :
    s.beginTick.waiting = s.waiting ∧ s.beginTick.received = s.received ∧ s.beginTick.queue = s.queue ∧
      (s.pc = .idle → s.beginTick.pc.message = s.pc.message) := by
  unfold TimerState.beginTick
  split
  · exact ⟨rfl, rfl, rfl, fun _ => rfl⟩
  · exact ⟨rfl, rfl, rfl, fun h => by rw [h]; rfl⟩

theorem timers_checking (h : (timers n consumer mem).Run tr s) : s.Checking consumer := by
  refine h.invariant (TimerState.Checking consumer) nofun fun s l hs he => ?_
  cases l with
  | tickBegin =>
    obtain ⟨hw, hr, -, -⟩ := beginTick_frame s
    intro i t hi
    show i = consumer ∧ s.beginTick.received.head? = some t
    rw [hr]
    exact hs i t (hw ▸ hi)
  | expire t => exact hs
  | put t => exact hs
  | tickEnd => exact hs
  | get =>
    intro i t hi
    obtain ⟨rfl, -⟩ := hs i t hi
    have hnone : s.waiting i = none := he.1
    exact absurd hi (by show s.waiting i ≠ _; rw [hnone]; exact nofun)
  | call i c =>
    intro j t hj
    have hj' : (s.setWaiting i (some c)).waiting j = some (.check t) := hj
    by_cases hji : j = i
    · subst hji
      rw [setWaiting_self] at hj'
      cases hj'
      exact he.2
    · rw [setWaiting_of_ne s hji] at hj'
      exact hs j t hj'
  | locked i c =>
    intro j t hj
    have hj' : ((s.runSection c).setWaiting i c.rest).waiting j = some (.check t) := hj
    by_cases hji : j = i
    · subst hji
      rw [setWaiting_self] at hj'
      cases c <;> cases hj'
    · rw [setWaiting_of_ne _ hji] at hj'
      -- only the consumer takes a message off the list of those it has received
      cases c with
      | check u => exact absurd ((hs j t hj').1.trans (hs i u he.2).1.symm) hji
      | _ => exact hs j t hj'

/-- What a step does to the messages that are not checked yet. -/
theorem unchecked_next (hinv : s.Inv n) (hc : s.Checking consumer) {l : TimerLabel ι τ}
    (he : (timers n consumer mem).enabled s l) :
    s.unchecked ++ l.expired?.toList = l.checked?.toList ++ ((timers n consumer mem).next s l).unchecked := by
  cases l with
  | tickBegin =>
    obtain ⟨-, hr, hq, hm⟩ := beginTick_frame s
    show s.unchecked ++ [] = [] ++ (s.beginTick).unchecked
    unfold TimerState.unchecked
    rw [hr, hq, hm he, List.append_nil, List.nil_append]
  | expire t =>
    obtain ⟨hpc, -, -⟩ := he
    show s.received ++ s.queue.contents ++ s.pc.message ++ [t] = [] ++ (s.received ++ s.queue.contents ++ [t])
    rw [hpc]
    simp [HandlerPc.message]
  | put t =>
    obtain ⟨hpc, hf⟩ := he
    show s.received ++ s.queue.contents ++ s.pc.message ++ [] =
      [] ++ (s.received ++ (s.queue.pushMessage t).contents ++ [])
    rw [hpc, Queue.contents_push hinv.queue hf]
    simp [HandlerPc.message]
  | tickEnd =>
    obtain ⟨hpc, -⟩ := he
    show s.received ++ s.queue.contents ++ s.pc.message ++ [] = [] ++ (s.received ++ s.queue.contents ++ [])
    rw [hpc]
    simp [HandlerPc.message]
  | get =>
    obtain ⟨m, hm, hcont, -⟩ := Queue.popMessage_head hinv.queue he.2
    show s.received ++ s.queue.contents ++ s.pc.message ++ [] =
      [] ++ (s.received ++ s.queue.popMessage.1.toList ++ s.queue.popMessage.2.contents ++ s.pc.message)
    rw [hm, hcont]
    simp
  | call i c =>
    show s.unchecked ++ [] = [] ++ s.unchecked
    rw [List.append_nil, List.nil_append]
  | locked i c =>
    cases c with
    | check t =>
      obtain ⟨rest, hr⟩ := List.head?_eq_some_iff.mp (hc i t he.2).2
      show s.received ++ s.queue.contents ++ s.pc.message ++ [] =
        [t] ++ (s.received.tail ++ s.queue.contents ++ s.pc.message)
      rw [hr]
      simp
    | _ =>
      show s.unchecked ++ [] = [] ++ s.unchecked
      rw [List.append_nil, List.nil_append]

/-- **Messages are checked in the order they were made**, and none is lost. -/
theorem timers_fifo (h : (timers n consumer mem).Run tr s) : expiries tr = checks tr ++ s.unchecked := by
  refine h.invariantOn (fun tr s => expiries tr = checks tr ++ s.unchecked)
    (by show [] = [] ++ ([] ++ (Queue.mlQueueInit n).contents ++ []); simp) fun tr s l hr ih he => ?_
  have hstep := unchecked_next (timers_inv hr) (timers_checking hr) he
  unfold expiries checks at *
  rw [List.filterMap_append, List.filterMap_append, ih]
  rw [filterMap_singleton, filterMap_singleton, List.append_assoc, hstep, List.append_assoc]

/-! ## The counters -/

/-- What the label is for the counters of `t`. -/
def TimerLabel.stale? (t : τ) : TimerLabel ι τ → Option StaleEvent
  | .expire u => if u = t then some .made else none
  | .locked _ (.check u) => if u = t then some .checked else none
  | .locked _ (.stop u) | .locked _ (.start u _ _) | .locked _ (.insert u _ _) => if u = t then some .cancelled else none
  | _ => none

/-- The record's counters are `c`. -/
def Timer.Counts (r : Timer) (c : StaleCounters) : Prop :=
  r.numberOfOutstandingTimeouts = c.outstanding ∧ r.numberOfTimeoutsToIgnore = c.toIgnore

theorem Timer.Counts.congr {r r' : Timer} {c : StaleCounters} (h : r.Counts c)
    (ho : r'.numberOfOutstandingTimeouts = r.numberOfOutstandingTimeouts)
    (hi : r'.numberOfTimeoutsToIgnore = r.numberOfTimeoutsToIgnore) : r'.Counts c :=
  ⟨ho.trans h.1, hi.trans h.2⟩

omit [DecidableEq τ] in
theorem SameRest.counts {f f' : τ → Timer} (h : SameRest f f') {t : τ} {c : StaleCounters} (hc : (f t).Counts c) :
    (f' t).Counts c := hc.congr (h.outstanding t) (h.toIgnore t)

theorem counts_expired {f : τ → Timer} {t : τ} {c : StaleCounters} (hc : (f t).Counts c) :
    (expired f t t).Counts ⟨c.outstanding + 1, c.toIgnore⟩ := by
  unfold expired
  rw [Function.update_self]
  refine ⟨?_, hc.2⟩
  show (f t).numberOfOutstandingTimeouts + 1 = ((c.outstanding + 1 : ℕ) : ℤ)
  rw [hc.1]
  rfl

theorem counts_stopped {f : τ → Timer} {t : τ} {c : StaleCounters} (hc : (f t).Counts c) :
    (stopped f t t).Counts ⟨c.outstanding, c.outstanding⟩ := by
  unfold stopped
  rw [Function.update_self]
  exact ⟨hc.1, hc.1⟩

theorem counts_check {h : TimerHandler τ} {t : τ} {c : StaleCounters} (hc : (h.timer t).Counts c)
    (hpos : 0 < c.outstanding) :
    ((h.mlTimerIsMessageValid t).2.timer t).Counts ⟨c.outstanding - 1, c.toIgnore - 1⟩ ∧
      ((h.mlTimerIsMessageValid t).1 = true ↔ c.toIgnore = 0) := by
  obtain ⟨ho, hi⟩ := hc
  unfold TimerHandler.mlTimerIsMessageValid Timer.Counts
  dsimp only
  by_cases h0 : 0 < (h.timer t).numberOfTimeoutsToIgnore
  · rw [if_pos h0]
    dsimp only
    rw [Function.update_self]
    refine ⟨⟨?_, ?_⟩, ?_⟩
    · show (h.timer t).numberOfOutstandingTimeouts - 1 = ((c.outstanding - 1 : ℕ) : ℤ)
      omega
    · show (h.timer t).numberOfTimeoutsToIgnore - 1 = ((c.toIgnore - 1 : ℕ) : ℤ)
      omega
    · constructor
      · exact nofun
      · intro hz
        omega
  · rw [if_neg h0]
    dsimp only
    rw [Function.update_self]
    refine ⟨⟨?_, ?_⟩, ?_⟩
    · show (h.timer t).numberOfOutstandingTimeouts - 1 = ((c.outstanding - 1 : ℕ) : ℤ)
      omega
    · show (h.timer t).numberOfTimeoutsToIgnore = ((c.toIgnore - 1 : ℕ) : ℤ)
      omega
    · constructor
      · intro _
        omega
      · exact fun _ => rfl

/-- The state keeps the counters `c` for `t`. -/
structure TimerState.Counts (s : TimerState ι τ) (t : τ) (c : StaleCounters) : Prop where
  timer : (s.handler.timer t).Counts c
  unchecked : s.unchecked.count t = c.outstanding
  /-- no message is fresh in the middle of a start -/
  inserting : ∀ i initial rep, s.waiting i = some (.insert t initial rep) → c.toIgnore = c.outstanding

/-- The records of the timers that the label is not about keep their counters. -/
theorem counts_other (hinv : s.Inv n) {l : TimerLabel ι τ} (he : (timers n consumer mem).enabled s l) {t : τ}
    {c : StaleCounters} (hl : l.stale? t = none) (hc : (s.handler.timer t).Counts c) :
    (((timers n consumer mem).next s l).handler.timer t).Counts c := by
  cases l with
  | tickBegin =>
    show (s.beginTick.handler.timer t).Counts c
    unfold TimerState.beginTick
    split
    · exact hc
    · exact (decrementHead_spec ⟨hinv.ok, hinv.headPos he⟩).2.1.counts hc
  | expire u =>
    have hut : t ≠ u := by
      rintro rfl
      simp [TimerLabel.stale?] at hl
    show (expired s.handler.timer u t).Counts c
    rw [expired, Function.update_of_ne hut]
    exact hc
  | put u =>
    obtain ⟨h', h1, -, hsame, -⟩ := hinv.reset_spec he.1
    show (((s.handler.resetPeriodic u).getD s.handler).timer t).Counts c
    rw [h1]
    exact hsame.counts hc
  | tickEnd => exact hc
  | get => exact hc
  | call i d => exact hc
  | locked i d =>
    cases d with
    | check u =>
      have hut : t ≠ u := by
        rintro rfl
        simp [TimerLabel.stale?] at hl
      show ((s.handler.mlTimerIsMessageValid u).2.timer t).Counts c
      rw [(mlTimerIsMessageValid_spec s.handler u).2.2.2.2 t hut]
      exact hc
    | stop u | start u initial rep =>
      have hut : t ≠ u := by
        rintro rfl
        simp [TimerLabel.stale?] at hl
      show ((s.handler.mlTimerHandlerTimerStop u).timer t).Counts c
      apply (mlTimerHandlerTimerStop_spec hinv.ok u).2.1.counts
      rw [stopped, Function.update_of_ne hut]
      exact hc
    | insert u initial rep =>
      have hut : t ≠ u := by
        rintro rfl
        simp [TimerLabel.stale?] at hl
      obtain ⟨h', h1, -, hsame, -⟩ := hinv.insert_spec he.2
      show (((s.handler.insertStarted u initial rep).getD s.handler).timer t).Counts c
      rw [h1]
      apply hsame.counts
      rw [started, Function.update_of_ne hut]
      exact hc

/-- The counters of the timer that the label is about. -/
theorem counts_self (hinv : s.Inv n) {l : TimerLabel ι τ} (he : (timers n consumer mem).enabled s l) {t : τ}
    {c : StaleCounters} {e : StaleEvent} (hl : l.stale? t = some e) (hs : s.Counts t c) (hen : stale.enabled c e) :
    (((timers n consumer mem).next s l).handler.timer t).Counts (stale.next c e) := by
  have hc := hs.timer
  cases l with
  | expire u =>
    by_cases hut : u = t
    · subst hut
      obtain rfl : StaleEvent.made = e := by simpa [TimerLabel.stale?] using hl
      exact counts_expired hc
    · simp [TimerLabel.stale?, hut] at hl
  | locked i d =>
    cases d with
    | check u =>
      by_cases hut : u = t
      · subst hut
        obtain rfl : StaleEvent.checked = e := by simpa [TimerLabel.stale?] using hl
        exact (counts_check hc hen).1
      · simp [TimerLabel.stale?, hut] at hl
    | stop u | start u initial rep =>
      by_cases hut : u = t
      · subst hut
        obtain rfl : StaleEvent.cancelled = e := by simpa [TimerLabel.stale?] using hl
        exact (mlTimerHandlerTimerStop_spec hinv.ok u).2.1.counts (counts_stopped hc)
      · simp [TimerLabel.stale?, hut] at hl
    | insert u initial rep =>
      by_cases hut : u = t
      · subst hut
        obtain rfl : StaleEvent.cancelled = e := by simpa [TimerLabel.stale?] using hl
        -- the section before has cancelled all messages already
        have hall := hs.inserting i initial rep he.2
        obtain ⟨h', h1, -, hsame, -⟩ := hinv.insert_spec he.2
        show (((s.handler.insertStarted u initial rep).getD s.handler).timer u).Counts ⟨c.outstanding, c.outstanding⟩
        rw [h1]
        apply hsame.counts
        rw [started, Function.update_self]
        exact ⟨hc.1, hc.2.trans (by rw [hall])⟩
      · simp [TimerLabel.stale?, hut] at hl
  | _ => cases hl

omit [DecidableEq ι] in
/-- A check is about a message that is on its way. -/
theorem outstanding_pos (hc : s.Checking consumer) {i : ι} {t : τ} (hw : s.waiting i = some (.check t))
    {c : StaleCounters} (hs : s.Counts t c) : 0 < c.outstanding := by
  obtain ⟨rest, hr⟩ := List.head?_eq_some_iff.mp (hc i t hw).2
  have hmem : t ∈ s.unchecked := by
    unfold TimerState.unchecked
    rw [hr]
    simp
  rw [← hs.unchecked]
  exact List.count_pos_iff.mpr hmem

theorem stale_enabled (hc : s.Checking consumer) {l : TimerLabel ι τ} (he : (timers n consumer mem).enabled s l) {t : τ}
    {c : StaleCounters} {e : StaleEvent} (hl : l.stale? t = some e) (hs : s.Counts t c) : stale.enabled c e := by
  cases e with
  | made => exact trivial
  | cancelled => exact trivial
  | checked =>
    cases l with
    | locked i d =>
      cases d with
      | check u =>
        obtain rfl : u = t := by
          by_contra hut
          simp [TimerLabel.stale?, hut] at hl
        exact outstanding_pos hc he.2 hs
      | _ => simp [TimerLabel.stale?] at hl
    | _ => simp [TimerLabel.stale?] at hl

/-- A start that is about to insert `t` was there before the step, or it is the step. -/
theorem inserting_next {l : TimerLabel ι τ} (he : (timers n consumer mem).enabled s l) {i : ι} {t : τ}
    {initial rep : UInt32} (hw : ((timers n consumer mem).next s l).waiting i = some (.insert t initial rep)) :
    s.waiting i = some (.insert t initial rep) ∨ l = .locked i (.start t initial rep) := by
  cases l with
  | tickBegin =>
    have hw' : s.beginTick.waiting i = some (.insert t initial rep) := hw
    rw [(beginTick_frame s).1] at hw'
    exact Or.inl hw'
  | call j d =>
    have hw' : (s.setWaiting j (some d)).waiting i = some (.insert t initial rep) := hw
    by_cases hij : i = j
    · subst hij
      rw [setWaiting_self] at hw'
      cases hw'
      exact absurd he.2 id
    · rw [setWaiting_of_ne s hij] at hw'
      exact Or.inl hw'
  | locked j d =>
    have hw' : ((s.runSection d).setWaiting j d.rest).waiting i = some (.insert t initial rep) := hw
    by_cases hij : i = j
    · subst hij
      rw [setWaiting_self] at hw'
      cases d with
      | start u a b =>
        cases hw'
        exact Or.inr rfl
      | _ => cases hw'
    · rw [setWaiting_of_ne _ hij] at hw'
      cases d <;> exact Or.inl hw'
  | _ => exact Or.inl hw

omit [DecidableEq ι] in
theorem count_expired? (l : TimerLabel ι τ) (t : τ) :
    l.expired?.toList.count t = (l.stale? t).toList.count .made := by
  rcases l with _ | u | _ | _ | _ | _ | ⟨i, u | u | u | u⟩
  all_goals
    first
    | rfl
    | by_cases h : u = t <;> simp [TimerLabel.expired?, TimerLabel.stale?, h]

omit [DecidableEq ι] in
theorem count_checked? (l : TimerLabel ι τ) (t : τ) :
    l.checked?.toList.count t = (l.stale? t).toList.count .checked := by
  rcases l with _ | u | _ | _ | _ | _ | ⟨i, u | u | u | u⟩
  all_goals
    first
    | rfl
    | by_cases h : u = t <;> simp [TimerLabel.checked?, TimerLabel.stale?, h]

/-- **One step** of the system is a step of the counters of `t`, or does not concern them. -/
theorem counts_next (hinv : s.Inv n) (hch : s.Checking consumer) {l : TimerLabel ι τ}
    (he : (timers n consumer mem).enabled s l) {t : τ} {c : StaleCounters} (hs : s.Counts t c) :
    match l.stale? t with
    | none => ((timers n consumer mem).next s l).Counts t c
    | some e => stale.enabled c e ∧ ((timers n consumer mem).next s l).Counts t (stale.next c e) := by
  have hcount := congrArg (List.count t) (unchecked_next hinv hch he)
  rw [List.count_append, List.count_append, count_expired?, count_checked?, hs.unchecked] at hcount
  cases hl : l.stale? t with
  | none =>
    rw [hl] at hcount
    refine ⟨counts_other hinv he hl hs.timer, by simpa using hcount.symm, fun i a b hw => ?_⟩
    rcases inserting_next he hw with h | rfl
    · exact hs.inserting i a b h
    · simp [TimerLabel.stale?] at hl
  | some e =>
    rw [hl] at hcount
    have hen := stale_enabled hch he hl hs
    refine ⟨hen, counts_self hinv he hl hs hen, ?_, fun i a b hw => ?_⟩
    · cases e with
      | made => simpa [stale] using hcount.symm
      | cancelled => simpa [stale] using hcount.symm
      | checked =>
        simp only [Option.toList_some, List.count_singleton_self, stale] at hcount ⊢
        simp at hcount
        omega
    · cases e with
      | cancelled => rfl
      | made =>
        -- the timer is not in the list in the middle of a start
        cases l with
        | expire u =>
          obtain rfl : u = t := by
            by_contra hut
            simp [TimerLabel.stale?, hut] at hl
          rcases inserting_next he hw with h | h
          · obtain ⟨rest, hlist⟩ := List.head?_eq_some_iff.mp he.2.1
            exact absurd (by rw [hlist]; exact List.mem_cons_self) (hinv.inserting i u a b h).1
          · cases h
        | locked j d => cases d <;> simp [TimerLabel.stale?] at hl
        | _ => simp [TimerLabel.stale?] at hl
      | checked =>
        rcases inserting_next he hw with h | rfl
        · have := hs.inserting i a b h
          show c.toIgnore - 1 = c.outstanding - 1
          rw [this]
        · simp [TimerLabel.stale?] at hl

/-- **The counters of a timer** are those of `stale`. -/
theorem timers_stale (h : (timers n consumer mem).Run tr s) (t : τ) :
    ∃ c, stale.Run (tr.filterMap (TimerLabel.stale? t)) c ∧ s.Counts t c := by
  refine h.refines (A := stale) (fun s c => s.Counts t c) (TimerLabel.stale? t) ⟨⟨rfl, rfl⟩, ?_, nofun⟩
    fun tr s c l hr hs he => ?_
  · have hn := counts_next (timers_inv hr) (timers_checking hr) he hs
    cases hl : l.stale? t <;> rw [hl] at hn <;> exact hn
  · show ([] ++ (Queue.mlQueueInit n).contents ++ []).count t = 0
    simp

/-! ## What a check answers -/

omit [DecidableEq ι] in
theorem count_expiries (tr : List (TimerLabel ι τ)) (t : τ) :
    (expiries tr).count t = (tr.filterMap (TimerLabel.stale? t)).count .made := by
  unfold expiries
  induction tr using List.reverseRecOn with
  | nil => rfl
  | append_singleton tr l ih =>
    rw [List.filterMap_append, List.filterMap_append, List.count_append, List.count_append, ih, filterMap_singleton,
      filterMap_singleton, count_expired?]

omit [DecidableEq ι] in
theorem count_checks (tr : List (TimerLabel ι τ)) (t : τ) :
    (checks tr).count t = (tr.filterMap (TimerLabel.stale? t)).count .checked := by
  unfold checks
  induction tr using List.reverseRecOn with
  | nil => rfl
  | append_singleton tr l ih =>
    rw [List.filterMap_append, List.filterMap_append, List.count_append, List.count_append, ih, filterMap_singleton,
      filterMap_singleton, count_checked?]

omit [DecidableEq ι] in
theorem eq_expire_of_made {l : TimerLabel ι τ} {t : τ} (h : l.stale? t = some .made) : l = .expire t := by
  rcases l with _ | u | _ | _ | _ | _ | ⟨i, u | u | u | u⟩
  all_goals simp [TimerLabel.stale?] at h
  rw [h]

omit [DecidableEq ι] in
theorem cancelled_mem {tr : List (TimerLabel ι τ)} {t : τ} :
    .cancelled ∈ tr.filterMap (TimerLabel.stale? t) ↔ ∃ l ∈ tr, l.Cancels t := by
  have hone : ∀ l : TimerLabel ι τ, l.stale? t = some .cancelled ↔ l.Cancels t := by
    intro l
    rcases l with _ | u | _ | _ | _ | _ | ⟨i, u | u | u | u⟩ <;> simp [TimerLabel.stale?, TimerLabel.Cancels]
  simp only [List.mem_filterMap, hone]

/-- **Stale expiry messages are always recognised.**  In every run, messages are checked in the
order they were made, and for each timer the counters count its messages on the way.  A check of a
message of `t` is the `k`-th one of `t` if the message is the `k`-th one made (`tr₁` is the run up to
its tick), and answers whether `t` was neither stopped nor started since (`tr₂`).  No two threads start one
timer at the same time (`TimerState.MayCall`). -/
theorem timer_message_validity (h : (timers n consumer mem).Run tr s) (t : τ) :
    expiries tr = checks tr ++ s.unchecked ∧
      0 ≤ (s.handler.timer t).numberOfTimeoutsToIgnore ∧
      (s.handler.timer t).numberOfTimeoutsToIgnore ≤ (s.handler.timer t).numberOfOutstandingTimeouts ∧
      (s.handler.timer t).numberOfOutstandingTimeouts = (expiries tr).count t - (checks tr).count t ∧
      ∀ i, (timers n consumer mem).enabled s (.locked i (.check t)) →
        ∃ tr₁ tr₂, tr = tr₁ ++ .expire t :: tr₂ ∧ (expiries tr₁).count t = (checks tr).count t ∧
          ((s.handler.mlTimerIsMessageValid t).1 = true ↔ ∀ l ∈ tr₂, ¬ l.Cancels t) := by
  have hfifo := timers_fifo h
  obtain ⟨c, hrun, hs⟩ := timers_stale h t
  obtain ⟨hle, -, -⟩ := stale_run hrun
  obtain ⟨ho, hi⟩ := hs.timer
  have hcount := congrArg (List.count t) hfifo
  rw [List.count_append, hs.unchecked] at hcount
  refine ⟨hfifo, by omega, by omega, by omega, fun i he => ?_⟩
  have hpos := outstanding_pos (timers_checking h) he.2 hs
  obtain ⟨es₁, es₂, hes, hmade, hvalid⟩ := stale_check hrun hpos
  -- the message's tick, in the run itself
  obtain ⟨l₁, l₂, rfl, rfl, hl₂⟩ := List.filterMap_eq_append_iff.mp hes
  obtain ⟨m, l, tr₂, rfl, hm, hl, rfl⟩ := List.filterMap_eq_cons_iff.mp hl₂
  obtain rfl := eq_expire_of_made hl
  have hm' : m.filterMap (TimerLabel.stale? t) = [] := List.filterMap_eq_nil_iff.mpr hm
  refine ⟨l₁ ++ m, tr₂, by rw [List.append_assoc], ?_, ?_⟩
  · rw [count_expiries, count_checks, List.filterMap_append, hm', List.append_nil]
    exact hmade
  · rw [(counts_check hs.timer hpos).2, hvalid, cancelled_mem]
    push Not
    rfl

/-- One timer, one thread, and a queue for one message. -/
def oneTimer : System (TimerState Unit Unit) (TimerLabel Unit Unit) := timers 1 () fun _ => ⟨0, 0, 0, 0, 0⟩

/-- The timer is started with a period of one tick, fires, and the thread gets its message. -/
def untilGet : List (TimerLabel Unit Unit) :=
  [.call () (.start () 0 100), .locked () (.start () 0 100), .locked () (.insert () 0 100), .tickBegin, .expire (),
    .put (), .tickEnd, .get]

theorem untilGet_run : oneTimer.Run untilGet (untilGet.foldl oneTimer.next oneTimer.start) := by
  have hstart : oneTimer.enabled oneTimer.start (.call () (.start () 0 100)) := ⟨rfl, nofun⟩
  apply System.Path.run
  exact .cons _ hstart (.cons _ ⟨rfl, rfl⟩ (.cons _ ⟨rfl, rfl⟩ (.cons _ rfl (.cons _ ⟨rfl, rfl, rfl⟩ (.cons _ ⟨rfl, rfl⟩
    (.cons _ ⟨rfl, fun t _ => by cases t; decide⟩ (.cons _ ⟨rfl, rfl⟩ (.nil _))))))))

/-- One timer, two threads, and a queue for two messages; `true` is the consumer. -/
abbrev twoThreads : System (TimerState Bool Unit) (TimerLabel Bool Unit) := timers 2 true fun _ => ⟨0, 0, 0, 0, 0⟩

/-- The thread `false` starts the timer, and starts it again when its first message is in the queue.  The consumer
gets this message and the next one, and asks for the first one whether it is valid. -/
def startedAgain : List (TimerLabel Bool Unit) :=
  [.call false (.start () 0 100), .locked false (.start () 0 100), .locked false (.insert () 0 100), .tickBegin,
    .expire (), .put (), .tickEnd, .call false (.start () 0 100), .locked false (.start () 0 100),
    .locked false (.insert () 0 100), .tickBegin, .expire (), .put (), .tickEnd, .get, .get, .call true (.check ())]

/-- The first message is not valid, and the second one is. -/
theorem timer_message_validity_one :
    (∃ s tr₁ tr₂, twoThreads.Run startedAgain s ∧ (s.handler.mlTimerIsMessageValid ()).1 = false ∧
      startedAgain = tr₁ ++ .expire () :: tr₂ ∧ (expiries tr₁).count () = 0 ∧ ∃ l ∈ tr₂, l.Cancels ()) ∧
    ∃ tr s tr₁ tr₂, tr = startedAgain ++ [.locked true (.check ()), .call true (.check ())] ∧ twoThreads.Run tr s ∧
      (s.handler.mlTimerIsMessageValid ()).1 = true ∧ tr = tr₁ ++ .expire () :: tr₂ ∧ (expiries tr₁).count () = 1 ∧
      ∀ l ∈ tr₂, ¬ l.Cancels () := by
  constructor
  · have hrun : twoThreads.Run startedAgain (startedAgain.foldl twoThreads.next twoThreads.start) :=
      (System.path_of_runs (by decide +kernel)).run
    have hinvalid : ((startedAgain.foldl twoThreads.next twoThreads.start).handler.mlTimerIsMessageValid ()).1 = false := by
      decide +kernel
    obtain ⟨-, -, -, -, hcheck⟩ := timer_message_validity hrun ()
    obtain ⟨tr₁, tr₂, htr, hcount, hvalid⟩ := hcheck true (by decide +kernel)
    refine ⟨_, tr₁, tr₂, hrun, hinvalid, htr, hcount.trans (by decide), ?_⟩
    by_contra hnone
    push Not at hnone
    exact absurd (hinvalid.symm.trans (hvalid.mpr hnone)) nofun
  · have hrun : twoThreads.Run (startedAgain ++ [.locked true (.check ()), .call true (.check ())]) _ :=
      (System.path_of_runs (by decide +kernel)).run
    obtain ⟨-, -, -, -, hcheck⟩ := timer_message_validity hrun ()
    obtain ⟨tr₁, tr₂, htr, hcount, hvalid⟩ := hcheck true (by decide +kernel)
    exact ⟨_, _, tr₁, tr₂, rfl, hrun, by decide +kernel, htr, hcount.trans (by decide), hvalid.mp (by decide +kernel)⟩

end Monolinux
