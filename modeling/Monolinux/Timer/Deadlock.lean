import Monolinux.Timer.Validity

/-!
# The put in `tick` and the mutex

`tick` puts the messages of the expired timers while it holds the mutex of the handler.
If the queue is full it waits for the consumer; a consumer that waits for the mutex
then waits for the tick.

`HasRoom` is the condition that keeps the two apart: a tick that is in progress while
the consumer waits for the mutex has room in the queue for all it still has to put.
Without a step that breaks it there is no deadlock, and every step that breaks it can
end in one (`tick_put_deadlock`).
-/

namespace Monolinux

open DeltaList hiding insert remove

variable {ι τ : Type*} [DecidableEq τ]

namespace TimerState

variable (s : TimerState ι τ)

/-- The handler thread waits for room in the queue, with the mutex, and the consumer for the mutex. -/
def Deadlock (consumer : ι) : Prop :=
  (∃ t, s.pc = .putting t) ∧ s.queue.isFull = true ∧ s.waiting consumer ≠ none

/-- Messages that the tick in progress has still to put. -/
def toPut : ℕ := s.pc.message.length + zeros s.handler.deltas

/-- A tick and a consumer that waits for the mutex meet only if the queue, for `n` messages, has room
for the rest of the tick. -/
def HasRoom (n : ℕ) (consumer : ι) (s : TimerState ι τ) : TimerLabel ι τ → Prop
  | .call i _ => i = consumer → s.pc ≠ .idle → s.toPut + s.queue.contents.length ≤ n
  | .tickBegin =>
    s.waiting consumer ≠ none → zeros s.handler.decrementHead.deltas + s.queue.contents.length ≤ n
  | _ => True

instance hasRoom_decidable (n : ℕ) [DecidableEq ι] (consumer : ι) (s : TimerState ι τ) :
    ∀ l : TimerLabel ι τ, Decidable (s.HasRoom n consumer l)
  | .call _ _ => inferInstanceAs (Decidable (_ = _ → _ ≠ _ → _ ≤ _))
  | .tickBegin => inferInstanceAs (Decidable (_ ≠ none → _ ≤ _))
  | .expire _ | .put _ | .tickEnd | .get | .locked _ _ => .isTrue trivial

/-- The invariant behind `HasRoom`. -/
def Room (n : ℕ) (consumer : ι) : Prop :=
  s.waiting consumer ≠ none → s.pc ≠ .idle → s.toPut + s.queue.contents.length ≤ n

end TimerState

section
variable {s : TimerState ι τ} {n : ℕ} {consumer : ι}

theorem not_deadlock_of_room (hinv : s.Inv n) (h : s.Room n consumer) : ¬ s.Deadlock consumer := by
  rintro ⟨⟨t, hp⟩, hfull, hw⟩
  have hle := h hw (by rw [hp]; exact nofun)
  have hlen := (Queue.isFull_iff hinv.queue).mp hfull
  unfold TimerState.toPut at hle
  rw [hp] at hle
  simp only [HandlerPc.message, List.length_singleton] at hle
  omega

/-- A timer that expires stays to be put. -/
theorem toPut_expire (hinv : s.Inv n) (hpc : s.pc = .firing) {t : τ} (hhead : s.handler.list.head? = some t)
    (h0 : (s.handler.timer t).delta = 0) :
    TimerState.toPut { s with handler := s.handler.expire t, pc := .putting t } = s.toPut := by
  obtain ⟨rest, hl⟩ := List.head?_eq_some_iff.mp hhead
  obtain ⟨-, -, -, -, hz, -⟩ := expire_spec hinv.ok hl h0
  unfold TimerState.toPut
  rw [hpc]
  simp only [HandlerPc.message, List.length_singleton, List.length_nil]
  omega

/-- A put moves one message into the queue; a periodic timer that goes back is not due. -/
theorem toPut_put (hinv : s.Inv n) {t : τ} (hp : s.pc = .putting t) (hf : s.queue.isFull = false) :
    (s.putMessage t).toPut + 1 = s.toPut ∧
      (s.putMessage t).queue.contents.length = s.queue.contents.length + 1 := by
  obtain ⟨h', h1, -, -, hz, -⟩ := hinv.reset_spec hp
  have hhandler : (s.putMessage t).handler = h' := by
    show (s.handler.resetPeriodic t).getD _ = _
    rw [h1]
    rfl
  constructor
  · unfold TimerState.toPut
    rw [hhandler, hz, hp]
    show 0 + _ + 1 = 1 + _
    omega
  · exact Queue.length_contents_push hinv.queue hf t

theorem toPut_beginTick {e : τ} {rest : List τ} (hl : s.handler.list = e :: rest) :
    s.beginTick.pc = .firing ∧ s.beginTick.toPut = zeros s.handler.decrementHead.deltas := by
  have hbegin : s.beginTick = { s with handler := s.handler.decrementHead, pc := .firing } := by
    unfold TimerState.beginTick
    rw [hl]
  rw [hbegin]
  refine ⟨rfl, ?_⟩
  unfold TimerState.toPut
  exact Nat.zero_add _

end

variable [DecidableEq ι] {n : ℕ} {consumer : ι} {mem : τ → Timer} {s : TimerState ι τ}

/-- **Room is kept** by every step that has it. -/
theorem room_next (hinv : s.Inv n) (h : s.Room n consumer) {l : TimerLabel ι τ}
    (he : (timers n consumer mem).enabled s l) (hr : s.HasRoom n consumer l) :
    ((timers n consumer mem).next s l).Room n consumer := by
  cases l with
  | tickBegin =>
    show s.beginTick.Room n consumer
    cases hl : s.handler.list with
    | nil =>
      have hbegin : s.beginTick = s := by unfold TimerState.beginTick; rw [hl]
      rw [hbegin]
      exact h
    | cons e rest =>
      obtain ⟨hw, -, hq, -⟩ := beginTick_frame s
      intro hwait _
      rw [(toPut_beginTick hl).2, hq]
      exact hr (hw ▸ hwait)
  | expire t =>
    intro hw _
    have hle := h hw (by rw [he.1]; exact nofun)
    rw [← toPut_expire hinv he.1 he.2.1 he.2.2] at hle
    exact hle
  | put t =>
    intro hw _
    have hle := h hw (by rw [he.1]; exact nofun)
    obtain ⟨h1, h2⟩ := toPut_put hinv he.1 he.2
    show (s.putMessage t).toPut + (s.putMessage t).queue.contents.length ≤ n
    omega
  | tickEnd => exact fun _ hpc => absurd rfl hpc
  | get => exact fun hw => absurd he.1 hw
  | call i c =>
    intro hw hpc
    by_cases hi : i = consumer
    · exact hr hi hpc
    · have hw' : (s.setWaiting i (some c)).waiting consumer ≠ none := hw
      rw [setWaiting_of_ne s (Ne.symm hi)] at hw'
      exact h hw' hpc
  | locked i c =>
    intro _ hpc
    have hidle : ((s.runSection c).setWaiting i c.rest).pc = .idle := by
      cases c <;> exact he.1
    exact absurd hidle hpc

/-! ## A tick without room -/

/-- A tick that has more to put than there is room for has a timer to expire. -/
theorem expire_of_lt (hinv : s.Inv n) (hpc : s.pc = .firing) (hlt : n < s.toPut + s.queue.contents.length) :
    ∃ e, (timers n consumer mem).enabled s (.expire e) := by
  have hlen := hinv.queue.length_le
  have hz : zeros s.handler.deltas ≠ 0 := by
    unfold TimerState.toPut at hlt
    rw [hpc] at hlt
    simp only [HandlerPc.message, List.length_nil] at hlt
    omega
  obtain ⟨e, rest, hl, h0⟩ := head_zero (mt zeros_eq_zero.mpr hz)
  exact ⟨e, hpc, by rw [hl]; rfl, h0⟩

theorem deadlock_of_putting (hinv : s.Inv n) {t : τ} (hpc : s.pc = .putting t) (hw : s.waiting consumer ≠ none)
    (hlt : n < s.toPut + s.queue.contents.length) :
    ∃ tr s', (timers n consumer mem).Path s tr s' ∧ s'.Deadlock consumer := by
  -- by induction on the room in the queue; nobody gets a message on the way
  obtain ⟨room, hroom⟩ : ∃ room, s.queue.contents.length + room = n :=
    ⟨_, Nat.add_sub_cancel' hinv.queue.length_le⟩
  induction room generalizing s t with
  | zero => exact ⟨[], s, .nil s, ⟨t, hpc⟩, (Queue.isFull_iff hinv.queue).mpr hroom, hw⟩
  | succ room ih =>
    have hf : s.queue.isFull = false := by
      rw [Bool.eq_false_iff, ne_eq, Queue.isFull_iff hinv.queue]
      omega
    obtain ⟨h1, h2⟩ := toPut_put hinv hpc hf
    have hinv₁ := timers_inv_put hinv hpc hf
    obtain ⟨e, he⟩ : ∃ e, (timers n consumer mem).enabled (s.putMessage t) (.expire e) :=
      expire_of_lt hinv₁ rfl (by omega)
    have hsame := toPut_expire hinv₁ he.1 he.2.1 he.2.2
    obtain ⟨tr, s', hp, hd⟩ := ih (timers_inv_expire hinv₁ he.2.1 he.2.2) rfl hw
      (by rw [hsame]; show n < (s.putMessage t).toPut + (s.putMessage t).queue.contents.length; omega)
      (by show (s.putMessage t).queue.contents.length + room = n; omega)
    have hput : (timers n consumer mem).enabled s (.put t) := ⟨hpc, hf⟩
    exact ⟨_, s', .cons _ hput (.cons _ he hp), hd⟩

theorem deadlock_of_firing (hinv : s.Inv n) (hpc : s.pc = .firing) (hw : s.waiting consumer ≠ none)
    (hlt : n < s.toPut + s.queue.contents.length) :
    ∃ tr s', (timers n consumer mem).Path s tr s' ∧ s'.Deadlock consumer := by
  obtain ⟨e, he⟩ : ∃ e, (timers n consumer mem).enabled s (.expire e) := expire_of_lt hinv hpc hlt
  have hlt' : n < ((timers n consumer mem).next s (.expire e)).toPut + s.queue.contents.length := by
    show n < TimerState.toPut { s with handler := s.handler.expire e, pc := .putting e } + _
    rw [toPut_expire hinv he.1 he.2.1 he.2.2]
    exact hlt
  obtain ⟨tr, s', hp, hd⟩ : ∃ tr s', (timers n consumer mem).Path ((timers n consumer mem).next s (.expire e)) tr s' ∧
      s'.Deadlock consumer :=
    deadlock_of_putting (timers_inv_expire hinv he.2.1 he.2.2) rfl hw hlt'
  exact ⟨_, s', .cons _ he hp, hd⟩

/-- **A step without room** can end in a deadlock. -/
theorem deadlock_of_no_room (hinv : s.Inv n) {l : TimerLabel ι τ} (he : (timers n consumer mem).enabled s l)
    (hr : ¬ s.HasRoom n consumer l) :
    ∃ tr s', (timers n consumer mem).Path ((timers n consumer mem).next s l) tr s' ∧ s'.Deadlock consumer := by
  cases l with
  | tickBegin =>
    have hr' : ¬ (s.waiting consumer ≠ none →
        zeros s.handler.decrementHead.deltas + s.queue.contents.length ≤ n) := hr
    push Not at hr'
    obtain ⟨hw, hlt⟩ := hr'
    cases hl : s.handler.list with
    | nil =>
      have hnil : s.handler.decrementHead.deltas = [] := by
        rw [decrementHead_nil hl]
        unfold TimerHandler.deltas
        rw [hl]
        rfl
      have hlen := hinv.queue.length_le
      rw [hnil] at hlt
      simp only [zeros] at hlt
      omega
    | cons e rest =>
      obtain ⟨hpc, hput⟩ := toPut_beginTick hl
      obtain ⟨hwait, -, hq, -⟩ := beginTick_frame s
      have hw' : s.beginTick.waiting consumer ≠ none := by rw [hwait]; exact hw
      have hlt' : n < s.beginTick.toPut + s.beginTick.queue.contents.length := by rw [hput, hq]; exact hlt
      exact deadlock_of_firing (timers_inv_beginTick hinv he) hpc hw' hlt'
  | call i c =>
    have hr' : ¬ (i = consumer → s.pc ≠ .idle → s.toPut + s.queue.contents.length ≤ n) := hr
    push Not at hr'
    obtain ⟨rfl, hpc, hlt⟩ := hr'
    have hinv' := timers_inv_call hinv he.2
    have hw : (s.setWaiting i (some c)).waiting i ≠ none := by rw [setWaiting_self]; exact Option.some_ne_none c
    cases hp : s.pc with
    | idle => exact absurd hp hpc
    | firing => exact deadlock_of_firing hinv' hp hw hlt
    | putting t => exact deadlock_of_putting hinv' hp hw hlt
  | _ => exact absurd trivial hr

/-- **The put in `tick` deadlocks exactly where room is missing.**  No run whose steps have room
reaches a deadlock; from every reachable state, a step without room leads to one. -/
theorem tick_put_deadlock (n : ℕ) (consumer : ι) (mem : τ → Timer) :
    (∀ tr s, ((timers n consumer mem).restrict (TimerState.HasRoom n consumer)).Run tr s → ¬ s.Deadlock consumer) ∧
      ∀ tr s l, (timers n consumer mem).Run tr s → (timers n consumer mem).enabled s l → ¬ s.HasRoom n consumer l →
        ∃ tr' s', (timers n consumer mem).Run (tr ++ l :: tr') s' ∧ s'.Deadlock consumer := by
  constructor
  · intro tr s h
    have hroom : s.Room n consumer :=
      h.invariantOn (fun _ s => s.Room n consumer) (fun hw => absurd rfl hw) fun tr s l hr hs he =>
        room_next (timers_inv hr.of_restrict) hs he.1 he.2
    exact not_deadlock_of_room (timers_inv h.of_restrict) hroom
  · intro tr s l h he hr
    obtain ⟨tr', s', hp, hd⟩ := deadlock_of_no_room (timers_inv h) he hr
    have hrun := (h.snoc l he).append hp
    rw [List.append_assoc] at hrun
    exact ⟨tr', s', hrun, hd⟩

/-- A tick begins while the thread waits for the mutex with its message: the queue has room for one more, and it is
full when the tick ends. -/
theorem tick_put_deadlock_untilGet :
    ∃ s, ((timers 1 () fun _ => ⟨0, 0, 0, 0, 0⟩).restrict (TimerState.HasRoom 1 ())).Run
        (untilGet ++ [.call () (.check ()), .tickBegin, .expire (), .put ()]) s ∧
      s.waiting () ≠ none ∧ s.pc ≠ .idle ∧ s.queue.isFull = true ∧ ¬ s.Deadlock () := by
  have hrun : ((timers 1 () fun _ => ⟨0, 0, 0, 0, 0⟩).restrict (TimerState.HasRoom 1 ())).Run
      (untilGet ++ [.call () (.check ()), .tickBegin, .expire (), .put ()]) _ :=
    (System.path_of_runs (by decide +kernel)).run
  exact ⟨_, hrun, by decide +kernel, by decide +kernel, by decide +kernel, (tick_put_deadlock 1 () _).1 _ _ hrun⟩

/-- One periodic timer and a queue for one message: two ticks after the thread has got the first
message, it asks whether the message is valid. -/
theorem tick_put_deadlock_reached : ∃ tr s, oneTimer.Run tr s ∧ s.Deadlock () := by
  have hpath : oneTimer.Path (untilGet.foldl oneTimer.next oneTimer.start)
      [.tickBegin, .expire (), .put (), .tickEnd, .tickBegin, .expire (), .call () (.check ())] _ :=
    .cons _ rfl (.cons _ ⟨rfl, rfl, rfl⟩ (.cons _ ⟨rfl, rfl⟩ (.cons _ ⟨rfl, fun t _ => by cases t; decide⟩ (.cons _ rfl
      (.cons _ ⟨rfl, rfl, rfl⟩ (.cons _ ⟨rfl, rfl, rfl⟩ (.nil _)))))))
  exact ⟨_, _, untilGet_run.append hpath, ⟨(), rfl⟩, rfl, nofun⟩

end Monolinux
