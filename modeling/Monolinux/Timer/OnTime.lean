import Monolinux.Lib.TimedTrace
import Monolinux.Timer.PlainMap

/-!
# Timers on time

`ml_timer_start` takes milliseconds and rounds them up to ticks, in 32 bits.  With the ticks
at least 100 ms apart, and whatever is done to other timers:

  ticks from a start or an expiry to the next expiry    (`PlainTimers.countdown`)
  rounding up wraps from 2^32 - 99 ms on                (`le_ticks_iff`)
  a timer is early, late or forgotten exactly if it does (`timer_on_time_iff`)
-/

namespace Monolinux

variable {τ : Type*} [DecidableEq τ]

def TimerOp.isTick : TimerOp τ → Bool
  | .tick => true
  | _ => false

/-- Not a start or a stop of `t`. -/
def TimerOp.Spares (t : τ) : TimerOp τ → Prop
  | .start u _ _ => u ≠ t
  | .stop u => u ≠ t
  | .tick => True

/-! ## Ticks left -/

namespace PlainTimers

variable {p : PlainTimers τ} {t : τ}

theorem steps_append (p : PlainTimers τ) (ops ops' : List (TimerOp τ)) : p.steps (ops ++ ops') = (p.steps ops).steps ops' :=
  List.foldl_append

theorem repeatTicks_steps {ops : List (TimerOp τ)} (h : ∀ op ∈ ops, op.Spares t) :
    (p.steps ops).repeatTicks t = p.repeatTicks t := by
  induction ops generalizing p with
  | nil => rfl
  | cons op ops ih =>
    have hstep : (p.step op).repeatTicks t = p.repeatTicks t := by
      cases op with
      | start u initial rep =>
        have hne : u ≠ t := h _ List.mem_cons_self
        exact Function.update_of_ne hne.symm _ _
      | stop u => rfl
      | tick => rfl
    exact (ih fun op hop => h op (List.mem_cons_of_mem _ hop)).trans hstep

/-- An operation takes at most the tick that it is. -/
theorem remaining_step {op : TimerOp τ} (h : op.Spares t) {r' : ℕ} (hr : (p.step op).remaining t = some r') :
    ∃ r, p.remaining t = some r ∧ r ≤ r' + [op].countP TimerOp.isTick := by
  cases op with
  | start u initial rep =>
    have hne : u ≠ t := h
    have hsame : (p.step (.start u initial rep)).remaining t = p.remaining t := Function.update_of_ne hne.symm _ _
    exact ⟨r', hsame ▸ hr, Nat.le_add_right _ _⟩
  | stop u =>
    have hne : u ≠ t := h
    have hsame : (p.step (.stop u)).remaining t = p.remaining t := Function.update_of_ne hne.symm _ _
    exact ⟨r', hsame ▸ hr, Nat.le_add_right _ _⟩
  | tick =>
    change p.elapse t ((p.remaining t).map (· - 1)) = some r' at hr
    cases hp : p.remaining t with
    | none =>
      rw [hp] at hr
      cases hr
    | some r =>
      refine ⟨r, rfl, ?_⟩
      show r ≤ r' + 1
      by_cases h1 : r ≤ 1
      · omega
      · -- the tick was not the last one
        obtain ⟨k, rfl⟩ : ∃ k, r = k + 2 := ⟨r - 2, by omega⟩
        rw [hp] at hr
        cases hr
        exact le_rfl

/-- **Countdown**: it takes `r` ticks to use up `r` ticks. -/
theorem countdown {ops : List (TimerOp τ)} (h : ∀ op ∈ ops, op.Spares t) {r' : ℕ}
    (hr : (p.steps ops).remaining t = some r') :
    ∃ r, p.remaining t = some r ∧ r ≤ r' + ops.countP TimerOp.isTick := by
  induction ops generalizing p with
  | nil => exact ⟨r', hr, le_rfl⟩
  | cons op ops ih =>
    obtain ⟨r₁, hr₁, hle₁⟩ := ih (fun op' hop => h op' (List.mem_cons_of_mem _ hop)) hr
    obtain ⟨r, hr, hle⟩ := remaining_step (h op List.mem_cons_self) hr₁
    refine ⟨r, hr, ?_⟩
    have hcount : (op :: ops).countP TimerOp.isTick = [op].countP TimerOp.isTick + ops.countP TimerOp.isTick := by
      rw [← List.countP_append]
      rfl
    omega

/-- The ticks before a timer that fires now. -/
theorem fires_after {ops : List (TimerOp τ)} (h : ∀ op ∈ ops, op.Spares t) (hf : (p.steps ops).Fires .tick t) :
    ∃ r, p.remaining t = some r ∧ r ≤ 1 + ops.countP TimerOp.isTick := by
  obtain ⟨r', hr', hzero⟩ := Option.map_eq_some_iff.mp hf.2
  obtain ⟨r, hr, hle⟩ := countdown h hr'
  exact ⟨r, hr, by omega⟩

/-- The time left behind the tick that fires `t`. -/
theorem remaining_fired (hf : p.Fires .tick t) :
    (p.step .tick).remaining t = if 0 < p.repeatTicks t then some (p.repeatTicks t) else none := by
  show p.elapse t ((p.remaining t).map (· - 1)) = _
  rw [hf.2]
  rfl

theorem remaining_start (p : PlainTimers τ) (t : τ) (initial rep : UInt32) :
    (p.step (.start t initial rep)).remaining t = some (ticks initial + 1) := Function.update_self _ _ _

theorem repeatTicks_start (p : PlainTimers τ) (t : τ) (initial rep : UInt32) :
    (p.step (.start t initial rep)).repeatTicks t = ticks rep := Function.update_self _ _ _

/-- Ticks alone, and not too many. -/
theorem remaining_ticks {n : ℕ} {r : ℕ} (hr : p.remaining t = some (r + n)) (hpos : 0 < r) :
    (p.steps (List.replicate n .tick)).remaining t = some r := by
  induction n generalizing p with
  | zero => exact hr
  | succ n ih =>
    refine ih ?_
    show p.elapse t ((p.remaining t).map (· - 1)) = _
    obtain ⟨k, rfl⟩ : ∃ k, r = k + 1 := ⟨r - 1, by omega⟩
    rw [hr, Option.map_some, show k + 1 + (n + 1) - 1 = k + n + 1 by omega, show k + 1 + n = k + n + 1 by omega]
    rfl

end PlainTimers

/-! ## Milliseconds -/

theorem ticks_eq (ms : UInt32) : ticks ms = (ms.toNat + 99) % 2 ^ 32 / 100 := by
  have hms := ms.toNat_lt
  unfold ticks divCeil
  rw [UInt32.toNat_div, UInt32.toNat_sub, UInt32.toNat_add]
  show (2 ^ 32 - 1 + (ms.toNat + 100) % 2 ^ 32) % 2 ^ 32 / 100 = _
  congr 1
  omega

/-- **Rounding up to ticks** is right as long as `ms + 99` fits into 32 bits. -/
theorem le_ticks_iff (ms : UInt32) : ms.toNat ≤ 100 * ticks ms ↔ ms.toNat ≤ 4294967196 := by
  have hms := ms.toNat_lt
  rw [ticks_eq]
  omega

theorem ticks_of_wrap {ms : UInt32} (h : 4294967196 < ms.toNat) : ticks ms = 0 := by
  have hms := ms.toNat_lt
  rw [ticks_eq]
  omega

/-! ## The handler -/

/-- A tick after `ops` puts the message of `t`. -/
def Expires (mem : τ → Timer) (ops : List (TimerOp τ)) (t : τ) : Prop :=
  ∃ h fs h', (TimerHandler.mlTimerHandlerInit mem).execAll ops = some h ∧ h.tick = some (fs, h') ∧ t ∈ fs

/-- After `ops` the timer `t` is in the list. -/
def Active (mem : τ → Timer) (ops : List (TimerOp τ)) (t : τ) : Prop :=
  ∃ h, (TimerHandler.mlTimerHandlerInit mem).execAll ops = some h ∧ t ∈ h.list

theorem reached (mem : τ → Timer) (ops : List (TimerOp τ)) :
    ∃ h, (TimerHandler.mlTimerHandlerInit mem).execAll ops = some h ∧ h.Ready ∧ h.Refines (PlainTimers.empty.steps ops) := by
  have hready := mlTimerHandlerInit_ready mem
  have href : (TimerHandler.mlTimerHandlerInit mem).Refines PlainTimers.empty :=
    hready.refines (fun _ => rfl) (fun _ ht => absurd ht List.not_mem_nil)
  exact execAll_refines hready href ops

theorem expires_iff (mem : τ → Timer) (ops : List (TimerOp τ)) (t : τ) :
    Expires mem ops t ↔ (PlainTimers.empty.steps ops).Fires .tick t := by
  obtain ⟨h, hrun, hready, href⟩ := reached mem ops
  obtain ⟨fs, h', htick, -, -, -, hmem⟩ := exec_refines hready href .tick
  constructor
  · rintro ⟨k, fs', k', hk, hk', ht⟩
    obtain rfl := Option.some.inj (hrun.symm.trans hk)
    have hfs : (fs, h') = (fs', k') := Option.some.inj (htick.symm.trans hk')
    obtain ⟨rfl, -⟩ := Prod.mk.inj hfs
    exact (hmem t).mp ht
  · intro hf
    exact ⟨h, fs, h', hrun, htick, (hmem t).mpr hf⟩

theorem active_iff (mem : τ → Timer) (ops : List (TimerOp τ)) (t : τ) :
    Active mem ops t ↔ ∃ r, (PlainTimers.empty.steps ops).remaining t = some r := by
  obtain ⟨h, hrun, -, href⟩ := reached mem ops
  rw [← href.remaining, ← mem_list_iff]
  constructor
  · rintro ⟨k, hk, ht⟩
    obtain rfl := Option.some.inj (hrun.symm.trans hk)
    exact ht
  · intro ht
    exact ⟨h, hrun, ht⟩

/-- The trace goes on with a start of `t`. -/
def withStart (before : List (ℚ × TimerOp τ)) (start : ℚ) (t : τ) (initial rep : UInt32) : List (ℚ × TimerOp τ) :=
  before ++ [(start, TimerOp.start t initial rep)]

/-- The trace goes on with a tick. -/
def withTick (tr : List (ℚ × TimerOp τ)) (now : ℚ) : List (ℚ × TimerOp τ) := tr ++ [(now, TimerOp.tick)]

/-- What is promised of a start of `t` at the time `start`, after `before`, as long as `t` is not started
again or stopped, and with the ticks at least 100 ms apart. -/
structure OnTime (mem : τ → Timer) (before : List (ℚ × TimerOp τ)) (start : ℚ) (t : τ) (initial rep : UInt32) : Prop where
  /-- no expiry earlier than `initial` ms -/
  first : ∀ after now, (∀ op ∈ events after, op.Spares t) →
    InTime TimerOp.isTick 100 (withTick (withStart before start t initial rep ++ after) now) →
    Expires mem (events (withStart before start t initial rep ++ after)) t → start + initial.toNat ≤ now
  /-- from one expiry to another there are ticks enough for `rep` ms -/
  next : ∀ after now between now', (∀ op ∈ events after, op.Spares t) → (∀ op ∈ events between, op.Spares t) →
    InTime TimerOp.isTick 100 (withTick (withTick (withStart before start t initial rep ++ after) now ++ between) now') →
    Expires mem (events (withStart before start t initial rep ++ after)) t →
    Expires mem (events (withTick (withStart before start t initial rep ++ after) now ++ between)) t →
    rep.toNat ≤ 100 * ((events between).countP TimerOp.isTick + 1)
  /-- an expiry of a periodic timer leaves it in the list -/
  rearmed : 0 < rep → ∀ after now, (∀ op ∈ events after, op.Spares t) →
    InTime TimerOp.isTick 100 (withTick (withStart before start t initial rep ++ after) now) →
    Expires mem (events (withStart before start t initial rep ++ after)) t →
    Active mem (events (withTick (withStart before start t initial rep ++ after) now)) t

section
variable {mem : τ → Timer} {before after between : List (ℚ × TimerOp τ)} {start : ℚ} {t : τ} {initial rep : UInt32}

/-- The map after a start. -/
def startedMap (before : List (ℚ × TimerOp τ)) (t : τ) (initial rep : UInt32) : PlainTimers τ :=
  (PlainTimers.empty.steps (events before)).step (.start t initial rep)

theorem steps_started (before after : List (ℚ × TimerOp τ)) (start : ℚ) (t : τ) (initial rep : UInt32) :
    PlainTimers.empty.steps (events (withStart before start t initial rep ++ after)) =
      (startedMap before t initial rep).steps (events after) := by
  unfold events startedMap withStart
  rw [List.map_append, List.map_append, PlainTimers.steps_append, PlainTimers.steps_append]
  rfl

/-- The ticks before the expiry of a timer that was started. -/
theorem ticks_of_expires (hspare : ∀ op ∈ events after, op.Spares t)
    (he : Expires mem (events (withStart before start t initial rep ++ after)) t) :
    ticks initial ≤ (events after).countP TimerOp.isTick := by
  rw [expires_iff, steps_started] at he
  obtain ⟨r, hr, hle⟩ := PlainTimers.fires_after hspare he
  unfold startedMap at hr
  rw [PlainTimers.remaining_start] at hr
  cases hr
  omega

/-- The map after an expiry. -/
theorem remaining_expired (now : ℚ) (hspare : ∀ op ∈ events after, op.Spares t)
    (he : Expires mem (events (withStart before start t initial rep ++ after)) t) :
    (PlainTimers.empty.steps (events (withTick (withStart before start t initial rep ++ after) now))).remaining t =
      if 0 < ticks rep then some (ticks rep) else none := by
  rw [expires_iff] at he
  have hrep : (PlainTimers.empty.steps (events (withStart before start t initial rep ++ after))).repeatTicks t =
      ticks rep := by
    rw [steps_started, PlainTimers.repeatTicks_steps hspare]
    exact PlainTimers.repeatTicks_start _ _ _ _
  have hevents : events (withTick (withStart before start t initial rep ++ after) now) =
      events (withStart before start t initial rep ++ after) ++ [.tick] := List.map_append
  rw [hevents, PlainTimers.steps_append, ← hrep]
  exact PlainTimers.remaining_fired he

theorem onTime_of_le (hinitial : initial.toNat ≤ 4294967196) (hrep : rep.toNat ≤ 4294967196) :
    OnTime mem before start t initial rep := by
  have hroundi := (le_ticks_iff initial).mpr hinitial
  have hroundr := (le_ticks_iff rep).mpr hrep
  refine ⟨?_, ?_, ?_⟩
  · intro after now hspare hin he
    have hticks := ticks_of_expires hspare he
    have hsuffix : InTime TimerOp.isTick 100 ((start, .start t initial rep) :: (after ++ [(now, .tick)])) := by
      unfold withTick withStart at hin
      rw [List.append_assoc, List.append_assoc] at hin
      exact (List.pairwise_append.mp hin).2.1
    have hspan : start + 100 * ((events after).countP TimerOp.isTick : ℕ) ≤ now := hsuffix.span rfl
    have hms : initial.toNat ≤ 100 * (events after).countP TimerOp.isTick := by omega
    have hms' : (initial.toNat : ℚ) ≤ 100 * ((events after).countP TimerOp.isTick : ℕ) := by exact_mod_cast hms
    linarith
  · intro after now between now' hspare hspare' _ he he'
    have hrem := remaining_expired now hspare he
    have hevents : events (withTick (withStart before start t initial rep ++ after) now ++ between) =
        events (withTick (withStart before start t initial rep ++ after) now) ++ events between := List.map_append
    rw [expires_iff, hevents, PlainTimers.steps_append] at he'
    obtain ⟨r, hr, hle⟩ := PlainTimers.fires_after hspare' he'
    rw [hrem] at hr
    split at hr
    next h =>
      cases hr
      omega
    next h => cases hr
  · intro hpos after now hspare _ he
    rw [active_iff, remaining_expired _ hspare he]
    have hpos : 0 < rep.toNat := UInt32.lt_iff_toNat_lt.mp hpos
    exact ⟨ticks rep, if_pos (by omega)⟩

omit [DecidableEq τ] in
/-- A start can be followed by ticks alone. -/
theorem inTime_metronome (hin : InTime TimerOp.isTick 100 (withStart before start t initial rep)) (n : ℕ) :
    InTime TimerOp.isTick 100 (withStart before start t initial rep ++ metronome 100 start .tick n) := by
  refine (hin.metronome (by norm_num) ?_ .tick n).1
  intro a ha
  rcases List.mem_append.mp ha with ha | ha
  · exact ((List.pairwise_append.mp hin).2.2 a ha _ List.mem_cons_self).1
  · rw [List.mem_singleton.mp ha]

/-- Then the timer expires when its ticks are used up. -/
theorem expires_metronome (mem : τ → Timer) (before : List (ℚ × TimerOp τ)) (start : ℚ) (t : τ) (initial rep : UInt32) :
    Expires mem (events (withStart before start t initial rep ++ metronome 100 start .tick (ticks initial))) t := by
  rw [expires_iff, steps_started, events_metronome]
  refine ⟨rfl, ?_⟩
  have hrem : (startedMap before t initial rep).remaining t = some (1 + ticks initial) :=
    (PlainTimers.remaining_start _ _ _ _).trans (by rw [Nat.add_comm])
  rw [PlainTimers.remaining_ticks hrem Nat.one_pos]
  rfl

omit [DecidableEq τ] in
theorem spares_metronome (start : ℚ) (n : ℕ) (t : τ) : ∀ op ∈ events (metronome 100 start TimerOp.tick n), op.Spares t := by
  intro op hop
  rw [events_metronome] at hop
  rw [List.eq_of_mem_replicate hop]
  exact trivial

theorem OnTime.le (h : OnTime mem before start t initial rep)
    (hin : InTime TimerOp.isTick 100 (withStart before start t initial rep)) :
    initial.toNat ≤ 4294967196 ∧ rep.toNat ≤ 4294967196 := by
  have hspare := spares_metronome start (ticks initial) t
  have hexpires := expires_metronome mem before start t initial rep
  have hnow := inTime_metronome hin (ticks initial + 1)
  rw [metronome, ← List.append_assoc] at hnow
  constructor
  · -- rounded to no tick at all, the timer expires with the next tick
    by_contra hwrap
    have hzero := ticks_of_wrap (not_le.mp hwrap)
    have hearly := h.first _ _ hspare hnow hexpires
    rw [hzero] at hearly
    have hms : (4294967196 : ℚ) < initial.toNat := by exact_mod_cast not_le.mp hwrap
    push_cast at hearly
    linarith
  · -- rounded to no tick at all, the period makes the timer a one-shot
    by_contra hwrap
    have hzero := ticks_of_wrap (not_le.mp hwrap)
    have hpos : 0 < rep := UInt32.lt_iff_toNat_lt.mpr (by show 0 < rep.toNat; omega)
    have hactive := h.rearmed hpos _ _ hspare hnow hexpires
    rw [active_iff, remaining_expired _ hspare hexpires, hzero] at hactive
    obtain ⟨r, hr⟩ := hactive
    cases hr

end

/-- **A timer is on time exactly if its times are at most 2^32 - 100 ms.**  In every run with the ticks at least 100 ms
apart, whatever is done to other timers: no early expiry, no early repetition, and a periodic timer stays periodic. -/
theorem timer_on_time_iff (mem : τ → Timer) (before : List (ℚ × TimerOp τ)) (start : ℚ) (t : τ) (initial rep : UInt32)
    (hin : InTime TimerOp.isTick 100 (withStart before start t initial rep)) :
    OnTime mem before start t initial rep ↔ initial.toNat ≤ 4294967196 ∧ rep.toNat ≤ 4294967196 :=
  ⟨fun h => h.le hin, fun h => onTime_of_le h.1 h.2⟩

/-- A timer of 250 ms that is started again after 130 ms. -/
theorem timer_on_time_iff_restart :
    OnTime (fun _ : Bool => ⟨0, 0, 0, 0, 0⟩) [(0, .start true 250 1000), (100, .tick)] 130 true 250 1000 ↔
      (250 : UInt32).toNat ≤ 4294967196 ∧ (1000 : UInt32).toNat ≤ 4294967196 := by
  refine timer_on_time_iff _ _ _ _ _ _ ?_
  unfold InTime withStart
  simp [TimerOp.isTick]
  norm_num

/-- A timer of 2^32 - 1 ms expires with the first tick. -/
theorem timer_early : ¬ OnTime (fun _ : Bool => ⟨0, 0, 0, 0, 0⟩) [] 0 true 4294967295 0 := by
  intro h
  have hin : InTime TimerOp.isTick 100 (withStart [] 0 true 4294967295 0) := List.pairwise_singleton _ _
  exact absurd (h.le hin).1 (by decide)

end Monolinux
