import Monolinux.Dhcp.Lease

/-!
# The timers of the DHCP client

Every state waits for one of the timers (`ClientState.timer`), and the client is stuck
if that timer is neither armed nor has an unread expiry.  In BOUND it may be neither if
the lease is infinite.

The time to the renewal is half of the lease time, as an `int`: zero for a lease of one
second, which disarms the renewal timer, and negative for one of 2^31 seconds or more,
which `timerfd_settime` refuses.

  `Timed` is the condition under which no step leads to a state that is stuck, and
  every step that breaks it leads to one                          (`never_stuck`)
-/

namespace Monolinux

section
variable [Host]

/-- An expiry of the timer will not have been read after the events of the iteration. -/
def World.PendingAfter (w : World) (i : Input) (t : TimerIx) : Prop := (w.timersRead i t).Pending

/-- The timer of the state is armed or has an unread expiry, or the client is BOUND to an infinite lease. -/
def DhcpState.Alive (s : DhcpState) : Prop :=
  s.phase = .running → (s.world.kernel.timer s.world.self.state.timer).Pending ∨
    s.world.self.state = .bound ∧ s.world.self.leaseTime = toInt 0xffffffff

instance (w : World) (i : Input) (t : TimerIx) : Decidable (w.PendingAfter i t) :=
  inferInstanceAs (Decidable (TimerFd.Pending _))

instance (s : DhcpState) : Decidable s.Alive := inferInstanceAs (Decidable (_ → _ ∨ _ ∧ _))

/-- An ACK that leads to BOUND finds a lease time of at least 2 seconds or an infinite one, or else a negative
one with the renewal timer still pending.  In BOUND without a pending renewal timer only an OFFER of an
infinite lease is accepted. -/
def Timed (s : DhcpState) : DhcpLabel → Prop
  | .iterate i =>
    ((s.world.self.state = .requesting ∨ s.world.self.state = .renewing) → s.world.received i = some .ack →
      i.udpSocket.udpOk = true →
        2 ≤ s.world.self.leaseTime ∨ s.world.self.leaseTime = toInt 0xffffffff ∨
          s.world.self.leaseTime < 0 ∧ s.world.PendingAfter i .renew) ∧
    (s.world.self.state = .bound → ¬ (s.world.kernel.timer .renew).Pending →
      ∀ o, s.world.received i = some (.offer o) → o.leaseTime = 0xffffffff)
  | _ => True

instance (s : DhcpState) (l : DhcpLabel) : Decidable (Timed s l) :=
  match l with
  | .iterate i => inferInstanceAs (Decidable ((_ → s.world.received i = _ → i.udpSocket.udpOk = _ → _) ∧ (_ → _ → _)))
  | .start _ => isTrue trivial
  | .expire _ => isTrue trivial
  | .pollFailure => isTrue trivial
  | .stop => isTrue trivial

/-! ## The renewal interval -/

/-- From REQUESTING on the renewal interval is half of the lease time. -/
def DhcpState.Interval (s : DhcpState) : Prop :=
  s.world.self.state ≠ .init → s.world.self.state ≠ .selecting →
    s.world.self.renewalInterval = s.world.self.leaseTime.tdiv 2

section
variable {s : DhcpState} {i : Input} {w w' : World}

omit [Host] in
theorem interval_offer (o : Offer) : o.lease.renewalInterval = o.lease.leaseTime.tdiv 2 := rfl

/-- A move goes from INIT and SELECTING to a later state only by a REQUEST. -/
theorem World.Move.later (h : w.Move i w') (hi : w'.self.state ≠ .init) (hs : w'.self.state ≠ .selecting) :
    w.self.packetType = .offer ∨ w.self.state ≠ .init ∧ w.self.state ≠ .selecting := by
  cases h with
  | stay => exact Or.inr ⟨hi, hs⟩
  | discover => exact absurd rfl hs
  | discoverFails h => exact absurd h hi
  | request _ hp => exact Or.inl hp
  | requestFails => exact absurd rfl hi
  | giveUp => exact absurd rfl hi
  | bind h => rcases h with h | h <;> exact Or.inr (by rw [h]; exact ⟨nofun, nofun⟩)
  | renew h => exact Or.inr (by rw [h]; exact ⟨nofun, nofun⟩)
  | renewFails => exact absurd rfl hi

theorem interval_iterate (h : s.Interval) (i : Input) : DhcpState.Interval { s with world := s.world.iterate i } := by
  intro hi hs
  have hlease := s.world.iterate_lease i
  have hlater := (s.world.iterate_move i).later hi hs
  rw [updateEvents_packetType, updateEvents_state] at hlater
  suffices hl : (s.world.iterate i).self.lease.renewalInterval = (s.world.iterate i).self.lease.leaseTime.tdiv 2 from hl
  rw [hlease]
  rcases hlater with hp | ⟨hi', hs'⟩
  · obtain ⟨o, ho⟩ := Message.packetType_offer hp
    rw [ho]
    exact interval_offer o
  · rcases s.world.received i with _ | (o | _ | _)
    · exact h hi' hs'
    · exact interval_offer o
    · exact h hi' hs'
    · exact h hi' hs'

/-! ## What the moves do to the timers -/

omit [Host] in
theorem pending_setTimer (w : World) (t : TimerIx) {seconds : ℤ} (h : 0 < seconds) :
    ((w.setTimer t seconds 0).2.kernel.timer t).Pending := by
  show (Function.update w.kernel.timer t _ t).Pending
  rw [Function.update_self]
  exact TimerFd.settime_pending _ h

omit [Host] in
/-- The init timer is armed in INIT. -/
theorem pending_enterInit (w : World) (i : Input) : ((w.enterInit i).kernel.timer .init).Pending := by
  have hset : (w.enterInit i).kernel.timer = w.unconfigured.kernel.timer :=
    (World.setupSocket_frame w.unconfigured _ _ _ _).2.1
  rw [hset]
  exact pending_setTimer (w.cancelResponseTimer.cancelRebindingTimer) .init (by decide)

omit [Host] in
/-- The renewal timer in BOUND. -/
theorem renew_enterBound (h : i.udpSocket.udpOk = true) :
    (w.enterBound i).kernel.timer .renew = ((w.kernel.timer .renew).settime w.self.renewalInterval 0).2 := by
  rw [World.enterBound_eq, if_pos h]
  exact congrFun (World.setupSocket_frame w.configured _ _ _ _).2.1 .renew

/-- A move that does not go to BOUND leaves the client with a pending timer. -/
theorem World.Move.pending (h : w.Move i w') (hb : w'.self.state ≠ .bound)
    (hw : w.self.state ≠ .bound → w.self.timerExpired w.self.state.timer = false →
      (w.kernel.timer w.self.state.timer).Pending) :
    (w'.kernel.timer w'.self.state.timer).Pending := by
  cases h with
  | stay h => exact hw hb h
  | discover => exact pending_setTimer _ .resp (by decide)
  | discoverFails hs =>
    have hstate : ((w.broadcastDiscover false).2.setInitTimer 10 0).2.self.state = .init := hs
    rw [hstate]
    exact pending_setTimer _ .init (by decide)
  | request => exact pending_setTimer _ .resp (by decide)
  | requestFails => exact pending_enterInit _ i
  | giveUp => exact pending_enterInit _ i
  | bind =>
    rw [World.enterBound_state] at hb
    have hu : ¬ i.udpSocket.udpOk = true := fun hu => hb (if_pos hu)
    rw [World.enterBound_eq, if_neg hu]
    exact pending_enterInit _ i
  | renew => exact pending_setTimer _ .resp (by decide)
  | renewFails => exact pending_enterInit _ i

/-! ## Alive -/

theorem updateEvents_timer (t : TimerIx) : (w.updateEvents i).kernel.timer t = w.timersRead i t := by
  rw [updateEvents_kernel]

omit [Host] in
theorem timersRead_of_expired {t : TimerIx} (h : w.expired i t = false) : w.timersRead i t = w.kernel.timer t := by
  unfold World.timersRead
  rw [if_neg (Bool.eq_false_iff.mp h)]

omit [Host] in
theorem pending_of_expired {t : TimerIx} (h : w.expired i t = true) : (w.kernel.timer t).Pending :=
  Or.inr ((Bool.and_eq_true _ _).mp h).1

omit [Host] in
theorem toInt_infinite (x : UInt32) : toInt x = toInt 0xffffffff ↔ x = 0xffffffff := by
  have hx := x.toNat_lt
  rw [← UInt32.toNat_inj]
  unfold toInt
  simp only [UInt32.reduceToNat]
  split <;> omega

omit [Host] in
/-- Half of the lease time, as `int`. -/
theorem half_leaseTime (leaseTime : ℤ) :
    (0 < leaseTime.tdiv 2 ↔ 2 ≤ leaseTime) ∧ (leaseTime.tdiv 2 < 0 ↔ leaseTime < -1) := by
  have hsign : Int.sign 2 = 1 := rfl
  rw [Int.tdiv_eq_ediv, hsign]
  split <;> omega

/-- A move that leads to BOUND. -/
theorem World.Move.bound (h : w.Move i w') (hb : w'.self.state = .bound) :
    w' = w ∧ w.self.state = .bound ∧ w.self.timerExpired .renew = false ∨
      (w.self.state = .requesting ∨ w.self.state = .renewing) ∧ w.self.packetType = .ack ∧
        i.udpSocket.udpOk = true ∧ w' = w.enterBound i := by
  cases h with
  | stay h =>
    rw [hb] at h
    exact Or.inl ⟨rfl, hb, h⟩
  | discover => cases hb
  | discoverFails hs =>
    have hstate : w.self.state = .bound := hb
    rw [hs] at hstate
    cases hstate
  | request => cases hb
  | requestFails => cases hb
  | giveUp => cases hb
  | bind hs hp =>
    rw [World.enterBound_state] at hb
    refine Or.inr ⟨hs, hp, ?_, rfl⟩
    by_contra hu
    rw [if_neg hu] at hb
    cases hb
  | renew => cases hb
  | renewFails => cases hb

/-- An iteration in BOUND reads the expiry of the renewal timer, if there is one. -/
theorem alive_stay (hs : s.world.self.state = .bound) (he : s.world.expired i .renew = false) (ha : s.Alive)
    (hp : s.phase = .running) :
    ((s.world.updateEvents i).kernel.timer .renew).Pending ∨
        (s.world.updateEvents i).self.leaseTime = toInt 0xffffffff ↔ Timed s (.iterate i) := by
  have hlease : (s.world.updateEvents i).self.leaseTime = (Message.lease s.world.self.lease (s.world.received i)).leaseTime :=
    congrArg Lease.leaseTime updateEvents_lease
  have hne : ¬ (s.world.self.state = .requesting ∨ s.world.self.state = .renewing) := by rw [hs]; nofun
  rw [updateEvents_timer, timersRead_of_expired he, hlease]
  constructor
  · intro h
    refine ⟨fun h => absurd h hne, fun _ hpend o ho => ?_⟩
    rw [ho] at h
    exact (toInt_infinite _).mp (h.resolve_left hpend)
  · intro h
    by_cases hpend : (s.world.kernel.timer .renew).Pending
    · exact Or.inl hpend
    · have hinf : s.world.self.leaseTime = toInt 0xffffffff := by
        have hal := ha hp
        rw [hs] at hal
        exact (hal.resolve_left hpend).2
      refine Or.inr ?_
      rcases hr : s.world.received i with _ | (o | _ | _)
      · exact hinf
      · exact (toInt_infinite _).mpr (h.2 hs hpend o hr)
      · exact hinf
      · exact hinf

/-- Entering BOUND. -/
theorem alive_bind (hs : s.world.self.state = .requesting ∨ s.world.self.state = .renewing)
    (hr : s.world.received i = some .ack) (hu : i.udpSocket.udpOk = true) (hint : s.Interval) :
    (((s.world.updateEvents i).enterBound i).kernel.timer .renew).Pending ∨
        ((s.world.updateEvents i).enterBound i).self.leaseTime = toInt 0xffffffff ↔ Timed s (.iterate i) := by
  have hstate : s.world.self.state ≠ .init ∧ s.world.self.state ≠ .selecting ∧ s.world.self.state ≠ .bound := by
    rcases hs with hs | hs <;> rw [hs] <;> exact ⟨nofun, nofun, nofun⟩
  have hlease : (s.world.updateEvents i).self.lease = s.world.self.lease := by rw [updateEvents_lease, hr]; rfl
  have htime : ((s.world.updateEvents i).enterBound i).self.leaseTime = s.world.self.leaseTime :=
    congrArg Lease.leaseTime ((World.sameData_enterBound _ i).lease.trans hlease)
  have hrenew : (s.world.updateEvents i).self.renewalInterval = s.world.self.leaseTime.tdiv 2 :=
    (congrArg Lease.renewalInterval hlease).trans (hint hstate.1 hstate.2.1)
  obtain ⟨hpos, hneg⟩ := half_leaseTime s.world.self.leaseTime
  have hinf : toInt 0xffffffff = -1 := by decide
  rw [htime, renew_enterBound hu, updateEvents_timer, TimerFd.settime_pending_iff, hrenew, hpos, hneg, hinf]
  constructor
  · intro h
    refine ⟨fun _ _ _ => ?_, fun hb => absurd hb hstate.2.2⟩
    rw [hinf]
    rcases h with (h | ⟨h, hp⟩) | h
    · exact Or.inl h
    · exact Or.inr (Or.inr ⟨by omega, hp⟩)
    · exact Or.inr (Or.inl h)
  · intro h
    have h1 := h.1 hs hr hu
    rw [hinf] at h1
    rcases h1 with h1 | h1 | ⟨h1, hp⟩
    · exact Or.inl (Or.inl h1)
    · exact Or.inr h1
    · by_cases hm : s.world.self.leaseTime = -1
      · exact Or.inr hm
      · exact Or.inl (Or.inr ⟨by omega, hp⟩)

/-- **One iteration** keeps the client alive exactly if it meets the condition. -/
theorem alive_iterate (hint : s.Interval) (ha : s.Alive) (hp : s.phase = .running) (i : Input) :
    DhcpState.Alive { s with world := s.world.iterate i } ↔ Timed s (.iterate i) := by
  have hm := s.world.iterate_move i
  by_cases hb : (s.world.iterate i).self.state = .bound
  · have hiff : DhcpState.Alive { s with world := s.world.iterate i } ↔
        ((s.world.iterate i).kernel.timer .renew).Pending ∨
          (s.world.iterate i).self.leaseTime = toInt 0xffffffff := by
      unfold DhcpState.Alive
      dsimp only
      rw [hb]
      exact ⟨fun h => (h hp).imp_right And.right, fun h _ => h.imp_right fun h => ⟨rfl, h⟩⟩
    rw [hiff]
    rcases hm.bound hb with ⟨hw, hs, he⟩ | ⟨hs, hpt, hu, hw⟩
    · rw [updateEvents_state] at hs
      rw [updateEvents_timerExpired] at he
      rw [hw]
      exact alive_stay hs he ha hp
    · rw [updateEvents_state] at hs
      rw [updateEvents_packetType] at hpt
      rw [hw]
      exact alive_bind hs (Message.packetType_ack hpt) hu hint
  · refine iff_of_true (fun _ => Or.inl (hm.pending hb fun hnb he => ?_)) ⟨fun hs hr hu => ?_, fun hs hpend => ?_⟩
    · rw [updateEvents_state] at hnb ⊢
      rw [updateEvents_state, updateEvents_timerExpired] at he
      rw [updateEvents_timer, timersRead_of_expired he]
      exact (ha hp).resolve_right fun h => hnb h.1
    · refine absurd ?_ hb
      have hw : s.world.iterate i = (s.world.updateEvents i).enterBound i :=
        processEvents_ack (by rw [updateEvents_state]; exact hs) (by rw [updateEvents_packetType, hr]; rfl)
      rw [hw, World.enterBound_state, if_pos hu]
    · refine absurd ?_ hb
      -- nothing to read from the renewal timer
      have he : (s.world.updateEvents i).self.renewalTimerExpired ≠ true := by
        have h := updateEvents_timerExpired (w := s.world) (i := i) .renew
        intro he
        exact hpend (pending_of_expired (h.symm.trans he))
      have hs' : (s.world.updateEvents i).self.state = .bound := updateEvents_state.trans hs
      have hw : s.world.iterate i = s.world.updateEvents i := by
        simp only [World.iterate, World.processEvents, hs', World.processEventsBound, if_neg he]
      rw [hw, hs']

section
variable {name : String} {mem : Client} {tr : List DhcpLabel} {l : DhcpLabel}

omit [Host] in
theorem timer_expire (w : World) (t u : TimerIx) (h : (w.kernel.timer u).Pending) :
    ((w.expire t).kernel.timer u).Pending := by
  show (Function.update w.kernel.timer t _ u).Pending
  by_cases hu : u = t
  · subst hu
    rw [Function.update_self]
    exact Or.inr rfl
  · rw [Function.update_of_ne hu]
    exact h

/-- The init timer is armed when the client has started. -/
theorem alive_start (hs : s.world.self.state = .init) (i : StartInput) : ((dhcp name mem).next s (.start i)).Alive := by
  intro hp
  left
  have hstate : ((dhcp name mem).next s (.start i)).world.self.state = .init :=
    (s.world.mlDhcpClientStart_state i).trans hs
  obtain ⟨-, hw⟩ := World.mlDhcpClientStart_ok (next_start_running hp)
  have hworld : ((dhcp name mem).next s (.start i)).world = ((s.world.init i).2.setInitTimer 0 1).2 := hw
  rw [hstate, hworld]
  show (Function.update (s.world.init i).2.kernel.timer .init _ .init).Pending
  rw [Function.update_self]
  exact Or.inl rfl

/-- A step keeps the client alive exactly if it meets the condition. -/
theorem alive_next (h0 : s.phase = .initialised → s.world.self.state = .init) (hint : s.Interval) (ha : s.Alive)
    (he : (dhcp name mem).enabled s l) : ((dhcp name mem).next s l).Alive ↔ Timed s l := by
  cases l with
  | start i => exact iff_of_true (alive_start (h0 he) i) trivial
  | expire t =>
    refine iff_of_true (fun hp => ?_) trivial
    exact (ha hp).imp_left (timer_expire s.world t _)
  | iterate i => exact alive_iterate hint ha he i
  | pollFailure => exact iff_of_true nofun trivial
  | stop => exact iff_of_true nofun trivial

theorem dhcp_interval (h : (dhcp name mem).Run tr s) :
    (s.phase = .initialised → s.world.self.state = .init) ∧ s.Interval := by
  refine h.invariant (fun s => (s.phase = .initialised → s.world.self.state = .init) ∧ s.Interval)
    ⟨fun _ => rfl, fun hi => absurd rfl hi⟩ ?_
  rintro s l ⟨h0, hint⟩ he
  cases l with
  | start i =>
    have hstate : ((dhcp name mem).next s (.start i)).world.self.state = .init :=
      (s.world.mlDhcpClientStart_state i).trans (h0 he)
    exact ⟨fun hp => absurd hp (next_start_phase s i nofun nofun), fun hi => absurd hstate hi⟩
  | expire t => exact ⟨h0, hint⟩
  | iterate i => exact ⟨fun hp => absurd (hp.symm.trans he) nofun, interval_iterate hint i⟩
  | pollFailure => exact ⟨nofun, hint⟩
  | stop =>
    have hself : ((dhcp name mem).next s .stop).world.self = s.world.self := s.world.destroy_self
    refine ⟨nofun, ?_⟩
    unfold DhcpState.Interval
    rw [hself]
    exact hint

end

end

/-- **The client is never stuck** in a run whose steps meet `Timed`; a step that does not leads to a
state that is. -/
theorem never_stuck (name : String) (mem : Client) :
    (∀ tr s, ((dhcp name mem).restrict Timed).Run tr s → s.Alive) ∧
      ∀ tr s, ((dhcp name mem).restrict Timed).Run tr s →
        ∀ l, (dhcp name mem).enabled s l → ¬ Timed s l → ¬ ((dhcp name mem).next s l).Alive := by
  have hrun : ∀ tr s, ((dhcp name mem).restrict Timed).Run tr s → s.Alive := by
    intro tr s h
    refine h.invariantOn (fun _ s => s.Alive) nofun ?_
    intro tr s l hr ha he
    obtain ⟨h0, hint⟩ := dhcp_interval hr.of_restrict
    exact (alive_next h0 hint ha he.1).mpr he.2
  refine ⟨hrun, ?_⟩
  intro tr s h l he ht ha
  obtain ⟨h0, hint⟩ := dhcp_interval h.of_restrict
  exact ht ((alive_next h0 hint (hrun tr s h) he).mp ha)

end

section

local instance timersHost : Host := littleEndian

theorem never_stuck_one :
    ∃ s s', ((eth0.restrict Timed).Run (untilRequesting 1 3 60 ++ [ack 1 3]) s ∧ s.Alive) ∧
      (eth0.restrict Timed).Run (untilRequesting 1 3 1) s' ∧ ¬ (eth0.next s' (ack 1 3)).Alive := by
  have hbound : (eth0.restrict Timed).Run (untilRequesting 1 3 60 ++ [ack 1 3]) _ :=
    (System.path_of_runs (by decide +kernel)).run
  have hrequesting : (eth0.restrict Timed).Run (untilRequesting 1 3 1) _ :=
    (System.path_of_runs (by decide +kernel)).run
  exact ⟨_, _, ⟨hbound, (never_stuck "eth0" zeroClient).1 _ _ hbound⟩, hrequesting,
    (never_stuck "eth0" zeroClient).2 _ _ hrequesting _ (by decide +kernel) (by decide +kernel)⟩

/-- A lease of one second: the client stays BOUND for good. -/
theorem stuck_in_bound : ∃ tr s, eth0.Run tr s ∧ s.phase = .running ∧ s.world.self.state = .bound ∧
    s.world.self.leaseTime = 1 ∧ ¬ s.Alive :=
  have hrun : eth0.Run (untilRequesting 1 3 1 ++ [ack 1 3]) _ := (System.path_of_runs (by decide +kernel)).run
  ⟨_, _, hrun, by decide +kernel, by decide +kernel, by decide +kernel, by decide +kernel⟩

end

end Monolinux
