import Monolinux.Dhcp.Timers

/-!
# The times that are armed for a lease

`enter_bound` arms the renewal and the rebinding timer with what the OFFER accepted last
left in the client, whichever state the client was in when it came.  For a lease of `L`
seconds these are `L / 2` and `L / 2 + 10`, computed as `int`:

  what the client has is the OFFER accepted last   (`lastOffer_lease`)
  the times are in order from 19 s to 2^31 - 1 s   (`lease_timers_ordered`)
-/

namespace Monolinux

section
variable [Host]

/-- The OFFER accepted last, when a message comes. -/
def Message.offerOr (last : Option Offer) : Option Message → Option Offer
  | some (.offer o) => some o
  | _ => last

/-- The OFFER accepted last, after a step from `s`. -/
def offerAfter (s : DhcpState) (last : Option Offer) : DhcpLabel → Option Offer
  | .iterate i => Message.offerOr last (s.world.received i)
  | _ => last

/-- The OFFER accepted last in the run `tr`. -/
def lastOffer (name : String) (mem : Client) (tr : List DhcpLabel) : Option Offer :=
  (tr.foldl (fun p l => ((dhcp name mem).next p.1 l, offerAfter p.1 p.2 l)) ((dhcp name mem).start, none)).2

variable {name : String} {mem : Client} {tr : List DhcpLabel} {s : DhcpState} {w : World} {i : Input}

/-! ## The OFFER accepted last -/

theorem lastOffer_snoc (h : (dhcp name mem).Run tr s) (l : DhcpLabel) :
    lastOffer name mem (tr ++ [l]) = offerAfter s (lastOffer name mem tr) l := by
  have hstate : ∀ (tr : List DhcpLabel) (p : DhcpState × Option Offer),
      (tr.foldl (fun p l => ((dhcp name mem).next p.1 l, offerAfter p.1 p.2 l)) p).1 =
        tr.foldl (dhcp name mem).next p.1 := by
    intro tr
    induction tr with
    | nil => exact fun _ => rfl
    | cons l tr ih => exact fun p => ih _
  unfold lastOffer
  rw [List.foldl_append, List.foldl_cons, List.foldl_nil, hstate, ← h.eq_foldl]

omit [Host] in
/-- The lease of the OFFER accepted last stays so when a message comes. -/
theorem Message.lease_of_offerOr {last : Option Offer} {m : Option Message} {l : Lease} {o : Offer}
    (h : offerOr last m = some o) (hl : ∀ o, last = some o → l = o.lease) : Message.lease l m = o.lease := by
  rcases m with _ | (o' | _ | _)
  · exact hl o h
  · cases h
    rfl
  · exact hl o h
  · exact hl o h

omit [Host] in
theorem Message.none_of_offerOr {last : Option Offer} {m : Option Message} (h : offerOr last m = none) :
    last = none := by
  rcases m with _ | (o | _ | _)
  · exact h
  · cases h
  · exact h
  · exact h

/-- The client has the lease of the OFFER accepted last; without one it has not got to REQUESTING. -/
structure HasLease (last : Option Offer) (s : DhcpState) : Prop where
  initialised : s.phase = .initialised → s.world.self.state = .init
  lease : ∀ o, last = some o → s.world.self.lease = o.lease
  early : last = none → s.world.self.state = .init ∨ s.world.self.state = .selecting

omit [Host] in
/-- A step that keeps the lease and the state. -/
theorem HasLease.same {last : Option Offer} {s' : DhcpState} (h : HasLease last s)
    (hphase : s'.phase = .initialised → s'.world.self.state = .init) (hlease : s'.world.self.lease = s.world.self.lease)
    (hstate : s'.world.self.state = s.world.self.state) : HasLease last s' := by
  refine ⟨hphase, ?_, ?_⟩
  · intro o ho
    exact hlease.trans (h.lease o ho)
  · intro hn
    rw [hstate]
    exact h.early hn

theorem hasLease_iterate {last : Option Offer} (h : HasLease last s) (hp : s.phase = .running) (i : Input) :
    HasLease (offerAfter s last (.iterate i)) { s with world := s.world.iterate i } := by
  have hlease := s.world.iterate_lease i
  have hmove := s.world.iterate_move i
  refine ⟨fun hi => absurd (hp.symm.trans hi) (by intro h; cases h), ?_, ?_⟩
  · intro o ho
    exact hlease.trans (Message.lease_of_offerOr ho fun o hlast => h.lease o hlast)
  · intro hn
    -- only an OFFER leads out of INIT and SELECTING
    by_contra hlater
    obtain ⟨hi, hs⟩ := not_or.mp hlater
    rcases hmove.later hi hs with ho | ⟨hi', hs'⟩
    · rw [updateEvents_packetType] at ho
      obtain ⟨o, hm⟩ := Message.packetType_offer ho
      change Message.offerOr last (s.world.received i) = none at hn
      rw [hm] at hn
      cases hn
    · rw [updateEvents_state] at hi' hs'
      exact (h.early (Message.none_of_offerOr hn)).elim hi' hs'

/-- **The client has the lease of the OFFER accepted last** in every run. -/
theorem lastOffer_lease (h : (dhcp name mem).Run tr s) : HasLease (lastOffer name mem tr) s := by
  refine h.invariantOn (fun tr s => HasLease (lastOffer name mem tr) s) ⟨fun _ => rfl, ?_, fun _ => Or.inl rfl⟩ ?_
  · intro o ho
    cases ho
  intro tr s l hr ih he
  rw [lastOffer_snoc hr]
  cases l with
  | start i =>
    have hself : ((dhcp name mem).next s (.start i)).world.self.lease = s.world.self.lease :=
      (congrArg _ (s.world.mlDhcpClientStart_self i)).trans (s.world.setup_init i).lease
    exact ih.same (fun hp => absurd hp (next_start_phase s i (by intro h; cases h) (by intro h; cases h))) hself (s.world.mlDhcpClientStart_state i)
  | expire t => exact ih.same ih.initialised rfl rfl
  | iterate i => exact hasLease_iterate ih he i
  | pollFailure => exact ih.same (by intro h; cases h) rfl rfl
  | stop =>
    have hself : ((dhcp name mem).next s .stop).world.self = s.world.self := s.world.destroy_self
    exact ih.same (by intro h; cases h) (congrArg _ hself) (congrArg _ hself)

/-! ## The times -/

omit [Host] in
/-- `enter_bound` sets the timers first, whatever comes of the socket. -/
theorem boundCalls_enterBound (w : World) (i : Input) :
    w.kernel.calls ++ w.boundCalls <+: (w.enterBound i).kernel.calls := by
  have hset : (w.configured.setupUdpSocket i.udpSocket).2.kernel.calls = w.kernel.calls ++ w.boundCalls := by
    refine (World.setupSocket_frame w.configured _ _ _ _).2.2.trans ?_
    show ((((w.kernel.calls ++ [_]) ++ [_]) ++ [_]) ++ [_]) ++ [_] = _
    simp only [List.append_assoc]
    rfl
  rw [World.enterBound_eq, ← hset]
  split
  · exact List.prefix_rfl
  · exact World.calls_enterInit _ i

omit [Host] in
/-- **The order of the times**: `L / 2` is above zero from 2 on, `L / 2 + 10` is at most `L` from 19 on, and from
2^31 on the time is negative as `int`. -/
theorem times_ordered_iff (L : UInt32) :
    (0 < (toInt L).tdiv 2 ∧ (toInt L).tdiv 2 < (toInt L).tdiv 2 + 10 ∧ (toInt L).tdiv 2 + 10 ≤ L.toNat) ↔
      19 ≤ L.toNat ∧ L.toNat < 2 ^ 31 := by
  have hL := L.toNat_lt
  have hhalf := half_leaseTime (toInt L)
  by_cases hlt : L.toNat < 2 ^ 31
  · have hint : toInt L = L.toNat := if_pos hlt
    rw [hint, Int.tdiv_eq_ediv_of_nonneg (by omega)]
    omega
  · have hint : toInt L = L.toNat - 2 ^ 32 := if_neg hlt
    omega

/-- The step arms the renewal timer with `renewal` and the rebinding timer with `rebinding`, in `enter_bound`. -/
def Arms (w : World) (i : Input) (renewal rebinding : ℤ) : Prop :=
  (w.updateEvents i).kernel.calls ++
    [.settime .resp 0 0, .settime .renew renewal 0, .settime .rebind rebinding 0] <+: (w.iterate i).kernel.calls

theorem Arms.unique {r r' b b' : ℤ} (h : Arms w i r b) (h' : Arms w i r' b') : r = r' ∧ b = b' := by
  have hlen : ((w.updateEvents i).kernel.calls ++
      [Call.settime .resp 0 0, Call.settime .renew r 0, Call.settime .rebind b 0]).length =
      ((w.updateEvents i).kernel.calls ++
        [Call.settime .resp 0 0, Call.settime .renew r' 0, Call.settime .rebind b' 0]).length := by
    rw [List.length_append, List.length_append]
    rfl
  have heq := List.append_cancel_left ((List.prefix_of_prefix_length_le h h' hlen.le).eq_of_length hlen)
  simp only [List.cons.injEq, Call.settime.injEq, true_and, and_true] at heq
  exact heq

/-- **The lease timers are armed in order exactly for a lease of 19 s up to 2^31 - 1 s.**  In every run, a step that
enters BOUND arms them with the times of the OFFER accepted last, and the renewal timer runs if its time is above
zero. -/
theorem lease_timers_ordered (h : (dhcp name mem).Run tr s)
    (hs : s.world.self.state = .requesting ∨ s.world.self.state = .renewing)
    (hack : s.world.received i = some .ack) :
    s.world.iterate i = (s.world.updateEvents i).enterBound i ∧
    ∃ o renewal rebinding, lastOffer name mem tr = some o ∧ Arms s.world i renewal rebinding ∧
      (0 < renewal ∧ renewal < rebinding ∧ rebinding ≤ o.leaseTime.toNat ↔
        19 ≤ o.leaseTime.toNat ∧ o.leaseTime.toNat < 2 ^ 31) ∧
      (i.udpSocket.udpOk = true → 0 < renewal → ((s.world.iterate i).kernel.timer .renew).Pending) := by
  have hbind : s.world.iterate i = (s.world.updateEvents i).enterBound i := by
    refine processEvents_ack ?_ ?_
    · rwa [updateEvents_state]
    · rw [updateEvents_packetType, hack]
      rfl
  have hhas := lastOffer_lease h
  obtain ⟨o, ho⟩ : ∃ o, lastOffer name mem tr = some o := by
    cases hlast : lastOffer name mem tr with
    | some o => exact ⟨o, rfl⟩
    | none =>
      rcases hhas.early hlast with hi | hi <;> rcases hs with hs | hs <;> rw [hs] at hi <;> cases hi
  have hlease : (s.world.updateEvents i).self.lease = o.lease := by
    rw [updateEvents_lease, hack]
    exact hhas.lease o ho
  refine ⟨hbind, o, o.lease.renewalInterval, o.lease.rebindingTime, ho, ?_, times_ordered_iff o.leaseTime, ?_⟩
  · have hcalls := boundCalls_enterBound (s.world.updateEvents i) i
    rw [boundCalls_of_lease hlease] at hcalls
    unfold Arms
    rw [hbind]
    exact ((List.prefix_append_right_inj _).mpr ⟨_, rfl⟩).trans hcalls
  · intro hu hpos
    have hrenew : (s.world.updateEvents i).self.renewalInterval = o.lease.renewalInterval :=
      congrArg Lease.renewalInterval hlease
    rw [hbind, renew_enterBound hu, hrenew]
    exact TimerFd.settime_pending _ hpos

end

section

local instance leaseTimesHost : Host := littleEndian

/-- A lease of 60 s: renewal after 30 s, rebinding after 40 s. -/
theorem lease_timers_ordered_one :
    ∃ s o renewal rebinding, eth0.Run (untilRequesting 1 3 60) s ∧
      lastOffer "eth0" zeroClient (untilRequesting 1 3 60) = some o ∧
      Arms s.world (reading (replyHeaders ++ ackReply 1 3)) renewal rebinding ∧
      (0 < renewal ∧ renewal < rebinding ∧ rebinding ≤ o.leaseTime.toNat ↔
        19 ≤ o.leaseTime.toNat ∧ o.leaseTime.toNat < 2 ^ 31) := by
  have hrun : eth0.Run (untilRequesting 1 3 60) _ := (System.path_of_runs (by decide +kernel)).run
  obtain ⟨-, o, r, b, h⟩ := lease_timers_ordered hrun (i := reading (replyHeaders ++ ackReply 1 3))
    (Or.inl (by decide +kernel)) (by decide +kernel)
  exact ⟨_, o, r, b, hrun, h.1, h.2.1, h.2.2.1⟩

/-- A lease of 10 s is rebound after 15 s. -/
theorem lease_timers_late :
    ∃ s o, eth0.Run (untilRequesting 1 3 10) s ∧ eth0.enabled s (ack 1 3) ∧
      lastOffer "eth0" zeroClient (untilRequesting 1 3 10) = some o ∧ o.leaseTime = 10 ∧
      Arms s.world (reading (replyHeaders ++ ackReply 1 3)) 5 15 := by
  have hrun : eth0.Run (untilRequesting 1 3 10) _ := (System.path_of_runs (by decide +kernel)).run
  exact ⟨_, ⟨0x0300a8c0, 0x0100a8c0, 0x00ffffff, 0x0100a8c0, 0x0100a8c0, 10⟩, hrun, by decide +kernel, by decide +kernel, rfl,
    by unfold Arms; decide +kernel⟩

end

end Monolinux
