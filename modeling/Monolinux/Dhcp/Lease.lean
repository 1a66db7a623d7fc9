import Monolinux.Dhcp.Step

/-!
# The lease that is bound

A REQUEST answers the OFFER that was read last before it.  What the client configures
when the ACK comes is the lease in the client, and an OFFER changes that in every
state.  `RepeatsLease` is the condition under which no OFFER does so outside SELECTING:

  then the lease that is bound is that of the OFFER that was answered,
  and no other step can be such that it stays            (`bound_lease_of_answered_offer`)
-/

namespace Monolinux

/-- What the client has read and answered. -/
structure Heard where
  /-- the packet read last -/
  last : Option (Bool × List UInt8)
  /-- the packet that was the last one when the last REQUEST was broadcast -/
  answered : Option (Bool × List UInt8)

def Heard.call (h : Heard) : Call → Heard
  | .read isPacketSocket buf => { h with last := some (isPacketSocket, buf) }
  | .broadcast _ buf => if isRequest buf then { h with answered := h.last } else h
  | _ => h

def heard (calls : List Call) : Heard := calls.foldl Heard.call ⟨none, none⟩

/-- The packet that the last REQUEST answered. -/
def packetAnswered (calls : List Call) : Option (Bool × List UInt8) := (heard calls).answered

section
variable [Host]

/-- The message that the last REQUEST answered. -/
def World.answered (w : World) : Option Message :=
  (packetAnswered w.kernel.calls).bind fun (isPacketSocket, buf) => decode isPacketSocket w.self.macAddress buf

/-- The calls that put the lease of `o` in force. -/
def Offer.boundCalls (o : Offer) (name : String) : List Call :=
  [.settime .resp 0 0, .settime .renew o.lease.renewalInterval 0, .settime .rebind o.lease.rebindingTime 0,
    .configure name o.ipAddress o.subnetMask 1500, .addRoute name o.gateway]

/-- If the step goes from REQUESTING to BOUND, it puts the lease of the OFFER that the client answered
in force, and keeps its server. -/
def BindsAnswered (w w' : World) : Prop :=
  w.self.state = .requesting → w'.self.state = .bound →
    ∃ o, w.answered = some (.offer o) ∧ w'.self.lease = o.lease ∧
      ∃ read, w'.kernel.calls = w.kernel.calls ++ read ++ o.boundCalls w.self.interfaceName

/-- Only an OFFER with the lease that the client has already is accepted outside SELECTING. -/
def RepeatsLease (s : DhcpState) : DhcpLabel → Prop
  | .iterate i => s.world.self.state ≠ .selecting →
      ∀ o, s.world.received i = some (.offer o) → o.lease = s.world.self.lease
  | _ => True

instance (s : DhcpState) (l : DhcpLabel) : Decidable (RepeatsLease s l) :=
  match l with
  | .iterate i => inferInstanceAs (Decidable (s.world.self.state ≠ .selecting →
      ∀ o, s.world.received i = some (.offer o) → o.lease = s.world.self.lease))
  | .start _ => isTrue trivial
  | .expire _ => isTrue trivial
  | .pollFailure => isTrue trivial
  | .stop => isTrue trivial

/-! ## The OFFER that was answered -/

omit [Host] in
theorem packetAnswered_read (calls : List Call) (p : Option (List UInt8)) (isPacketSocket : Bool) :
    packetAnswered (calls ++ (p.map (.read isPacketSocket)).toList) = packetAnswered calls := by
  unfold packetAnswered heard
  rw [List.foldl_append]
  cases p <;> rfl

theorem packetAnswered_request (calls : List Call) (isPacketSocket : Bool) (buf : List UInt8) (index : ℤ)
    (self : Client) :
    packetAnswered (calls ++ [.read isPacketSocket buf] ++ [.broadcast index (requestPacket self)] ++
      [.settime .resp 5 0]) = some (isPacketSocket, buf) := by
  unfold packetAnswered heard
  rw [List.foldl_append, List.foldl_append, List.foldl_append]
  simp only [List.foldl_cons, List.foldl_nil, Heard.call, isRequest_requestPacket, if_true]

/-- The client in REQUESTING has the lease of the OFFER that it answered. -/
structure LeaseInv (s : DhcpState) : Prop where
  initialised : s.phase = .initialised → s.world.self.state = .init
  requesting : s.world.self.state = .requesting → ∃ o, s.world.answered = some (.offer o) ∧ s.world.self.lease = o.lease

section
variable {w : World} {i : Input}

theorem updateEvents_answered : (w.updateEvents i).answered = w.answered := by
  unfold World.answered
  rw [updateEvents_kernel, updateEvents_macAddress, packetAnswered_read]

/-- A REQUEST answers the message that was just read. -/
theorem request_answered {m : Message} (hr : w.received i = some m) :
    ((w.updateEvents i).broadcastRequest true).2.enterRequesting.answered = some m := by
  unfold World.received at hr
  obtain ⟨buf, hp, hd⟩ := Option.bind_eq_some_iff.mp hr
  have hread : packetAnswered ((w.updateEvents i).broadcastRequest true).2.enterRequesting.kernel.calls =
      some (w.self.isPacketSocket, buf) := by
    show packetAnswered ((w.updateEvents i).kernel.calls ++ [_] ++ [_]) = _
    rw [updateEvents_kernel, hp]
    exact packetAnswered_request _ _ _ _ _
  have hmac : ((w.updateEvents i).broadcastRequest true).2.enterRequesting.self.macAddress = w.self.macAddress :=
    updateEvents_macAddress
  unfold World.answered
  rw [hread, hmac]
  exact hd

end

/-! ## The lease in REQUESTING -/

section
variable {s : DhcpState} {i : Input} {name : String} {mem : Client}

/-- **One iteration.** -/
theorem leaseInv_iterate (h : LeaseInv s) (hp : s.phase = .running) (hc : RepeatsLease s (.iterate i)) :
    LeaseInv { s with world := s.world.iterate i } where
  initialised hi := by rw [hp] at hi; cases hi
  requesting hr := by
    have hm := s.world.iterate_move i
    have hlease := s.world.iterate_lease i
    dsimp only at hr ⊢
    generalize s.world.iterate i = w' at hm hlease hr ⊢
    cases hm with
    | stay =>
      rw [updateEvents_state] at hr
      obtain ⟨o, ha, ho⟩ := h.requesting hr
      refine ⟨o, updateEvents_answered.trans ha, ?_⟩
      rw [hlease, ← ho]
      -- an OFFER in REQUESTING repeats the lease
      cases hm : s.world.received i with
      | none => rfl
      | some m =>
        cases m with
        | offer o' => exact hc (by rw [hr]; nofun) o' hm
        | ack => rfl
        | nak => rfl
    | discover => cases hr
    | discoverFails hs =>
      have hr' : (s.world.updateEvents i).self.state = .requesting := hr
      rw [hs] at hr'
      cases hr'
    | request hs ho =>
      rw [updateEvents_packetType] at ho
      obtain ⟨o, ho⟩ := Message.packetType_offer ho
      exact ⟨o, request_answered ho, by rw [hlease, ho]; rfl⟩
    | requestFails => cases hr
    | giveUp => cases hr
    | bind =>
      rw [World.enterBound_state] at hr
      split at hr <;> cases hr
    | renew => cases hr
    | renewFails => cases hr

theorem leaseInv_next (h : LeaseInv s) {l : DhcpLabel} (he : (dhcp name mem).enabled s l) (hc : RepeatsLease s l) :
    LeaseInv ((dhcp name mem).next s l) := by
  cases l with
  | start i =>
    have hstate : ((dhcp name mem).next s (.start i)).world.self.state = .init :=
      (s.world.mlDhcpClientStart_state i).trans (h.initialised he)
    exact ⟨fun hp => absurd hp (next_start_phase s i nofun nofun), fun hr => by rw [hstate] at hr; cases hr⟩
  | expire t => exact ⟨h.initialised, h.requesting⟩
  | iterate i => exact leaseInv_iterate h he hc
  | pollFailure => exact ⟨nofun, h.requesting⟩
  | stop =>
    refine ⟨nofun, fun hr => ?_⟩
    have hself : ((dhcp name mem).next s .stop).world.self = s.world.self := s.world.destroy_self
    have hcalls : ((dhcp name mem).next s .stop).world.kernel.calls = s.world.kernel.calls := s.world.destroy_calls
    rw [hself] at hr
    obtain ⟨o, ha, ho⟩ := h.requesting hr
    refine ⟨o, ?_, by rw [hself]; exact ho⟩
    unfold World.answered
    rw [hself, hcalls]
    exact ha

omit [Host] in
theorem boundCalls_of_lease {w : World} {o : Offer} (h : w.self.lease = o.lease) :
    w.boundCalls = o.boundCalls w.self.interfaceName := by
  have hrenew : w.self.renewalInterval = o.lease.renewalInterval := congrArg Lease.renewalInterval h
  have hrebind : w.self.rebindingTime = o.lease.rebindingTime := congrArg Lease.rebindingTime h
  have hip : w.self.ipAddress = o.ipAddress := congrArg Lease.ipAddress h
  have hmask : w.self.subnetMask = o.subnetMask := congrArg Lease.subnetMask h
  have hgateway : w.self.gateway = o.gateway := congrArg Lease.gateway h
  unfold World.boundCalls Offer.boundCalls
  rw [hrenew, hrebind, hip, hmask, hgateway]

/-- An iteration from REQUESTING to BOUND took an ACK, and set up the UDP socket. -/
theorem bind_of_requesting {w : World} (hr : w.self.state = .requesting) (hb : (w.iterate i).self.state = .bound) :
    w.received i = some .ack ∧ i.udpSocket.udpOk = true ∧ w.iterate i = (w.updateEvents i).enterBound i := by
  have hm := w.iterate_move i
  have hs := updateEvents_state (w := w) (i := i)
  rw [hr] at hs
  generalize w.iterate i = w' at hm hb ⊢
  cases hm with
  | stay =>
    rw [hs] at hb
    cases hb
  | discover hi => rw [hs] at hi; cases hi
  | discoverFails hi => rw [hs] at hi; cases hi
  | request => cases hb
  | requestFails => cases hb
  | giveUp => cases hb
  | bind _ hp =>
    rw [updateEvents_packetType] at hp
    refine ⟨Message.packetType_ack hp, ?_, rfl⟩
    rw [World.enterBound_state] at hb
    by_contra hu
    rw [if_neg hu] at hb
    cases hb
  | renew => cases hb
  | renewFails => cases hb

/-- **The lease that is bound** from REQUESTING is that of the OFFER that was answered. -/
theorem LeaseInv.binds (h : LeaseInv s) {l : DhcpLabel} (he : (dhcp name mem).enabled s l) :
    BindsAnswered s.world ((dhcp name mem).next s l).world := by
  intro hr hb
  obtain ⟨o, ha, ho⟩ := h.requesting hr
  cases l with
  | iterate i =>
    obtain ⟨hack, hu, hi⟩ := bind_of_requesting hr hb
    have hw : ((dhcp name mem).next s (.iterate i)).world = (s.world.updateEvents i).enterBound i := hi
    have hlease : (s.world.updateEvents i).self.lease = o.lease := by
      rw [updateEvents_lease, hack]
      exact ho
    refine ⟨o, ha, ?_, ((World.packet i).map (.read s.world.self.isPacketSocket)).toList, ?_⟩
    · rw [hw, (World.sameData_enterBound _ i).lease, hlease]
    · rw [hw, World.enterBound_calls _ hu, boundCalls_of_lease hlease, updateEvents_interfaceName, updateEvents_kernel]
  | start i =>
    have hi := h.initialised he
    rw [hr] at hi
    cases hi
  | expire t => exact absurd (hr.symm.trans hb) nofun
  | pollFailure => exact absurd (hr.symm.trans hb) nofun
  | stop =>
    have hself : ((dhcp name mem).next s .stop).world.self = s.world.self := s.world.destroy_self
    rw [hself, hr] at hb
    cases hb

theorem leaseInv_run {tr : List DhcpLabel} (h : ((dhcp name mem).restrict RepeatsLease).Run tr s) : LeaseInv s := by
  refine h.invariant LeaseInv ⟨fun _ => rfl, fun hr => ?_⟩ ?_
  · cases hr
  · intro s l hi he
    exact leaseInv_next hi he.1 he.2

theorem repeatsLease_iff (hs : s.world.self.state ≠ .selecting) :
    RepeatsLease s (.iterate i) ↔ (s.world.iterate i).self.lease = s.world.self.lease := by
  rw [s.world.iterate_lease i]
  constructor
  · intro hc
    rcases hm : s.world.received i with _ | (o | _ | _)
    · rfl
    · exact hc hs o hm
    · rfl
    · rfl
  · rintro he - o ho
    rw [ho] at he
    exact he

/-- The lease after a step. -/
theorem next_lease {l : DhcpLabel} (hs : s.world.self.state ≠ .selecting) :
    RepeatsLease s l ↔ ((dhcp name mem).next s l).world.self.lease = s.world.self.lease := by
  cases l with
  | iterate i => exact repeatsLease_iff hs
  | start i => exact iff_of_true trivial ((congrArg _ (s.world.mlDhcpClientStart_self i)).trans (s.world.setup_init i).lease)
  | expire t => exact iff_of_true trivial rfl
  | pollFailure => exact iff_of_true trivial rfl
  | stop => exact iff_of_true trivial (congrArg _ s.world.destroy_self)

end

/-- **The bound lease is that of the answered OFFER**, and an OFFER outside SELECTING changes
nothing, in every run whose OFFERs outside SELECTING repeat the lease; any other OFFER changes it. -/
theorem bound_lease_of_answered_offer (name : String) (mem : Client) :
    (∀ tr s, ((dhcp name mem).restrict RepeatsLease).Run tr s →
      ∀ l, ((dhcp name mem).restrict RepeatsLease).enabled s l →
        BindsAnswered s.world ((dhcp name mem).next s l).world ∧
          (s.world.self.state ≠ .selecting →
            ((dhcp name mem).next s l).world.self.lease = s.world.self.lease)) ∧
      ∀ tr s, (dhcp name mem).Run tr s → ∀ l, (dhcp name mem).enabled s l → ¬ RepeatsLease s l →
        s.world.self.state ≠ .selecting ∧ ((dhcp name mem).next s l).world.self.lease ≠ s.world.self.lease := by
  constructor
  · intro tr s h l he
    exact ⟨(leaseInv_run h).binds he.1, fun hs => (next_lease hs).mp he.2⟩
  · intro tr s _ l _ hc
    have hs : s.world.self.state ≠ .selecting := by
      intro hs
      apply hc
      cases l with
      | iterate i => exact fun hne => absurd hs hne
      | _ => trivial
    exact ⟨hs, fun h => hc ((next_lease hs).mpr h)⟩

end

/-! ## Two servers -/

section

/-- The IPv4 and UDP headers of a reply. -/
def replyHeaders : List UInt8 :=
  [0x45, 0, 0x02, 0x5c, 0, 0x11, 0, 0, 255, 17, 0xb9, 0x80, 0, 0, 0, 0, 255, 255, 255, 255] ++
    [0, 67, 0, 68, 0x02, 0x48, 0, 0]

/-- A reply to the MAC address 1:2:3:4:5:6, with the address 192.168.0.`ip`. -/
def reply (ip : UInt8) (options : List UInt8) : List UInt8 :=
  [2, 1, 6, 0, 0x32, 0x49, 0x36, 0x78] ++ List.replicate 8 0 ++ [192, 168, 0, ip] ++ List.replicate 8 0 ++
    [1, 2, 3, 4, 5, 6] ++ List.replicate 202 0 ++ [0x63, 0x82, 0x53, 0x63] ++ options ++ [255]

/-- The server 192.168.0.`server` offers a lease. -/
def offerReply (server ip : UInt8) (leaseTime : UInt32) : List UInt8 :=
  reply ip ([53, 1, 2, 54, 4, 192, 168, 0, server, 51, 4] ++ bytes32 leaseTime ++
    [1, 4, 255, 255, 255, 0, 3, 4, 192, 168, 0, server, 6, 4, 192, 168, 0, server])

def ackReply (server ip : UInt8) : List UInt8 := reply ip [53, 1, 5, 54, 4, 192, 168, 0, server]

local instance littleEndian : Host := ⟨true⟩

def startOk : StartInput where
  interfaceIndex := some 5
  macAddress := some #v[1, 2, 3, 4, 5, 6]
  packetSocket := ⟨some 3, true, true⟩
  timerfd
    | .renew => some 4
    | .rebind => some 5
    | .resp => some 6
    | .init => some 7
  pthreadCreate := true

/-- The hardware address that `startOk` finds. -/
def clientMacAddress : Vector UInt8 6 := #v[1, 2, 3, 4, 5, 6]

/-- Nothing to read but timers, and every call succeeds. -/
def timersOnly : Input where
  event := .none
  readOk _ := true
  sendOk := true
  packetSocket := ⟨some 3, true, true⟩
  udpSocket := ⟨some 3, true, true⟩

def reading (packet : List UInt8) : Input := { timersOnly with event := .pollin (some packet) }

/-- The client before `ml_dhcp_client_init`. -/
def zeroClient : Client where
  state := .init
  packetType := .offer
  ipAddress := 0
  subnetMask := 0
  gateway := 0
  dns := 0
  leaseTime := 0
  renewalInterval := 0
  rebindingTime := 0
  renewalTimerExpired := false
  rebindingTimerExpired := false
  responseTimerExpired := false
  initTimerExpired := false
  isPacketSocket := false
  sock := 0
  timerFd _ := 0
  server := 0
  interfaceName := ""
  interfaceIndex := 0
  macAddress := #v[0, 0, 0, 0, 0, 0]

/-- The server acknowledges. -/
def ack (server ip : UInt8) : DhcpLabel := .iterate (reading (replyHeaders ++ ackReply server ip))

def offer (server ip : UInt8) (leaseTime : UInt32) : DhcpLabel :=
  .iterate (reading (replyHeaders ++ offerReply server ip leaseTime))

/-- The client requests the lease that the server offers. -/
def untilRequesting (server ip : UInt8) (leaseTime : UInt32) : List DhcpLabel :=
  [.start startOk, .expire .init, .iterate timersOnly, offer server ip leaseTime]

abbrev eth0 : System DhcpState DhcpLabel := dhcp "eth0" zeroClient

theorem untilRequesting_path : (eth0.restrict RepeatsLease).Path eth0.start (untilRequesting 1 3 60)
    ((untilRequesting 1 3 60).foldl eth0.next eth0.start) :=
  System.path_of_runs (by decide +kernel)

theorem bound_lease_of_answered_offer_one :
    ∃ s, (eth0.restrict RepeatsLease).Run (untilRequesting 1 3 60) s ∧
      ((eth0.next s (ack 1 3)).world.self.state = .bound ∧ BindsAnswered s.world (eth0.next s (ack 1 3)).world) ∧
      (eth0.next s (offer 2 9 60)).world.self.lease ≠ s.world.self.lease := by
  have hrun := untilRequesting_path.run
  refine ⟨_, hrun, ⟨by decide +kernel, ?_⟩, ?_⟩
  · exact ((bound_lease_of_answered_offer "eth0" zeroClient).1 _ _ hrun (ack 1 3) (by decide +kernel)).1
  · exact ((bound_lease_of_answered_offer "eth0" zeroClient).2 _ _ hrun.of_restrict (offer 2 9 60) (by decide +kernel)
      (by decide +kernel)).2

/-- Another OFFER is read in REQUESTING. -/
abbrev offeredAgain : DhcpState := (untilRequesting 1 3 60 ++ [offer 2 9 60]).foldl eth0.next eth0.start

/-- What is computed of the state and of the next. -/
theorem offeredAgain_facts :
    eth0.runs eth0.start (untilRequesting 1 3 60 ++ [offer 2 9 60]) = true ∧ eth0.enabled offeredAgain (ack 1 3) ∧
      offeredAgain.world.self.state = .requesting ∧ (eth0.next offeredAgain (ack 1 3)).world.self.state = .bound ∧
      offeredAgain.world.answered = some (.offer ⟨0x0300a8c0, 0x0100a8c0, 0x00ffffff, 0x0100a8c0, 0x0100a8c0, 60⟩) ∧
      (eth0.next offeredAgain (ack 1 3)).world.self.lease ≠
        Offer.lease ⟨0x0300a8c0, 0x0100a8c0, 0x00ffffff, 0x0100a8c0, 0x0100a8c0, 60⟩ := by
  decide +kernel

/-- The client has requested 192.168.0.3 from 192.168.0.1.  An OFFER of 192.168.0.9 by 192.168.0.2 comes,
and then the ACK: the client configures 192.168.0.9. -/
theorem bound_lease_of_other_offer :
    ∃ tr s, eth0.Run tr s ∧ eth0.enabled s (ack 1 3) ∧ s.world.self.state = .requesting ∧
      (eth0.next s (ack 1 3)).world.self.state = .bound ∧ ¬ BindsAnswered s.world (eth0.next s (ack 1 3)).world := by
  obtain ⟨hruns, henabled, hrequesting, hbound, hans, hlease⟩ := offeredAgain_facts
  have hrun : eth0.Run (untilRequesting 1 3 60 ++ [offer 2 9 60]) offeredAgain := (System.path_of_runs hruns).run
  refine ⟨_, _, hrun, henabled, hrequesting, hbound, fun h => ?_⟩
  obtain ⟨o, ha, ho, -⟩ := h hrequesting hbound
  rw [hans] at ha
  cases ha
  exact hlease ho

end

end Monolinux
