import Monolinux.Dhcp.Client

/-!
# What an iteration does

An iteration takes in the events (`updateEvents_self`, `updateEvents_kernel`), and then
makes one `Move` (`processEvents_move`).  Nothing but a received message changes the
data of the lease (`Move.lease`), and the calls of an iteration are appended to those
before.
-/

namespace Monolinux

/-- The data of a lease in the client. -/
structure Lease where
  ipAddress : InAddr
  server : InAddr
  subnetMask : InAddr
  gateway : InAddr
  dns : InAddr
  leaseTime : ℤ
  renewalInterval : ℤ
  rebindingTime : ℤ
deriving DecidableEq

def Client.lease (self : Client) : Lease where
  ipAddress := self.ipAddress
  server := self.server
  subnetMask := self.subnetMask
  gateway := self.gateway
  dns := self.dns
  leaseTime := self.leaseTime
  renewalInterval := self.renewalInterval
  rebindingTime := self.rebindingTime

/-- The data of a lease that an OFFER leads to. -/
def Offer.lease (o : Offer) : Lease where
  ipAddress := o.ipAddress
  server := o.server
  subnetMask := o.subnetMask
  gateway := o.gateway
  dns := o.dns
  leaseTime := toInt o.leaseTime
  renewalInterval := (toInt o.leaseTime).tdiv 2
  rebindingTime := (toInt o.leaseTime).tdiv 2 + 10

namespace Message

def packetType : Option Message → PacketType
  | none => .none
  | some (.offer _) => .offer
  | some .ack => .ack
  | some .nak => .nak

/-- The data of the lease after the message. -/
def lease (l : Lease) : Option Message → Lease
  | some (.offer o) => o.lease
  | _ => l

theorem packetType_offer {m : Option Message} (h : packetType m = .offer) : ∃ o, m = some (.offer o) := by
  rcases m with _ | (o | _ | _)
  · cases h
  · exact ⟨o, rfl⟩
  · cases h
  · cases h

theorem packetType_ack {m : Option Message} (h : packetType m = .ack) : m = some .ack := by
  rcases m with _ | (_ | _ | _)
  · cases h
  · cases h
  · rfl
  · cases h

end Message

namespace World

variable [Host] (w : World)

/-- What `read` returns. -/
def packet (i : Input) : Option (List UInt8) :=
  match i.event with
  | .pollin (some packet) => some (packet.take 1024)
  | _ => none

/-- The message that the iteration takes. -/
def received (i : Input) : Option Message :=
  (packet i).bind (decode w.self.isPacketSocket w.self.macAddress)

/-- The iteration reads an expiry of the timer. -/
def expired (i : Input) (t : TimerIx) : Bool := (w.kernel.timer t).unread && i.readOk t

/-- The timers after their expiries have been read. -/
def timersRead (i : Input) (t : TimerIx) : TimerFd :=
  if w.expired i t then { w.kernel.timer t with unread := false } else w.kernel.timer t

end World

/-! ## The events of an iteration -/

section
variable [Host] {w : World} {i : Input}

omit [Host] in
theorem receive_packetType (self : Client) (m : Option Message) :
    ({ self with packetType := .none }.receive m).packetType = Message.packetType m := by
  rcases m with _ | (_ | _ | _) <;> rfl

omit [Host] in
theorem receive_lease (self : Client) (m : Option Message) :
    ({ self with packetType := .none }.receive m).lease = Message.lease self.lease m := by
  rcases m with _ | (_ | _ | _) <;> rfl

omit [Host] in
/-- A message changes nothing but the packet type and the lease. -/
theorem receive_frame {α : Type*} (f : Client → α) (hp : ∀ c p, f { c with packetType := p } = f c)
    (ho : ∀ c o, f (Client.withOffer c o) = f c) (self : Client) (m : Option Message) :
    f ({ self with packetType := .none }.receive m) = f self := by
  rcases m with _ | (o | _ | _)
  · exact hp self .none
  · exact (ho _ o).trans (hp self .none)
  · exact hp self .ack
  · exact hp self .nak

theorem decode_nil (isPacketSocket : Bool) (macAddress : Vector UInt8 6) : decode isPacketSocket macAddress [] = none := by
  cases isPacketSocket <;> rfl

theorem readSocket_self : (w.readSocket i.event).self = { w.self with packetType := .none }.receive (w.received i) := by
  unfold World.readSocket World.received World.packet
  match i.event with
  | .none => rfl
  | .pollerr => rfl
  | .pollin none => rfl
  | .pollin (some packet) =>
    simp only [Option.bind_some]
    by_cases h : 0 < (packet.take 1024).length
    · rw [if_pos h, unpackPacket_eq]
      rfl
    · rw [if_neg h]
      have hnil : packet.take 1024 = [] := List.eq_nil_of_length_eq_zero (by omega)
      rw [hnil, decode_nil]
      rfl

theorem readSocket_kernel : (w.readSocket i.event).kernel =
    { w.kernel with calls := w.kernel.calls ++ ((World.packet i).map (.read w.self.isPacketSocket)).toList } := by
  unfold World.readSocket World.packet
  match i.event with
  | .none => simp
  | .pollerr => simp
  | .pollin none => simp
  | .pollin (some packet) =>
    simp only
    split <;> rfl

omit [Host] in
theorem isTimeout_eq (t : TimerIx) :
    w.isTimeout i.readOk t = (w.expired i t, { w with kernel := { w.kernel with
      timer := Function.update w.kernel.timer t (w.timersRead i t) } }) := by
  unfold World.isTimeout World.timersRead World.expired
  split
  · next h => simp [h]
  · next h => simp [h]

omit [Host] in
theorem readTimers_eq : w.readTimers i.readOk =
    { self := { w.self with
        renewalTimerExpired := w.expired i .renew
        rebindingTimerExpired := w.expired i .rebind
        responseTimerExpired := w.expired i .resp
        initTimerExpired := w.expired i .init }
      kernel := { w.kernel with timer := w.timersRead i } } := by
  have htimer : Function.update (Function.update (Function.update (Function.update w.kernel.timer
      .renew (w.timersRead i .renew)) .rebind (w.timersRead i .rebind)) .resp (w.timersRead i .resp))
      .init (w.timersRead i .init) = w.timersRead i := by
    funext t
    cases t <;> rfl
  rw [← htimer]
  unfold World.readTimers
  rw [isTimeout_eq]
  dsimp only
  rw [isTimeout_eq]
  dsimp only
  rw [isTimeout_eq]
  dsimp only
  rw [isTimeout_eq]
  rfl

/-- The client after `update_events`. -/
theorem updateEvents_self : (w.updateEvents i).self =
    { { w.self with packetType := .none }.receive (w.received i) with
      renewalTimerExpired := w.expired i .renew
      rebindingTimerExpired := w.expired i .rebind
      responseTimerExpired := w.expired i .resp
      initTimerExpired := w.expired i .init } := by
  unfold World.updateEvents
  rw [readTimers_eq, readSocket_self]
  unfold World.expired
  rw [readSocket_kernel]

theorem updateEvents_kernel : (w.updateEvents i).kernel =
    { w.kernel with
      timer := w.timersRead i
      calls := w.kernel.calls ++ ((World.packet i).map (.read w.self.isPacketSocket)).toList } := by
  unfold World.updateEvents
  rw [readTimers_eq, readSocket_kernel]
  unfold World.timersRead World.expired
  rw [readSocket_kernel]

theorem updateEvents_packetType : (w.updateEvents i).self.packetType = Message.packetType (w.received i) := by
  rw [updateEvents_self]
  exact receive_packetType _ _

theorem updateEvents_lease : (w.updateEvents i).self.lease = Message.lease w.self.lease (w.received i) := by
  rw [updateEvents_self]
  exact receive_lease _ _

theorem updateEvents_macAddress : (w.updateEvents i).self.macAddress = w.self.macAddress := by
  rw [updateEvents_self]
  exact receive_frame Client.macAddress (fun _ _ => rfl) (fun _ _ => rfl) _ _

theorem updateEvents_interfaceName : (w.updateEvents i).self.interfaceName = w.self.interfaceName := by
  rw [updateEvents_self]
  exact receive_frame Client.interfaceName (fun _ _ => rfl) (fun _ _ => rfl) _ _

theorem updateEvents_state : (w.updateEvents i).self.state = w.self.state := by
  rw [updateEvents_self]
  exact receive_frame Client.state (fun _ _ => rfl) (fun _ _ => rfl) _ _

end

/-! ## Moves -/

/-- The timer that ends a state when nothing else does. -/
def ClientState.timer : ClientState → TimerIx
  | .init => .init
  | .selecting => .resp
  | .requesting => .resp
  | .bound => .renew
  | .renewing => .resp

def Client.timerExpired (self : Client) : TimerIx → Bool
  | .renew => self.renewalTimerExpired
  | .rebind => self.rebindingTimerExpired
  | .resp => self.responseTimerExpired
  | .init => self.initTimerExpired

/-- An ACK is taken. -/
def binds (state : ClientState) (packetType : PacketType) : Bool :=
  (state = .requesting || state = .renewing) && packetType = .ack

/-- The events lead back to INIT: a timeout, a NAK, or a REQUEST that cannot be sent. -/
def givesUp (state : ClientState) (packetType : PacketType) (expired : TimerIx → Bool) (sendOk : Bool) : Bool :=
  match state with
  | .init => false
  | .selecting => if packetType = .offer then !sendOk else expired .resp
  | .requesting => packetType ≠ .ack && (packetType = .nak || expired .resp)
  | .bound => expired .renew && !sendOk
  | .renewing => packetType ≠ .ack && (packetType = .nak || expired .resp || expired .rebind)

namespace Client

def Binds (self : Client) : Prop := binds self.state self.packetType = true

def GivesUp (self : Client) (sendOk : Bool) : Prop :=
  givesUp self.state self.packetType self.timerExpired sendOk = true

end Client

namespace World

variable [Host]

/-- What `process_events` does with the events it finds. -/
inductive Move (i : Input) (w : World) : World → Prop
  | stay (h : w.self.timerExpired w.self.state.timer = false) (hb : ¬ w.self.Binds)
      (hg : ¬ w.self.GivesUp i.sendOk) : Move i w w
  | discover (hs : w.self.state = .init) (he : w.self.initTimerExpired = true) (hsend : i.sendOk = true) :
      Move i w (w.broadcastDiscover true).2.enterSelecting
  | discoverFails (hs : w.self.state = .init) (he : w.self.initTimerExpired = true) (hsend : i.sendOk = false) :
      Move i w ((w.broadcastDiscover false).2.setInitTimer 10 0).2
  | request (hs : w.self.state = .selecting) (hp : w.self.packetType = .offer) (hsend : i.sendOk = true) :
      Move i w (w.broadcastRequest true).2.enterRequesting
  | requestFails (hs : w.self.state = .selecting) (hp : w.self.packetType = .offer) (hsend : i.sendOk = false) :
      Move i w ((w.broadcastRequest false).2.enterInit i)
  /-- after a timeout or a NAK -/
  | giveUp (hb : w.self.state ≠ .bound) (hg : w.self.GivesUp i.sendOk) : Move i w (w.enterInit i)
  | bind (hs : w.self.state = .requesting ∨ w.self.state = .renewing) (hp : w.self.packetType = .ack) :
      Move i w (w.enterBound i)
  | renew (hs : w.self.state = .bound) (he : w.self.renewalTimerExpired = true) (hsend : i.sendOk = true) :
      Move i w (w.sendRequest true).2.enterRenewing
  | renewFails (hs : w.self.state = .bound) (he : w.self.renewalTimerExpired = true) (hsend : i.sendOk = false) :
      Move i w ((w.sendRequest false).2.enterInit i)

end World

section
variable [Host] {w : World} {i : Input}

theorem updateEvents_timerExpired (t : TimerIx) : (w.updateEvents i).self.timerExpired t = w.expired i t := by
  rw [updateEvents_self]
  cases t <;> rfl

theorem processEventsInit_move (hs : w.self.state = .init) : w.Move i (w.processEventsInit i) := by
  unfold World.processEventsInit
  split
  · next he =>
    cases hsend : i.sendOk with
    | true => exact .discover hs he hsend
    | false => exact .discoverFails hs he hsend
  · next h =>
    refine .stay ?_ ?_ ?_
    · rw [hs]; exact Bool.eq_false_iff.mpr h
    · simp [Client.Binds, binds, hs]
    · simp [Client.GivesUp, givesUp, hs]

theorem processEventsSelecting_move (hs : w.self.state = .selecting) : w.Move i (w.processEventsSelecting i) := by
  have hnb : w.self.state ≠ .bound := by rw [hs]; nofun
  unfold World.processEventsSelecting
  split
  · next hp =>
    cases hsend : i.sendOk with
    | true => exact .request hs hp hsend
    | false => exact .requestFails hs hp hsend
  next hp =>
  split
  · next he => exact .giveUp hnb (by simp [Client.GivesUp, givesUp, Client.timerExpired, hs, hp, he])
  · next h =>
    refine .stay ?_ ?_ ?_
    · rw [hs]; exact Bool.eq_false_iff.mpr h
    · simp [Client.Binds, binds, hs]
    · simp [Client.GivesUp, givesUp, Client.timerExpired, hs, hp, h]

theorem processEventsRequesting_move (hs : w.self.state = .requesting) : w.Move i (w.processEventsRequesting i) := by
  have hnb : w.self.state ≠ .bound := by rw [hs]; nofun
  unfold World.processEventsRequesting
  split
  · next hp => exact .bind (Or.inl hs) hp
  next hp =>
  split
  · next hn => exact .giveUp hnb (by simp [Client.GivesUp, givesUp, hs, hn])
  next hn =>
  split
  · next he => exact .giveUp hnb (by simp [Client.GivesUp, givesUp, Client.timerExpired, hs, hp, he])
  · next h =>
    refine .stay ?_ ?_ ?_
    · rw [hs]; exact Bool.eq_false_iff.mpr h
    · simp [Client.Binds, binds, hp]
    · simp [Client.GivesUp, givesUp, Client.timerExpired, hs, hn, h]

theorem processEventsBound_move (hs : w.self.state = .bound) : w.Move i (w.processEventsBound i) := by
  unfold World.processEventsBound
  split
  · next he =>
    cases hsend : i.sendOk with
    | true => exact .renew hs he hsend
    | false => exact .renewFails hs he hsend
  · next h =>
    refine .stay ?_ ?_ ?_
    · rw [hs]; exact Bool.eq_false_iff.mpr h
    · simp [Client.Binds, binds, hs]
    · simp [Client.GivesUp, givesUp, Client.timerExpired, hs, h]

theorem processEventsRenewing_move (hs : w.self.state = .renewing) : w.Move i (w.processEventsRenewing i) := by
  have hnb : w.self.state ≠ .bound := by rw [hs]; nofun
  unfold World.processEventsRenewing
  split
  · next hp => exact .bind (Or.inr hs) hp
  next hp =>
  split
  · next hn => exact .giveUp hnb (by simp [Client.GivesUp, givesUp, hs, hn])
  next hn =>
  split
  · next he => exact .giveUp hnb (by simp [Client.GivesUp, givesUp, Client.timerExpired, hs, hp, he])
  next h =>
  split
  · next he => exact .giveUp hnb (by simp [Client.GivesUp, givesUp, Client.timerExpired, hs, hp, he])
  · next hr =>
    refine .stay ?_ ?_ ?_
    · rw [hs]; exact Bool.eq_false_iff.mpr h
    · simp [Client.Binds, binds, hp]
    · simp [Client.GivesUp, givesUp, Client.timerExpired, hs, hn, h, hr]

/-- **`process_events`** makes one move. -/
theorem processEvents_move (w : World) (i : Input) : w.Move i (w.processEvents i) := by
  unfold World.processEvents
  split
  · next hs => exact processEventsInit_move hs
  · next hs => exact processEventsSelecting_move hs
  · next hs => exact processEventsRequesting_move hs
  · next hs => exact processEventsBound_move hs
  · next hs => exact processEventsRenewing_move hs

/-- An ACK is taken wherever it comes from. -/
theorem processEvents_ack (hs : w.self.state = .requesting ∨ w.self.state = .renewing)
    (hp : w.self.packetType = .ack) : w.processEvents i = w.enterBound i := by
  rcases hs with hs | hs
  · simp only [World.processEvents, hs, World.processEventsRequesting, if_pos hp]
  · simp only [World.processEvents, hs, World.processEventsRenewing, if_pos hp]

/-- A NAK is taken wherever it comes from. -/
theorem processEvents_nak (hs : w.self.state = .requesting ∨ w.self.state = .renewing)
    (hp : w.self.packetType = .nak) : w.processEvents i = w.enterInit i := by
  have hna : w.self.packetType ≠ .ack := by rw [hp]; nofun
  rcases hs with hs | hs
  · simp only [World.processEvents, hs, World.processEventsRequesting, if_neg hna, if_pos hp]
  · simp only [World.processEvents, hs, World.processEventsRenewing, if_neg hna, if_pos hp]

end

/-! ## Entering a state -/

namespace SocketOutcome

def packetOk (o : SocketOutcome) : Bool := o.socket.isSome && (o.bind && o.setsockopt)

def udpOk (o : SocketOutcome) : Bool := o.socket.isSome && o.bind

end SocketOutcome

namespace World

variable (w : World)

/-- `enter_bound` up to the set-up of the socket. -/
def configured : World :=
  (((w.cancelResponseTimer.setRenewalTimer.2.setRebindingTimer.2).configureInterface).close w.self.sock).changeState
    .bound

/-- `enter_init` up to the set-up of the socket. -/
def unconfigured : World := (w.cancelResponseTimer.cancelRebindingTimer.setInitTimer 10 0).2.close w.self.sock

/-- The calls of `enter_bound`. -/
def boundCalls : List Call :=
  [.settime .resp 0 0, .settime .renew w.self.renewalInterval 0, .settime .rebind w.self.rebindingTime 0,
    .configure w.self.interfaceName w.self.ipAddress w.self.subnetMask 1500,
    .addRoute w.self.interfaceName w.self.gateway]

theorem setupSocket_fst (kind : DescriptorKind) (isPacketSocket : Bool) (socket : Option ℕ) (ok : Bool) :
    (w.setupSocket kind isPacketSocket socket ok).1 = (socket.isSome && ok) := by
  cases socket with
  | none => rfl
  | some n => cases ok <;> rfl

/-- The set-up of a socket changes the socket and nothing else. -/
theorem setupSocket_frame (kind : DescriptorKind) (isPacketSocket : Bool) (socket : Option ℕ) (ok : Bool) :
    (w.setupSocket kind isPacketSocket socket ok).2.self.state = w.self.state ∧
      (w.setupSocket kind isPacketSocket socket ok).2.kernel.timer = w.kernel.timer ∧
      (w.setupSocket kind isPacketSocket socket ok).2.kernel.calls = w.kernel.calls := by
  cases socket with
  | none => exact ⟨rfl, rfl, rfl⟩
  | some n => cases ok <;> exact ⟨rfl, rfl, rfl⟩

theorem enterBound_eq (i : Input) : w.enterBound i =
    if i.udpSocket.udpOk then (w.configured.setupUdpSocket i.udpSocket).2
    else (w.configured.setupUdpSocket i.udpSocket).2.enterInit i := by
  have hfst : (w.configured.setupUdpSocket i.udpSocket).1 = i.udpSocket.udpOk := setupSocket_fst _ _ _ _ _
  rw [← hfst]
  unfold enterBound
  dsimp only
  split
  · next w' h =>
    have hset : w.configured.setupUdpSocket i.udpSocket = (true, w') := h
    rw [hset]
    rfl
  · next w' h =>
    have hset : w.configured.setupUdpSocket i.udpSocket = (false, w') := h
    rw [hset]
    rfl

theorem enterInit_state (i : Input) : (w.enterInit i).self.state = .init := rfl

theorem enterBound_state (i : Input) :
    (w.enterBound i).self.state = if i.udpSocket.udpOk then .bound else .init := by
  rw [enterBound_eq]
  split
  · exact (setupSocket_frame w.configured _ _ _ _).1
  · rfl

theorem enterBound_calls {i : Input} (h : i.udpSocket.udpOk = true) :
    (w.enterBound i).kernel.calls = w.kernel.calls ++ w.boundCalls := by
  rw [enterBound_eq, if_pos h]
  refine (setupSocket_frame w.configured _ _ _ _).2.2.trans ?_
  show ((((w.kernel.calls ++ [_]) ++ [_]) ++ [_]) ++ [_]) ++ [_] = _
  simp only [List.append_assoc]
  rfl

end World

/-! ## The data of the lease -/

namespace World

/-- The lease, the interface and the descriptors of the timers are as before. -/
structure SameData (w w' : World) : Prop where
  lease : w'.self.lease = w.self.lease
  macAddress : w'.self.macAddress = w.self.macAddress
  interfaceName : w'.self.interfaceName = w.self.interfaceName
  interfaceIndex : w'.self.interfaceIndex = w.self.interfaceIndex
  timerFd : w'.self.timerFd = w.self.timerFd

variable {w w' w'' : World} {i : Input}

theorem SameData.refl (w : World) : SameData w w := ⟨rfl, rfl, rfl, rfl, rfl⟩

theorem SameData.trans (h : SameData w w') (h' : SameData w' w'') : SameData w w'' :=
  ⟨h'.lease.trans h.lease, h'.macAddress.trans h.macAddress, h'.interfaceName.trans h.interfaceName,
    h'.interfaceIndex.trans h.interfaceIndex, h'.timerFd.trans h.timerFd⟩

theorem sameData_setupSocket (w : World) (kind : DescriptorKind) (isPacketSocket : Bool) (socket : Option ℕ)
    (ok : Bool) : SameData w (w.setupSocket kind isPacketSocket socket ok).2 := by
  cases socket with
  | none => exact .refl w
  | some n => cases ok <;> exact ⟨rfl, rfl, rfl, rfl, rfl⟩

theorem sameData_broadcastPacket (w : World) (sendOk : Bool) (buf : List UInt8) :
    SameData w (w.broadcastPacket sendOk buf).2 := by
  cases sendOk <;> exact ⟨rfl, rfl, rfl, rfl, rfl⟩

theorem sameData_sendPacket (w : World) (sendOk : Bool) (buf : List UInt8) :
    SameData w (w.sendPacket sendOk buf).2 := by
  cases sendOk <;> exact ⟨rfl, rfl, rfl, rfl, rfl⟩

theorem sameData_changeState (h : SameData w w') (state : ClientState) : SameData w (w'.changeState state) :=
  ⟨h.lease, h.macAddress, h.interfaceName, h.interfaceIndex, h.timerFd⟩

theorem sameData_enterInit (w : World) (i : Input) : SameData w (w.enterInit i) := by
  have h : SameData w w.unconfigured := ⟨rfl, rfl, rfl, rfl, rfl⟩
  exact sameData_changeState (h.trans (sameData_setupSocket _ _ _ _ _)) .init

theorem sameData_enterBound (w : World) (i : Input) : SameData w (w.enterBound i) := by
  have h : SameData w w.configured := ⟨rfl, rfl, rfl, rfl, rfl⟩
  have hs : SameData w (w.configured.setupUdpSocket i.udpSocket).2 := h.trans (sameData_setupSocket _ _ _ _ _)
  rw [enterBound_eq]
  split
  · exact hs
  · exact hs.trans (sameData_enterInit _ i)

/-- **A move changes neither the lease nor the interface.** -/
theorem Move.sameData [Host] (h : w.Move i w') : SameData w w' := by
  cases h with
  | stay => exact .refl w
  | discover => exact sameData_changeState (sameData_broadcastPacket w true (discoverPacket w.self)) _
  | discoverFails => exact (sameData_broadcastPacket w false (discoverPacket w.self)).trans ⟨rfl, rfl, rfl, rfl, rfl⟩
  | request => exact sameData_changeState (sameData_broadcastPacket w true (requestPacket w.self)) _
  | requestFails => exact (sameData_broadcastPacket w false (requestPacket w.self)).trans (sameData_enterInit _ i)
  | giveUp => exact sameData_enterInit w i
  | bind => exact sameData_enterBound w i
  | renew => exact sameData_changeState (sameData_sendPacket w true (requestPayload w.self)) _
  | renewFails => exact (sameData_sendPacket w false (requestPayload w.self)).trans (sameData_enterInit _ i)

theorem iterate_move [Host] (w : World) (i : Input) : (w.updateEvents i).Move i (w.iterate i) := processEvents_move _ i

/-- **The lease after an iteration** is that of the message, if it is an OFFER, whatever the state. -/
theorem iterate_lease [Host] (w : World) (i : Input) :
    (w.iterate i).self.lease = Message.lease w.self.lease (w.received i) :=
  (processEvents_move _ i).sameData.lease.trans updateEvents_lease

end World

/-! ## The calls of a move -/

namespace World

variable {w w' : World} {i : Input}

theorem calls_broadcastPacket (w : World) (sendOk : Bool) (buf : List UInt8) :
    w.kernel.calls <+: (w.broadcastPacket sendOk buf).2.kernel.calls := by
  cases sendOk with
  | true => exact (List.prefix_append _ _).trans (List.prefix_append _ _)
  | false => exact List.prefix_append _ _

theorem calls_sendPacket (w : World) (sendOk : Bool) (buf : List UInt8) :
    w.kernel.calls <+: (w.sendPacket sendOk buf).2.kernel.calls := by
  cases sendOk with
  | true => exact (List.prefix_append _ _).trans (List.prefix_append _ _)
  | false => exact List.prefix_append _ _

theorem calls_enterInit (w : World) (i : Input) : w.kernel.calls <+: (w.enterInit i).kernel.calls := by
  have h : w.kernel.calls <+: w.unconfigured.kernel.calls :=
    ((List.prefix_append _ _).trans (List.prefix_append _ _)).trans (List.prefix_append _ _)
  have hs : (w.enterInit i).kernel.calls = w.unconfigured.kernel.calls := (setupSocket_frame w.unconfigured _ _ _ _).2.2
  rw [hs]
  exact h

theorem calls_enterBound (w : World) (i : Input) : w.kernel.calls <+: (w.enterBound i).kernel.calls := by
  have h : w.kernel.calls <+: w.configured.kernel.calls :=
    ((((List.prefix_append _ _).trans (List.prefix_append _ _)).trans (List.prefix_append _ _)).trans
      (List.prefix_append _ _)).trans (List.prefix_append _ _)
  have hs : (w.configured.setupUdpSocket i.udpSocket).2.kernel.calls = w.configured.kernel.calls :=
    (setupSocket_frame w.configured _ _ _ _).2.2
  rw [← hs] at h
  rw [enterBound_eq]
  split
  · exact h
  · exact h.trans (calls_enterInit _ i)

/-- **A move makes calls after those before.** -/
theorem Move.calls [Host] (h : w.Move i w') : w.kernel.calls <+: w'.kernel.calls := by
  cases h with
  | stay => exact List.prefix_rfl
  | discover => exact calls_broadcastPacket w true (discoverPacket w.self)
  | discoverFails => exact (calls_broadcastPacket w false (discoverPacket w.self)).trans (List.prefix_append _ _)
  | request => exact calls_broadcastPacket w true (requestPacket w.self)
  | requestFails => exact (calls_broadcastPacket w false (requestPacket w.self)).trans (calls_enterInit _ i)
  | giveUp => exact calls_enterInit w i
  | bind => exact calls_enterBound w i
  | renew => exact calls_sendPacket w true (requestPayload w.self)
  | renewFails => exact (calls_sendPacket w false (requestPayload w.self)).trans (calls_enterInit _ i)

theorem iterate_calls [Host] (w : World) (i : Input) : w.kernel.calls <+: (w.iterate i).kernel.calls := by
  have h := (w.iterate_move i).calls
  rw [updateEvents_kernel] at h
  exact (List.prefix_append _ _).trans h

end World

/-! ## Starting and stopping -/

namespace World

/-- Descriptors and the interface may differ. -/
structure Setup (w w' : World) : Prop where
  state : w'.self.state = w.self.state
  lease : w'.self.lease = w.self.lease
  interfaceName : w'.self.interfaceName = w.self.interfaceName
  calls : w'.kernel.calls = w.kernel.calls

variable {w w' w'' : World}

theorem Setup.trans (h : Setup w w') (h' : Setup w' w'') : Setup w w'' :=
  ⟨h'.state.trans h.state, h'.lease.trans h.lease, h'.interfaceName.trans h.interfaceName, h'.calls.trans h.calls⟩

@[simp] theorem close_self (w : World) (fd : ℕ) : (w.close fd).self = w.self := rfl

@[simp] theorem close_calls (w : World) (fd : ℕ) : (w.close fd).kernel.calls = w.kernel.calls := rfl

theorem setup_close (w : World) (fd : ℕ) : Setup w (w.close fd) := ⟨rfl, rfl, rfl, rfl⟩

theorem setup_err2 (w : World) : Setup w w.err2 := setup_close w _

theorem setup_err3 (w : World) : Setup w w.err3 := (setup_close w _).trans (setup_err2 _)

theorem setup_err4 (w : World) : Setup w w.err4 := (setup_close w _).trans (setup_err3 _)

theorem setup_err5 (w : World) : Setup w w.err5 := (setup_close w _).trans (setup_err4 _)

theorem setup_setupPacketSocket {b : Bool} {o : SocketOutcome} (h : w.setupPacketSocket o = (b, w')) : Setup w w' := by
  obtain rfl : (w.setupPacketSocket o).2 = w' := congrArg Prod.snd h
  obtain ⟨hs, -, hc⟩ := setupSocket_frame w .packetSocket true o.socket (o.bind && o.setsockopt)
  obtain ⟨hl, -, hn, -, -⟩ := sameData_setupSocket w .packetSocket true o.socket (o.bind && o.setsockopt)
  exact ⟨hs, hl, hn, hc⟩

theorem setup_setupTimer {b : Bool} {t : TimerIx} {o : Option ℕ} (h : w.setupTimer t o = (b, w')) : Setup w w' := by
  obtain rfl : (w.setupTimer t o).2 = w' := congrArg Prod.snd h
  cases o <;> exact ⟨rfl, rfl, rfl, rfl⟩

theorem setup_openAll (w : World) (i : StartInput) : Setup w (w.openAll i).2 := by
  unfold openAll
  split
  · next h => exact setup_setupPacketSocket h
  next h =>
  apply (setup_setupPacketSocket h).trans
  split
  · next h => exact (setup_setupTimer h).trans (setup_err2 _)
  next h =>
  apply (setup_setupTimer h).trans
  split
  · next h => exact (setup_setupTimer h).trans (setup_err3 _)
  next h =>
  apply (setup_setupTimer h).trans
  split
  · next h => exact (setup_setupTimer h).trans (setup_err4 _)
  next h =>
  apply (setup_setupTimer h).trans
  split
  · next h => exact (setup_setupTimer h).trans (setup_err5 _)
  · next h => exact setup_setupTimer h

theorem setup_init (w : World) (i : StartInput) : Setup w (w.init i).2 := by
  unfold init
  split
  · exact ⟨rfl, rfl, rfl, rfl⟩
  split
  · exact ⟨rfl, rfl, rfl, rfl⟩
  · next index _ _ macAddress _ =>
    have h : Setup w ((w.setInterfaceIndex index).setMacAddress macAddress) := ⟨rfl, rfl, rfl, rfl⟩
    exact h.trans (setup_openAll _ i)

theorem destroy_self (w : World) : w.destroy.self = w.self := by
  simp only [destroy, close_self]

theorem destroy_calls (w : World) : w.destroy.kernel.calls = w.kernel.calls := by
  simp only [destroy, close_calls]

/-- `ml_dhcp_client_start` leaves the client as `init` does. -/
theorem mlDhcpClientStart_self (w : World) (i : StartInput) : (w.mlDhcpClientStart i).2.self = (w.init i).2.self := by
  unfold mlDhcpClientStart
  generalize w.init i = r
  rcases r with ⟨_ | _, w'⟩
  · rfl
  · cases i.pthreadCreate with
    | true => rfl
    | false => exact destroy_self _

theorem mlDhcpClientStart_state (w : World) (i : StartInput) : (w.mlDhcpClientStart i).2.self.state = w.self.state := by
  rw [mlDhcpClientStart_self]
  exact (setup_init w i).state

end World

/-- A start that succeeds is an `init` that succeeds, and the init timer. -/
theorem World.mlDhcpClientStart_ok {w : World} {i : StartInput} (h : (w.mlDhcpClientStart i).1 = true) :
    (w.init i).1 = true ∧ (w.mlDhcpClientStart i).2 = ((w.init i).2.setInitTimer 0 1).2 := by
  unfold mlDhcpClientStart at h ⊢
  generalize w.init i = r at h ⊢
  rcases r with ⟨_ | _, w'⟩
  · cases h
  · cases hp : i.pthreadCreate with
    | true => exact ⟨rfl, rfl⟩
    | false =>
      dsimp only at h
      rw [hp] at h
      cases h

theorem next_start_running [Host] {name : String} {mem : Client} {s : DhcpState} {i : StartInput}
    (h : ((dhcp name mem).next s (.start i)).phase = .running) : (s.world.mlDhcpClientStart i).1 = true := by
  by_contra hne
  have hfail : ((dhcp name mem).next s (.start i)).phase = .startFailed := if_neg hne
  rw [hfail] at h
  cases h

/-- After a start the client runs, or the start has failed. -/
theorem next_start_phase [Host] {name : String} {mem : Client} (s : DhcpState) (i : StartInput) {p : Phase}
    (hr : p ≠ .running) (hf : p ≠ .startFailed) : ((dhcp name mem).next s (.start i)).phase ≠ p := by
  show (if (s.world.mlDhcpClientStart i).1 = true then Phase.running else .startFailed) ≠ p
  split
  · exact hr.symm
  · exact hf.symm

end Monolinux
