import Monolinux.Lib.Linux
import Monolinux.Lib.Run
import Monolinux.Dhcp.Request

/-!
# The DHCP client

The client and what it uses of the kernel: its descriptors, its four timers and the
calls it makes.  An iteration of the event loop has an `Input`: what there is to read,
and how the system calls go.

`dhcp name mem`: one life of a client, from `ml_dhcp_client_init` over
`ml_dhcp_client_start` and the iterations of its thread to `ml_dhcp_client_stop`,
which another thread calls between two iterations.  `mem` is the memory the client is
in.  A timer that was set expires in a step of its own.
-/

namespace Monolinux

inductive DescriptorKind
  | packetSocket
  | udpSocket
  | timer
deriving DecidableEq

/-- Calls with what the client passes on or learns; a timer is named by its index. -/
inductive Call
  /-- `read` of the socket, and whether the client takes it for a packet socket -/
  | read (isPacketSocket : Bool) (buf : List UInt8)
  | settime (t : TimerIx) (seconds : ℤ) (nanoseconds : ℕ)
  /-- `sendto` the hardware address ff:ff:ff:ff:ff:ff -/
  | broadcast (interfaceIndex : ℤ) (buf : List UInt8)
  | send (addr : InAddr) (port : ℕ) (buf : List UInt8)
  | configure (name : String) (ipAddress subnetMask : InAddr) (mtu : ℕ)
  | addRoute (name : String) (gateway : InAddr)
deriving DecidableEq

structure Kernel where
  descriptors : Descriptors DescriptorKind
  timer : TimerIx → TimerFd
  calls : List Call

/-- How `socket`, `bind` and `setsockopt` go; `socket` is the number of the descriptor. -/
structure SocketOutcome where
  socket : Option ℕ
  bind : Bool
  setsockopt : Bool

inductive SocketEvent
  | none
  | pollerr
  /-- `POLLIN`; `none`: `read` fails -/
  | pollin (packet : Option (List UInt8))

/-- The environment of one iteration. -/
structure Input where
  event : SocketEvent
  /-- `read` of a timer that has expired returns the eight bytes -/
  readOk : TimerIx → Bool
  /-- `sendto` sends the whole packet -/
  sendOk : Bool
  packetSocket : SocketOutcome
  udpSocket : SocketOutcome

/-- The environment of `ml_dhcp_client_start`; what fails is `none` or `false`. -/
structure StartInput where
  interfaceIndex : Option ℤ
  macAddress : Option (Vector UInt8 6)
  packetSocket : SocketOutcome
  timerfd : TimerIx → Option ℕ
  pthreadCreate : Bool

structure World where
  self : Client
  kernel : Kernel

namespace World

variable (w : World)

def call (c : Call) : World := { w with kernel := { w.kernel with calls := w.kernel.calls ++ [c] } }

def close (fd : ℕ) : World :=
  { w with kernel := { w.kernel with descriptors := w.kernel.descriptors.close fd } }

/-! ## Sockets and timers -/

/-- What `setup_packet_socket` and `setup_udp_socket` do; `ok`: the calls after `socket` succeed. -/
def setupSocket (kind : DescriptorKind) (isPacketSocket : Bool) (socket : Option ℕ) (ok : Bool) : Bool × World :=
  match socket with
  | none => (false, w)
  | some n =>
    let sock := w.kernel.descriptors.pick n
    let w := { w with kernel := { w.kernel with descriptors := w.kernel.descriptors.create kind n } }
    if ok then (true, { w with self := { w.self with isPacketSocket := isPacketSocket, sock := sock } })
    else (false, w.close sock)

def setupPacketSocket (o : SocketOutcome) : Bool × World :=
  w.setupSocket .packetSocket true o.socket (o.bind && o.setsockopt)

def setupUdpSocket (o : SocketOutcome) : Bool × World := w.setupSocket .udpSocket false o.socket o.bind

def setTimer (t : TimerIx) (seconds : ℤ) (nanoseconds : ℕ) : Bool × World :=
  let res := (w.kernel.timer t).settime seconds nanoseconds
  (res.1, { w with kernel := { w.kernel with
    timer := Function.update w.kernel.timer t res.2
    calls := w.kernel.calls ++ [.settime t seconds nanoseconds] } })

def setRenewalTimer : Bool × World := w.setTimer .renew w.self.renewalInterval 0

def setRebindingTimer : Bool × World := w.setTimer .rebind w.self.rebindingTime 0

def setResponseTimer : Bool × World := w.setTimer .resp 5 0

def cancelRebindingTimer : World := (w.setTimer .rebind 0 0).2

def cancelResponseTimer : World := (w.setTimer .resp 0 0).2

def setInitTimer (seconds : ℤ) (nanoseconds : ℕ) : Bool × World := w.setTimer .init seconds nanoseconds

/-! ## Packets -/

def sendPacket (sendOk : Bool) (buf : List UInt8) : Bool × World :=
  let w := w.call (.send w.self.server 67 buf)
  if sendOk then w.setResponseTimer else (false, w)

def broadcastPacket (sendOk : Bool) (buf : List UInt8) : Bool × World :=
  let w := w.call (.broadcast w.self.interfaceIndex buf)
  if sendOk then w.setResponseTimer else (false, w)

section
variable [Host]

def broadcastDiscover (sendOk : Bool) : Bool × World := w.broadcastPacket sendOk (discoverPacket w.self)

def broadcastRequest (sendOk : Bool) : Bool × World := w.broadcastPacket sendOk (requestPacket w.self)

def sendRequest (sendOk : Bool) : Bool × World := w.sendPacket sendOk (requestPayload w.self)

/-- The socket part of `update_events`. -/
def readSocket (event : SocketEvent) : World :=
  let w := { w with self := { w.self with packetType := .none } }
  match event with
  | .none => w
  | .pollerr => w
  | .pollin none => w
  | .pollin (some packet) =>
    -- the buffer is for 1024 bytes
    let buf := packet.take 1024
    let w := w.call (.read w.self.isPacketSocket buf)
    if 0 < buf.length then { w with self := (unpackPacket w.self buf).getD w.self } else w

end

/-- `poll` reports a timer whose expiry is unread. -/
def isTimeout (readOk : TimerIx → Bool) (t : TimerIx) : Bool × World :=
  if (w.kernel.timer t).unread && readOk t then
    (true, { w with kernel := { w.kernel with
      timer := Function.update w.kernel.timer t { w.kernel.timer t with unread := false } } })
  else (false, w)

def readTimers (readOk : TimerIx → Bool) : World :=
  let (renewal, w) := w.isTimeout readOk .renew
  let (rebinding, w) := w.isTimeout readOk .rebind
  let (response, w) := w.isTimeout readOk .resp
  let (init, w) := w.isTimeout readOk .init
  { w with self := { w.self with
    renewalTimerExpired := renewal
    rebindingTimerExpired := rebinding
    responseTimerExpired := response
    initTimerExpired := init } }

def updateEvents [Host] (i : Input) : World := (w.readSocket i.event).readTimers i.readOk

def configureInterface : World :=
  (w.call (.configure w.self.interfaceName w.self.ipAddress w.self.subnetMask 1500)).call
    (.addRoute w.self.interfaceName w.self.gateway)

/-! ## The state machine -/

def changeState (state : ClientState) : World := { w with self := { w.self with state := state } }

def enterInit (i : Input) : World :=
  let w := w.cancelResponseTimer
  let w := w.cancelRebindingTimer
  let w := (w.setInitTimer 10 0).2
  let w := w.close w.self.sock
  let w := (w.setupPacketSocket i.packetSocket).2
  w.changeState .init

def enterSelecting : World := w.changeState .selecting

def enterRequesting : World := w.changeState .requesting

def enterBound (i : Input) : World :=
  let w := w.cancelResponseTimer
  let w := w.setRenewalTimer.2
  let w := w.setRebindingTimer.2
  let w := w.configureInterface
  let w := w.close w.self.sock
  let w := w.changeState .bound
  match w.setupUdpSocket i.udpSocket with
  | (true, w) => w
  | (false, w) => w.enterInit i

def enterRenewing : World := w.changeState .renewing

section
variable [Host]

def processEventsInit (i : Input) : World :=
  if w.self.initTimerExpired then
    match w.broadcastDiscover i.sendOk with
    | (true, w) => w.enterSelecting
    | (false, w) => (w.setInitTimer 10 0).2
  else w

def processEventsSelecting (i : Input) : World :=
  if w.self.packetType = .offer then
    match w.broadcastRequest i.sendOk with
    | (true, w) => w.enterRequesting
    | (false, w) => w.enterInit i
  else if w.self.responseTimerExpired then w.enterInit i
  else w

omit [Host] in
def processEventsRequesting (i : Input) : World :=
  if w.self.packetType = .ack then w.enterBound i
  else if w.self.packetType = .nak then w.enterInit i
  else if w.self.responseTimerExpired then w.enterInit i
  else w

def processEventsBound (i : Input) : World :=
  if w.self.renewalTimerExpired then
    match w.sendRequest i.sendOk with
    | (true, w) => w.enterRenewing
    | (false, w) => w.enterInit i
  else w

omit [Host] in
def processEventsRenewing (i : Input) : World :=
  if w.self.packetType = .ack then w.enterBound i
  else if w.self.packetType = .nak then w.enterInit i
  else if w.self.responseTimerExpired then w.enterInit i
  -- just go to init for now
  else if w.self.rebindingTimerExpired then w.enterInit i
  else w

def processEvents (i : Input) : World :=
  match w.self.state with
  | .init => w.processEventsInit i
  | .selecting => w.processEventsSelecting i
  | .requesting => w.processEventsRequesting i
  | .bound => w.processEventsBound i
  | .renewing => w.processEventsRenewing i

/-- An iteration of `client_main` after `poll` has returned. -/
def iterate (i : Input) : World := (w.updateEvents i).processEvents i

end

/-! ## Start and stop -/

def setupTimer (t : TimerIx) (timerfd : Option ℕ) : Bool × World :=
  match timerfd with
  | none => (false, w)
  | some n =>
    let fd := w.kernel.descriptors.pick n
    (true,
      { self := { w.self with timerFd := Function.update w.self.timerFd t fd }
        kernel := { w.kernel with
          descriptors := w.kernel.descriptors.create .timer n
          timer := Function.update w.kernel.timer t ⟨false, false⟩ } })

/-- The labels `err2` to `err5` of `init`. -/
def err2 : World := w.close w.self.sock

def err3 : World := (w.close (w.self.timerFd .renew)).err2

def err4 : World := (w.close (w.self.timerFd .rebind)).err3

def err5 : World := (w.close (w.self.timerFd .resp)).err4

/-- `init` from `setup_packet_socket` on. -/
def openAll (i : StartInput) : Bool × World :=
  match w.setupPacketSocket i.packetSocket with
  | (false, w) => (false, w)
  | (true, w) =>
    match w.setupTimer .renew (i.timerfd .renew) with
    | (false, w) => (false, w.err2)
    | (true, w) =>
      match w.setupTimer .rebind (i.timerfd .rebind) with
      | (false, w) => (false, w.err3)
      | (true, w) =>
        match w.setupTimer .resp (i.timerfd .resp) with
        | (false, w) => (false, w.err4)
        | (true, w) =>
          match w.setupTimer .init (i.timerfd .init) with
          | (false, w) => (false, w.err5)
          | (true, w) => (true, w)

def setInterfaceIndex (index : ℤ) : World := { w with self := { w.self with interfaceIndex := index } }

def setMacAddress (macAddress : Vector UInt8 6) : World :=
  { w with self := { w.self with macAddress := macAddress } }

def init (i : StartInput) : Bool × World :=
  match i.interfaceIndex with
  | none => (false, w)
  | some index =>
    match i.macAddress with
    | none => (false, w.setInterfaceIndex index)
    | some macAddress => ((w.setInterfaceIndex index).setMacAddress macAddress).openAll i

def destroy : World :=
  let w := w.close w.self.sock
  let w := w.close (w.self.timerFd .renew)
  let w := w.close (w.self.timerFd .rebind)
  let w := w.close (w.self.timerFd .resp)
  w.close (w.self.timerFd .init)

def mlDhcpClientInit (interfaceName : String) : World :=
  { w with self := { w.self with interfaceName := interfaceName, state := .init } }

def mlDhcpClientStart (i : StartInput) : Bool × World :=
  match w.init i with
  | (false, w) => (false, w)
  | (true, w) =>
    let w := (w.setInitTimer 0 1).2
    if i.pthreadCreate then (true, w) else (false, w.destroy)

def mlDhcpClientStop : World := w.destroy

end World

/-! ## One life of a client -/

inductive Phase
  | initialised
  | running
  /-- the thread has left its loop -/
  | ended
  | startFailed
  | stopped
deriving DecidableEq

structure DhcpState where
  phase : Phase
  world : World

inductive DhcpLabel
  | start (i : StartInput)
  /-- the timer expires -/
  | expire (t : TimerIx)
  | iterate (i : Input)
  | pollFailure
  | stop

/-- A program that has no descriptors yet, and the client in the memory `mem`. -/
def initialWorld (name : String) (mem : Client) : World :=
  World.mlDhcpClientInit
    { self := mem
      kernel :=
        { descriptors := ⟨[], []⟩
          timer := fun _ => ⟨false, false⟩
          calls := [] } }
    name

def World.expire (w : World) (t : TimerIx) : World :=
  { w with kernel := { w.kernel with timer := Function.update w.kernel.timer t (w.kernel.timer t).expire } }

def dhcp [Host] (name : String) (mem : Client) : System DhcpState DhcpLabel where
  start := ⟨.initialised, initialWorld name mem⟩
  enabled
    | s, .start _ => s.phase = .initialised
    | s, .expire t => (s.phase = .running ∨ s.phase = .ended) ∧ (s.world.kernel.timer t).armed = true
    | s, .iterate _ => s.phase = .running
    | s, .pollFailure => s.phase = .running
    | s, .stop => s.phase = .running ∨ s.phase = .ended
  next
    | s, .start i =>
      let (ok, w) := s.world.mlDhcpClientStart i
      ⟨if ok then .running else .startFailed, w⟩
    | s, .expire t => { s with world := s.world.expire t }
    | s, .iterate i => { s with world := s.world.iterate i }
    | s, .pollFailure => { s with phase := .ended }
    | s, .stop => ⟨.stopped, s.world.mlDhcpClientStop⟩

instance [Host] (name : String) (mem : Client) (s : DhcpState) (l : DhcpLabel) :
    Decidable ((dhcp name mem).enabled s l) :=
  match l with
  | .start _ => inferInstanceAs (Decidable (s.phase = .initialised))
  | .expire t =>
    inferInstanceAs (Decidable ((s.phase = .running ∨ s.phase = .ended) ∧ (s.world.kernel.timer t).armed = true))
  | .iterate _ => inferInstanceAs (Decidable (s.phase = .running))
  | .pollFailure => inferInstanceAs (Decidable (s.phase = .running))
  | .stop => inferInstanceAs (Decidable (s.phase = .running ∨ s.phase = .ended))

end Monolinux
