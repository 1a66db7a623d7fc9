import Mathlib.Data.PNat.Notation
import Monolinux.Lib.Bytes
import Monolinux.Lib.Run

/-!
# The one-wire module

The thread of the module takes requests and timer messages from its queue, and reads
netlink datagrams.  `oneWire` is the system of its steps.  A datagram is given by the
messages and commands that `next_nl_msg` and `next_cmd` find in it, and a response queue
by its address, of type `κ`.

`ml_queue_put` with the address NULL crashes the program, so that there are no steps
after it.
-/

namespace Monolinux

variable {κ : Type*}

/-- `struct w1_reg_num`. -/
structure RegNum where
  family : UInt8
  id : BitVec 48
  crc : UInt8
deriving DecidableEq

inductive Ds18b20State
  | idle
  | waitForConvertDone
  | waitForConvertTimeout
  | waitForReadDone
deriving DecidableEq

/-- `struct w1_netlink_cmd`; `len` is the length of `data`. -/
structure W1Cmd where
  cmd : UInt8
  data : List UInt8
deriving DecidableEq

/-- `struct w1_netlink_msg`. -/
structure W1Msg where
  type : UInt8
  status : UInt8
  cmds : List W1Cmd
deriving DecidableEq

/-- `struct cn_msg`. -/
structure CnMsg where
  seq : UInt32
  msgs : List W1Msg

structure ReadTemperatureReq (κ : Type*) where
  slaveId : UInt64
  responseQueue : κ
deriving DecidableEq

inductive OneWireMessage (κ : Type*)
  | readTemperature (request : ReadTemperatureReq κ)
  | timeout
  | other
deriving DecidableEq

inductive OneWireCall (κ : Type*)
  | get (message : OneWireMessage κ)
  | send (seqno : ℤ) (id : RegNum) (cmds : List W1Cmd)
  | timerStart (milliseconds : ℕ)
  /-- the temperature in sixteenths of a degree, `none` if it is not set -/
  | put (queue : Option κ) (res : ℤ) (temperature : Option ℤ)
deriving DecidableEq

/-- `struct module_t`, and the calls made so far. -/
structure OneWire (κ : Type*) where
  cnSeqno : ℤ
  state : Ds18b20State
  id : RegNum
  seqno : ℤ
  responseQueue : Option κ
  calls : List (OneWireCall κ)

namespace OneWire

variable (self : OneWire κ)

def call (c : OneWireCall κ) : OneWire κ := { self with calls := self.calls ++ [c] }

def setState (state : Ds18b20State) : OneWire κ := { self with state := state }

/-- The sequence number is always positive. -/
def nextSeqno : OneWire κ :=
  let cnSeqno := if self.cnSeqno = 1000 then 0 else self.cnSeqno
  { self with cnSeqno := cnSeqno + 1 }

/-- `init_nl_message` and `send_nl_message`; `errno` is why `send` fails. -/
def sendNlMessage (cmds : List W1Cmd) (errno : Option ℕ+) : ℤ × OneWire κ :=
  let self := self.nextSeqno
  let seq := self.cnSeqno
  let self := self.call (.send seq self.id cmds)
  match errno with
  | some errno => (-errno, self)
  | none => (seq, self)

def finalizeBusy (queue : κ) : OneWire κ := self.call (.put (some queue) (-16) none)

def finalize (res : ℤ) (temperature : ℤ) : OneWire κ :=
  let self := self.call (.put self.responseQueue res (some temperature))
  { self with state := .idle, seqno := -1, responseQueue := none }

def sendConvert (errno : Option ℕ+) : ℤ × OneWire κ := self.sendNlMessage [⟨1, [0x44]⟩] errno

def sendReadScratchpad (errno : Option ℕ+) : ℤ × OneWire κ :=
  self.sendNlMessage [⟨1, [0xbe]⟩, ⟨0, List.replicate 9 0⟩] errno

/-- What both senders do with the sequence number or the error they get. -/
def sent (seqno : ℤ) (state : Ds18b20State) : OneWire κ :=
  let self := { self with seqno := seqno }
  if 0 ≤ self.seqno then self.setState state else self.finalize self.seqno 0

def handleReadTemperature (request : ReadTemperatureReq κ) (errno : Option ℕ+) : OneWire κ :=
  if self.responseQueue.isSome then self.finalizeBusy request.responseQueue
  else
    let self := { self with
      responseQueue := some request.responseQueue
      id := ⟨(request.slaveId >>> 56).toUInt8, BitVec.ofNat 48 (request.slaveId >>> 8).toNat, request.slaveId.toUInt8⟩ }
    let (seqno, self) := self.sendConvert errno
    self.sent seqno .waitForConvertDone

def handleConvertDone : OneWire κ := (self.call (.timerStart 750)).setState .waitForConvertTimeout

def handleTimeout (errno : Option ℕ+) : OneWire κ :=
  let (seqno, self) := self.sendReadScratchpad errno
  self.sent seqno .waitForReadDone

section
variable [Host]

/-- `temperature` of the scratchpad. -/
def scratchpadTemperature (b0 b1 : UInt8) : ℤ := (if Host.littleEndian then word16 b1 b0 else word16 b0 b1).toInt16.toInt

def handleReadScratchpadDone (cmd : W1Cmd) : OneWire κ :=
  match cmd.data with
  | [b0, b1, _, _, _, _, _, _, _] => self.finalize 0 (scratchpadTemperature b0 b1)
  | _ => self

/-- The body of the loop over the commands of a message. -/
def handleCmd (cmd : W1Cmd) : OneWire κ :=
  if cmd.cmd = 1 then
    if self.state = .waitForConvertDone then self.handleConvertDone else self
  else if cmd.cmd = 0 then
    if self.state = .waitForReadDone then self.handleReadScratchpadDone cmd else self
  else self

def handleSlaveResponse (msg : W1Msg) : OneWire κ :=
  if msg.status ≠ 0 then self.finalize (-msg.status.toNat) 0 else msg.cmds.foldl (fun self cmd => self.handleCmd cmd) self

/-- The body of the loop over the messages of a datagram. -/
def handleNlMsg (seq : UInt32) (msg : W1Msg) : OneWire κ :=
  if msg.type = 5 then
    if seq = UInt32.ofInt self.seqno then self.handleSlaveResponse msg else self
  else self

def handleMessageDone (cnMsg : CnMsg) : OneWire κ := cnMsg.msgs.foldl (fun self msg => self.handleNlMsg cnMsg.seq msg) self

end

/-- One message of the queue; `errno` is why `send` fails. -/
def handleQueue (message : OneWireMessage κ) (errno : Option ℕ+) : OneWire κ :=
  let self := self.call (.get message)
  match message with
  | .readTemperature request => self.handleReadTemperature request errno
  | .timeout => self.handleTimeout errno
  | .other => self

/-- A response was put on the queue NULL. -/
def crashed : Bool := self.calls.any fun
  | .put none _ _ => true
  | _ => false

end OneWire

def mlOneWireInit (id : RegNum) : OneWire κ where
  cnSeqno := 0
  state := .idle
  id := id
  seqno := -1
  responseQueue := none
  calls := []

structure OneWireState (κ : Type*) where
  /-- the thread is in its loop -/
  running : Bool
  self : OneWire κ

/-- What the thread finds ready. -/
inductive OneWireLabel (κ : Type*)
  | queue (message : OneWireMessage κ) (errno : Option ℕ+)
  | datagram (cnMsg : CnMsg)
  /-- interrupted, short, or not of the type NLMSG_DONE -/
  | ignored
  | readFails

/-- `one_wire_main`; `id` is the memory of the slave id. -/
def oneWire [Host] (id : RegNum) : System (OneWireState κ) (OneWireLabel κ) where
  start := ⟨true, mlOneWireInit id⟩
  enabled s _ := s.running = true ∧ s.self.crashed = false
  next
    | s, .queue message errno => { s with self := s.self.handleQueue message errno }
    | s, .datagram cnMsg => { s with self := s.self.handleMessageDone cnMsg }
    | s, .ignored => s
    | s, .readFails => { s with running := false }

instance [Host] (id : RegNum) (s : OneWireState κ) (l : OneWireLabel κ) : Decidable ((oneWire id).enabled s l) :=
  inferInstanceAs (Decidable (_ = true ∧ _ = false))

end Monolinux
