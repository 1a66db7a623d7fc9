import Monolinux.OneWire.Module

/-!
# Netlink datagrams

`handleSocket` on the buffer a datagram was read into: the bytes received, and behind them
what the stack held before.  An access behind the buffer has no result.  `Looked` is a
message or a command that is looked at, with the data it announces.

The walk over the messages stops only at the announced length, which is not compared with
what was received.

* `slaveResponse_complete`: in a message that was received whole the walk over the commands
  ends and stays inside;
* `datagram_refines`: a well-formed datagram is handled as the messages in it;
* `datagram_inside_iff`: the datagrams that are parsed inside what was received.
-/

namespace Monolinux

variable {κ : Type}

section Source

variable [Host]

/-- A `uint16_t` of the host. -/
def native16 (b0 b1 : UInt8) : UInt16 := if Host.littleEndian then word16 b1 b0 else word16 b0 b1

def load16 (mem : List UInt8) (p : ℕ) : Option UInt16 := do
  let b0 ← mem[p]?
  let b1 ← mem[p + 1]?
  return native16 b0 b1

def load32 (mem : List UInt8) (p : ℕ) : Option UInt32 := do
  let b0 ← mem[p]?
  let b1 ← mem[p + 1]?
  let b2 ← mem[p + 2]?
  let b3 ← mem[p + 3]?
  return if Host.littleEndian then word32 b3 b2 b1 b0 else word32 b0 b1 b2 b3

/-- What is looked at: a message or a command with the data it announces, or the header of a command that
is not complete in its message. -/
structure Looked where
  start : ℕ
  length : ℕ
deriving DecidableEq, Repr

/-- The command at `offset` in the data of the message at `nlMsg`. -/
def nextCmd (buf : List UInt8) (nlMsg offset : ℕ) : Option (Option ℕ × List Looked) := do
  let msgLen ← load16 buf (nlMsg + 2)
  if offset + 4 > msgLen.toNat then some (none, [])
  else do
    let cmd := nlMsg + 12 + offset
    let len ← load16 buf (cmd + 2)
    if offset + 4 + len.toNat > msgLen.toNat then some (none, [⟨cmd, 4⟩])
    else some (some cmd, [⟨cmd, 4 + len.toNat⟩])

namespace OneWire

variable (self : OneWire κ)

def readScratchpadDoneAt (buf : List UInt8) (cmd : ℕ) : Option (OneWire κ) := do
  let len ← load16 buf (cmd + 2)
  if len ≠ 9 then some self
  else do
    let b0 ← buf[cmd + 4]?
    let b1 ← buf[cmd + 5]?
    return self.finalize 0 (scratchpadTemperature b0 b1)

/-- The `switch` over a command. -/
def handleCmdAt (buf : List UInt8) (cmd : ℕ) : Option (OneWire κ) := do
  let code ← buf[cmd]?
  if code = 1 then some (if self.state = .waitForConvertDone then self.handleConvertDone else self)
  else if code = 0 then
    if self.state = .waitForReadDone then self.readScratchpadDoneAt buf cmd else some self
  else some self

end OneWire

/-- The loop over the commands of a message; not over after `fuel` tests: `none`. -/
def slaveResponseLoop (buf : List UInt8) (nlMsg : ℕ) : ℕ → ℕ → OneWire κ → Option (OneWire κ × List Looked)
  | 0, _, _ => none
  | fuel + 1, offset, self => do
    match ← nextCmd buf nlMsg offset with
    | (none, looked) => some (self, looked)
    | (some cmd, looked) => do
      let self ← self.handleCmdAt buf cmd
      let len ← load16 buf (cmd + 2)
      let (self, rest) ← slaveResponseLoop buf nlMsg fuel (offset + (4 + len.toNat)) self
      return (self, looked ++ rest)

/-- `ds18b20_handle_read_temperature_slave_response`. -/
def slaveResponse (buf : List UInt8) (nlMsg : ℕ) (self : OneWire κ) : Option (OneWire κ × List Looked) := do
  let status ← buf[nlMsg + 1]?
  if status ≠ 0 then some (self.finalize (-status.toNat) 0, [])
  else do
    let len ← load16 buf (nlMsg + 2)
    slaveResponseLoop buf nlMsg (len.toNat + 1) 0 self

/-- The message at `offset` in the data of the `cn_msg`. -/
def nextNlMsg (buf : List UInt8) (cnMsg : ℕ) (offset : UInt16) : Option (Option ℕ) := do
  let len ← load16 buf (cnMsg + 16)
  if offset = len then some none else some (some (cnMsg + 20 + offset.toNat))

/-- The `switch` over a message. -/
def OneWire.handleNlMsgAt (self : OneWire κ) (buf : List UInt8) (cnMsg nlMsg : ℕ) :
    Option (OneWire κ × List Looked) := do
  let type ← buf[nlMsg]?
  if type = 5 then do
    let seq ← load32 buf (cnMsg + 8)
    if seq = UInt32.ofInt self.seqno then slaveResponse buf nlMsg self else some (self, [])
  else some (self, [])

/-- The loop of `handle_message_done`; not over after `fuel` tests: `none`. -/
def messageDoneLoop (buf : List UInt8) (cnMsg : ℕ) : ℕ → UInt16 → OneWire κ → Option (OneWire κ × List Looked)
  | 0, _, _ => none
  | fuel + 1, offset, self => do
    match ← nextNlMsg buf cnMsg offset with
    | none => some (self, [])
    | some nlMsg => do
      let (self, cmds) ← self.handleNlMsgAt buf cnMsg nlMsg
      let len ← load16 buf (nlMsg + 2)
      -- a `uint16_t`
      let (self, rest) ← messageDoneLoop buf cnMsg fuel (offset + (12 + len)) self
      return (self, ⟨nlMsg, 12 + len.toNat⟩ :: cmds ++ rest)

/-- `size` is the result of `read`, and `interrupted` is `errno == EINTR`. -/
def handleSocket (self : OneWire κ) (buf : List UInt8) (size : ℤ) (interrupted : Bool) (fuel : ℕ) :
    Option (OneWire κ × List Looked × ℤ) :=
  if size ≤ 0 then some (self, [], if size = -1 ∧ interrupted = true then 0 else -1)
  -- Short data.
  else if size < 16 then some (self, [], 0)
  else do
    let type ← load16 buf 4
    -- NLMSG_DONE
    if type = 3 then do
      let (self, looked) ← messageDoneLoop buf 16 fuel 0 self
      return (self, looked, 0)
    else some (self, [], 0)

end Source

/-! ## Well-formed datagrams -/

section Format

variable [Host]

/-- The complete commands at the start of the data of a message. -/
def commandsOf : ℕ → List UInt8 → List W1Cmd
  | fuel + 1, cmd :: _ :: b0 :: b1 :: rest =>
    if (native16 b0 b1).toNat ≤ rest.length then
      ⟨cmd, rest.take (native16 b0 b1).toNat⟩ :: commandsOf fuel (rest.drop (native16 b0 b1).toNat)
    else []
  | _, _ => []

/-- The messages that the bytes consist of. -/
def messagesOf : ℕ → List UInt8 → Option (List W1Msg)
  | _, [] => some []
  | fuel + 1, type :: status :: b0 :: b1 :: rest =>
    if 8 + (native16 b0 b1).toNat ≤ rest.length then do
      let msgs ← messagesOf fuel (rest.drop (8 + (native16 b0 b1).toNat))
      return ⟨type, status, commandsOf (native16 b0 b1).toNat ((rest.drop 8).take (native16 b0 b1).toNat)⟩ :: msgs
    else none
  | _, _ => none

/-- The messages that were received: the announced length is zero, or that many bytes were received and
are messages. -/
def receivedMsgs (buf : List UInt8) (size : ℕ) : Option (List W1Msg) := do
  let len ← load16 buf 32
  if len = 0 then some []
  else if 36 + len.toNat ≤ size then messagesOf len.toNat ((buf.drop 36).take len.toNat) else none

def WellFormed (buf : List UInt8) (size : ℕ) : Prop := (receivedMsgs buf size).isSome = true

instance (buf : List UInt8) (size : ℕ) : Decidable (WellFormed buf size) := inferInstanceAs (Decidable (_ = true))

end Format

/-- Everything that was looked at ends at `limit` or before. -/
def Within (limit : ℕ) (looked : List Looked) : Prop := ∀ x ∈ looked, x.start + x.length ≤ limit

theorem within_nil (limit : ℕ) : Within limit [] := by
  intro x hx
  exact absurd hx List.not_mem_nil

theorem within_cons {limit : ℕ} {x : Looked} {looked : List Looked} :
    Within limit (x :: looked) ↔ x.start + x.length ≤ limit ∧ Within limit looked := List.forall_mem_cons

theorem within_append {limit : ℕ} {a b : List Looked} : Within limit (a ++ b) ↔ Within limit a ∧ Within limit b :=
  List.forall_mem_append

theorem Within.mono {a b : ℕ} {looked : List Looked} (h : Within a looked) (hab : a ≤ b) : Within b looked :=
  fun x hx => (h x hx).trans hab

/-! ## Reading behind a position -/

section

variable [Host] {buf mem : List UInt8} {p : ℕ}

omit [Host] in
theorem getElem?_of_drop (h : buf.drop p = mem) (i : ℕ) : buf[p + i]? = mem[i]? := by rw [← h, List.getElem?_drop]

theorem load16_of_drop (h : buf.drop p = mem) (i : ℕ) : load16 buf (p + i) = load16 mem i := by
  unfold load16
  rw [Nat.add_assoc, getElem?_of_drop h, getElem?_of_drop h]

omit [Host] in
theorem exists_header {l : List UInt8} (h : 4 ≤ l.length) : ∃ a b b0 b1 rest, l = a :: b :: b0 :: b1 :: rest := by
  rcases l with _ | ⟨a, _ | ⟨b, _ | ⟨b0, _ | ⟨b1, rest⟩⟩⟩⟩
  on_goal 5 => exact ⟨_, _, _, _, _, rfl⟩
  all_goals simp at h

theorem load16_header (a b b0 b1 : UInt8) (rest : List UInt8) :
    load16 (a :: b :: b0 :: b1 :: rest) 2 = some (native16 b0 b1) := rfl

omit [Host] in
/-- Behind a header and `n` bytes of what follows it. -/
theorem drop_header {a b b0 b1 : UInt8} {rest tail : List UInt8}
    (h : buf.drop p = a :: b :: b0 :: b1 :: (rest ++ tail)) {n : ℕ} (hn : n ≤ rest.length) :
    buf.drop (p + (4 + n)) = rest.drop n ++ tail := by
  rw [← List.drop_drop, h, Nat.add_comm 4 n]
  exact List.drop_append_of_le_length hn

end

/-! ## The commands of a message -/

section

variable [Host] {buf tail : List UInt8} {nlMsg : ℕ}

/-- The header of a command is read when it fits. -/
theorem nextCmd_eq {msgLen : UInt16} (hmsg : load16 buf (nlMsg + 2) = some msgLen) (offset : ℕ) :
    nextCmd buf nlMsg offset =
      if offset + 4 > msgLen.toNat then some (none, [])
      else (load16 buf (nlMsg + 12 + offset + 2)).bind fun len =>
        if offset + 4 + len.toNat > msgLen.toNat then some (none, [⟨nlMsg + 12 + offset, 4⟩])
        else some (some (nlMsg + 12 + offset), [⟨nlMsg + 12 + offset, 4 + len.toNat⟩]) := by
  unfold nextCmd
  rw [hmsg]
  rfl

omit [Host] in
theorem exists_nine {l : List UInt8} (h : 9 ≤ l.length) :
    ∃ d0 d1 d2 d3 d4 d5 d6 d7 d8 rest, l = d0 :: d1 :: d2 :: d3 :: d4 :: d5 :: d6 :: d7 :: d8 :: rest := by
  rcases l with _ | ⟨d0, _ | ⟨d1, _ | ⟨d2, _ | ⟨d3, _ | ⟨d4, _ | ⟨d5, _ | ⟨d6, _ | ⟨d7, _ | ⟨d8, rest⟩⟩⟩⟩⟩⟩⟩⟩⟩
  on_goal 10 => exact ⟨_, _, _, _, _, _, _, _, _, _, rfl⟩
  all_goals simp at h

/-- A command that is found is inside its message. -/
theorem nextCmd_inside {msgLen : UInt16} (hmsg : load16 buf (nlMsg + 2) = some msgLen) {offset cmd : ℕ}
    {looked : List Looked} (h : nextCmd buf nlMsg offset = some (some cmd, looked)) :
    ∃ len, load16 buf (cmd + 2) = some len ∧ offset + 4 + len.toNat ≤ msgLen.toNat := by
  rw [nextCmd_eq hmsg] at h
  split at h
  · cases h
  obtain ⟨len, hload, h⟩ := Option.bind_eq_some_iff.mp h
  split at h
  · cases h
  · next hle =>
    cases h
    exact ⟨len, hload, Nat.not_lt.mp hle⟩

namespace OneWire

variable (self : OneWire κ)

theorem readScratchpadDoneAt_eq {cmd : ℕ} {code res b0 b1 : UInt8} {rest : List UInt8}
    (h : buf.drop cmd = code :: res :: b0 :: b1 :: rest) (hlen : (native16 b0 b1).toNat ≤ rest.length) :
    self.readScratchpadDoneAt buf cmd =
      some (self.handleReadScratchpadDone ⟨code, rest.take (native16 b0 b1).toNat⟩) := by
  unfold OneWire.readScratchpadDoneAt OneWire.handleReadScratchpadDone
  rw [load16_of_drop h, load16_header, Option.bind_eq_bind, Option.bind_some]
  by_cases hnine : native16 b0 b1 = 9
  · have hn : (native16 b0 b1).toNat = 9 := by rw [hnine]; rfl
    rw [hn] at hlen ⊢
    obtain ⟨d0, d1, d2, d3, d4, d5, d6, d7, d8, rest, rfl⟩ := exists_nine hlen
    rw [if_neg (not_not_intro hnine)]
    have h0 : buf[cmd + 4]? = some d0 := getElem?_of_drop h 4
    have h1 : buf[cmd + 5]? = some d1 := getElem?_of_drop h 5
    rw [h0, h1]
    rfl
  · rw [if_pos hnine]
    have hn : (rest.take (native16 b0 b1).toNat).length ≠ 9 := by
      rw [List.length_take_of_le hlen]
      exact fun hn => hnine (UInt16.toNat_inj.mp hn)
    split
    · next heq => exact absurd (congrArg List.length heq) hn
    · rfl

/-- The command that was found is handled. -/
theorem handleCmdAt_eq {cmd : ℕ} {code res b0 b1 : UInt8} {rest : List UInt8}
    (h : buf.drop cmd = code :: res :: b0 :: b1 :: rest) (hlen : (native16 b0 b1).toNat ≤ rest.length) :
    self.handleCmdAt buf cmd = some (self.handleCmd ⟨code, rest.take (native16 b0 b1).toNat⟩) := by
  have hcode : buf[cmd]? = some code := getElem?_of_drop h 0
  unfold OneWire.handleCmdAt OneWire.handleCmd
  rw [hcode, Option.bind_eq_bind, Option.bind_some]
  by_cases hwrite : code = 1
  · rw [if_pos hwrite, if_pos hwrite]
  rw [if_neg hwrite, if_neg hwrite]
  by_cases hread : code = 0
  · rw [if_pos hread, if_pos hread]
    by_cases hs : self.state = .waitForReadDone
    · rw [if_pos hs, if_pos hs]
      exact self.readScratchpadDoneAt_eq h hlen
    · rw [if_neg hs, if_neg hs]
  · rw [if_neg hread, if_neg hread]

end OneWire

/-- Behind the data of the message there is no command. -/
theorem slaveResponseLoop_last {msgLen : UInt16} (hmsg : load16 buf (nlMsg + 2) = some msgLen) {offset : ℕ}
    (hlast : msgLen.toNat < offset + 4) (fuel : ℕ) (self : OneWire κ) :
    slaveResponseLoop buf nlMsg (fuel + 1) offset self = some (self, []) := by
  have hnext := nextCmd_eq hmsg offset
  rw [if_pos (by omega)] at hnext
  unfold slaveResponseLoop
  rw [hnext]
  rfl

/-- The walk over the commands ends, whatever the message is. -/
theorem slaveResponseLoop_ends {msgLen : UInt16} (hmsg : load16 buf (nlMsg + 2) = some msgLen) {fuel more offset : ℕ}
    (hfuel : msgLen.toNat ≤ offset + fuel) (self : OneWire κ) :
    slaveResponseLoop buf nlMsg (fuel + 1 + more) offset self = slaveResponseLoop buf nlMsg (fuel + 1) offset self := by
  induction fuel generalizing offset self with
  | zero =>
    rw [Nat.add_right_comm, slaveResponseLoop_last hmsg (by omega), slaveResponseLoop_last hmsg (by omega)]
  | succ fuel ih =>
    rw [Nat.add_right_comm (fuel + 1), slaveResponseLoop, slaveResponseLoop]
    rcases hnext : nextCmd buf nlMsg offset with _ | ⟨_ | cmd, looked⟩
    · rfl
    · rfl
    obtain ⟨len, hload, hle⟩ := nextCmd_inside hmsg hnext
    show (self.handleCmdAt buf cmd).bind _ = (self.handleCmdAt buf cmd).bind _
    congr 1
    funext m
    rw [hload, Option.bind_eq_bind, Option.bind_some, Option.bind_some, ih (by omega)]

/-- A command that is complete, and then what is behind it. -/
theorem slaveResponseLoop_next {fuel offset cmd : ℕ} {len : UInt16} {self m r : OneWire κ} {looked rest : List Looked}
    (hnext : nextCmd buf nlMsg offset = some (some cmd, looked)) (hcmd : self.handleCmdAt buf cmd = some m)
    (hload : load16 buf (cmd + 2) = some len)
    (hloop : slaveResponseLoop buf nlMsg fuel (offset + (4 + len.toNat)) m = some (r, rest)) :
    slaveResponseLoop buf nlMsg (fuel + 1) offset self = some (r, looked ++ rest) := by
  unfold slaveResponseLoop
  rw [hnext, Option.bind_eq_bind, Option.bind_some]
  show (self.handleCmdAt buf cmd).bind _ = _
  rw [hcmd, Option.bind_some, hload]
  show (slaveResponseLoop buf nlMsg fuel _ _).bind _ = _
  rw [hloop]
  rfl

theorem commandsOf_short {cmds : List UInt8} (h : cmds.length < 4) (fuel : ℕ) : commandsOf fuel cmds = [] := by
  rcases cmds with _ | ⟨code, _ | ⟨res, _ | ⟨b0, _ | ⟨b1, rest⟩⟩⟩⟩
  on_goal 5 => exact absurd h (by simp)
  all_goals cases fuel <;> rfl

/-- In a message that was received whole the walk over the commands finds the complete ones. -/
theorem slaveResponseLoop_complete {msgLen : UInt16} (hmsg : load16 buf (nlMsg + 2) = some msgLen) (fuel : ℕ)
    {cmds : List UInt8} {offset : ℕ} {self : OneWire κ} (hdrop : buf.drop (nlMsg + 12 + offset) = cmds ++ tail)
    (hlen : offset + cmds.length = msgLen.toNat) (hfuel : cmds.length ≤ fuel) :
    ∃ looked, slaveResponseLoop buf nlMsg (fuel + 1) offset self =
        some ((commandsOf fuel cmds).foldl (fun self cmd => self.handleCmd cmd) self, looked) ∧
      Within (nlMsg + 12 + msgLen.toNat) looked := by
  induction fuel generalizing cmds offset self with
  | zero =>
    refine ⟨[], ?_, within_nil _⟩
    rw [slaveResponseLoop_last hmsg (by omega), commandsOf_short (by omega)]
    rfl
  | succ fuel ih =>
    rcases Nat.lt_or_ge cmds.length 4 with hshort | hheader
    · refine ⟨[], ?_, within_nil _⟩
      rw [slaveResponseLoop_last hmsg (by omega), commandsOf_short hshort]
      rfl
    have hnext := nextCmd_eq hmsg offset
    obtain ⟨code, res, b0, b1, rest, rfl⟩ := exists_header hheader
    have hdrop : buf.drop (nlMsg + 12 + offset) = code :: res :: b0 :: b1 :: (rest ++ tail) := hdrop
    simp only [List.length_cons] at hlen hfuel
    have hload : load16 buf (nlMsg + 12 + offset + 2) = some (native16 b0 b1) :=
      (load16_of_drop hdrop 2).trans (load16_header ..)
    rw [if_neg (by omega), hload, Option.bind_some] at hnext
    by_cases hfits : (native16 b0 b1).toNat ≤ rest.length
    · rw [if_neg (by omega)] at hnext
      have hsub : (native16 b0 b1).toNat ≤ (rest ++ tail).length := by
        rw [List.length_append]
        omega
      have hcmd := self.handleCmdAt_eq hdrop hsub
      rw [List.take_append_of_le_length hfits] at hcmd
      have hdrop' : buf.drop (nlMsg + 12 + (offset + (4 + (native16 b0 b1).toNat))) =
          rest.drop (native16 b0 b1).toNat ++ tail := by
        rw [← Nat.add_assoc (nlMsg + 12)]
        exact drop_header hdrop hfits
      have hrest : (rest.drop (native16 b0 b1).toNat).length = rest.length - (native16 b0 b1).toNat :=
        List.length_drop
      obtain ⟨looked, hloop, hin⟩ :=
        @ih _ _ (self.handleCmd ⟨code, rest.take (native16 b0 b1).toNat⟩) hdrop' (by omega) (by omega)
      refine ⟨⟨nlMsg + 12 + offset, 4 + (native16 b0 b1).toNat⟩ :: looked, ?_, within_cons.mpr ⟨?_, hin⟩⟩
      · rw [slaveResponseLoop_next hnext hcmd hload hloop, commandsOf, if_pos hfits]
        rfl
      · show nlMsg + 12 + offset + (4 + (native16 b0 b1).toNat) ≤ nlMsg + 12 + msgLen.toNat
        omega
    · -- the last command is not complete
      rw [if_pos (by omega)] at hnext
      refine ⟨[⟨nlMsg + 12 + offset, 4⟩], ?_, within_cons.mpr ⟨?_, within_nil _⟩⟩
      · unfold slaveResponseLoop
        rw [hnext, commandsOf, if_neg hfits]
        rfl
      · show nlMsg + 12 + offset + 4 ≤ nlMsg + 12 + msgLen.toNat
        omega

/-- A message that was received whole. -/
theorem slaveResponse_complete {type status b0 b1 : UInt8} {rest : List UInt8}
    (hdrop : buf.drop nlMsg = type :: status :: b0 :: b1 :: (rest ++ tail))
    (hlen : 8 + (native16 b0 b1).toNat ≤ rest.length) (self : OneWire κ) :
    ∃ looked, slaveResponse buf nlMsg self = some (self.handleSlaveResponse
        ⟨type, status, commandsOf (native16 b0 b1).toNat ((rest.drop 8).take (native16 b0 b1).toNat)⟩, looked) ∧
      Within (nlMsg + 12 + (native16 b0 b1).toNat) looked := by
  have hstatus : buf[nlMsg + 1]? = some status := getElem?_of_drop hdrop 1
  have hmsg : load16 buf (nlMsg + 2) = some (native16 b0 b1) := (load16_of_drop hdrop 2).trans (load16_header ..)
  unfold slaveResponse OneWire.handleSlaveResponse
  rw [hstatus, Option.bind_eq_bind, Option.bind_some]
  by_cases hs : status ≠ 0
  · rw [if_pos hs, if_pos hs]
    exact ⟨[], rfl, within_nil _⟩
  rw [if_neg hs, if_neg hs, hmsg, Option.bind_eq_bind, Option.bind_some]
  have hdata : buf.drop (nlMsg + 12 + 0) =
      (rest.drop 8).take (native16 b0 b1).toNat ++ ((rest.drop 8).drop (native16 b0 b1).toNat ++ tail) := by
    rw [← List.append_assoc, List.take_append_drop]
    have hbehind := drop_header hdrop (n := 8) (by omega)
    exact hbehind
  have hcmds : ((rest.drop 8).take (native16 b0 b1).toNat).length = (native16 b0 b1).toNat := by
    rw [List.length_take, List.length_drop]
    omega
  exact slaveResponseLoop_complete hmsg _ hdata (by omega) (by omega)

end

/-! ## The messages of a datagram -/

section

variable [Host] {buf tail : List UInt8} {cnMsg : ℕ} {len : UInt16}

theorem nextNlMsg_eq (hcn : load16 buf (cnMsg + 16) = some len) (offset : UInt16) :
    nextNlMsg buf cnMsg offset = if offset = len then some none else some (some (cnMsg + 20 + offset.toNat)) := by
  unfold nextNlMsg
  rw [hcn]
  rfl

theorem messageDoneLoop_last (hcn : load16 buf (cnMsg + 16) = some len) (fuel : ℕ) (self : OneWire κ) :
    messageDoneLoop buf cnMsg (fuel + 1) len self = some (self, []) := by
  unfold messageDoneLoop
  rw [nextNlMsg_eq hcn, if_pos rfl]
  rfl

/-- A message, and then what is behind it. -/
theorem messageDoneLoop_next (hcn : load16 buf (cnMsg + 16) = some len) {fuel : ℕ} {offset msgLen : UInt16}
    {self m r : OneWire κ} {cmds rest : List Looked} (hne : offset ≠ len)
    (hmsg : self.handleNlMsgAt buf cnMsg (cnMsg + 20 + offset.toNat) = some (m, cmds))
    (hload : load16 buf (cnMsg + 20 + offset.toNat + 2) = some msgLen)
    (hloop : messageDoneLoop buf cnMsg fuel (offset + (12 + msgLen)) m = some (r, rest)) :
    messageDoneLoop buf cnMsg (fuel + 1) offset self =
      some (r, ⟨cnMsg + 20 + offset.toNat, 12 + msgLen.toNat⟩ :: cmds ++ rest) := by
  unfold messageDoneLoop
  rw [nextNlMsg_eq hcn, if_neg hne, Option.bind_eq_bind, Option.bind_some]
  show (self.handleNlMsgAt buf cnMsg _).bind _ = _
  rw [hmsg, Option.bind_some, hload]
  show (messageDoneLoop buf cnMsg fuel _ _).bind _ = _
  rw [hloop]
  rfl

/-- A message that was received whole is handled. -/
theorem OneWire.handleNlMsgAt_complete {nlMsg : ℕ} {seq : UInt32} (hseq : load32 buf (cnMsg + 8) = some seq)
    {type status b0 b1 : UInt8} {rest : List UInt8}
    (hdrop : buf.drop nlMsg = type :: status :: b0 :: b1 :: (rest ++ tail))
    (hlen : 8 + (native16 b0 b1).toNat ≤ rest.length) (self : OneWire κ) :
    ∃ looked, self.handleNlMsgAt buf cnMsg nlMsg = some (self.handleNlMsg seq
        ⟨type, status, commandsOf (native16 b0 b1).toNat ((rest.drop 8).take (native16 b0 b1).toNat)⟩, looked) ∧
      Within (nlMsg + 12 + (native16 b0 b1).toNat) looked := by
  have htype : buf[nlMsg]? = some type := getElem?_of_drop hdrop 0
  unfold OneWire.handleNlMsgAt OneWire.handleNlMsg
  rw [htype, Option.bind_eq_bind, Option.bind_some]
  by_cases hcmd : type = 5
  · rw [if_pos hcmd, if_pos hcmd, hseq, Option.bind_eq_bind, Option.bind_some]
    by_cases hs : seq = UInt32.ofInt self.seqno
    · rw [if_pos hs, if_pos hs]
      exact slaveResponse_complete hdrop hlen self
    · rw [if_neg hs, if_neg hs]
      exact ⟨[], rfl, within_nil _⟩
  · rw [if_neg hcmd, if_neg hcmd]
    exact ⟨[], rfl, within_nil _⟩

omit [Host] in
/-- The offset is 16 bits wide, and does not wrap inside the announced length. -/
theorem toNat_next {offset msgLen : UInt16} (h : offset.toNat + (12 + msgLen.toNat) < 2 ^ 16) :
    (offset + (12 + msgLen)).toNat = offset.toNat + (12 + msgLen.toNat) := by
  have h12 : (12 : UInt16).toNat = 12 := rfl
  rw [UInt16.toNat_add, UInt16.toNat_add, h12]
  omega

theorem messagesOf_nil (fuel : ℕ) : messagesOf fuel [] = some [] := by cases fuel <;> rfl

theorem messagesOf_header (fuel : ℕ) (type status b0 b1 : UInt8) (rest : List UInt8) :
    messagesOf (fuel + 1) (type :: status :: b0 :: b1 :: rest) =
      if 8 + (native16 b0 b1).toNat ≤ rest.length then
        (messagesOf fuel (rest.drop (8 + (native16 b0 b1).toNat))).bind fun msgs =>
          some (⟨type, status, commandsOf (native16 b0 b1).toNat ((rest.drop 8).take (native16 b0 b1).toNat)⟩ :: msgs)
      else none := rfl

/-- The first of the messages. -/
theorem messagesOf_cases {fuel : ℕ} {data : List UInt8} {msgs : List W1Msg} (h : messagesOf fuel data = some msgs) :
    data = [] ∧ msgs = [] ∨
    ∃ n type status b0 b1 rest msgs', fuel = n + 1 ∧ data = type :: status :: b0 :: b1 :: rest ∧
      8 + (native16 b0 b1).toNat ≤ rest.length ∧
      messagesOf n (rest.drop (8 + (native16 b0 b1).toNat)) = some msgs' ∧
      msgs =
        ⟨type, status, commandsOf (native16 b0 b1).toNat ((rest.drop 8).take (native16 b0 b1).toNat)⟩ :: msgs' := by
  rcases Nat.lt_or_ge data.length 4 with hshort | hheader
  · rcases data with _ | ⟨a, _ | ⟨b, _ | ⟨c, _ | ⟨d, rest⟩⟩⟩⟩
    · rw [messagesOf_nil] at h
      exact Or.inl ⟨rfl, (Option.some.inj h).symm⟩
    on_goal 4 => exact absurd hshort (by simp)
    all_goals cases fuel <;> cases h
  obtain ⟨type, status, b0, b1, rest, rfl⟩ := exists_header hheader
  cases fuel with
  | zero => cases h
  | succ fuel =>
    rw [messagesOf_header] at h
    split at h
    · next hlen =>
      obtain ⟨msgs', hrest, hmsgs⟩ := Option.bind_eq_some_iff.mp h
      exact Or.inr ⟨fuel, type, status, b0, b1, rest, msgs', rfl, rfl, hlen, hrest, (Option.some.inj hmsgs).symm⟩
    · cases h

/-- **A datagram of complete messages** is handled as these messages, and nothing else is looked at. -/
theorem messageDoneLoop_complete {seq : UInt32} (hcn : load16 buf (cnMsg + 16) = some len)
    (hseq : load32 buf (cnMsg + 8) = some seq) (fuel : ℕ) {data : List UInt8} {msgs : List W1Msg}
    {offset : UInt16} {self : OneWire κ} (hmsgs : messagesOf fuel data = some msgs)
    (hdrop : buf.drop (cnMsg + 20 + offset.toNat) = data ++ tail)
    (hlen : offset.toNat + data.length = len.toNat) :
    ∃ looked, messageDoneLoop buf cnMsg (fuel + 1) offset self =
        some (msgs.foldl (fun self msg => self.handleNlMsg seq msg) self, looked) ∧
      Within (cnMsg + 20 + len.toNat) looked := by
  induction fuel generalizing data msgs offset self with
  | zero =>
    rcases messagesOf_cases hmsgs with ⟨rfl, rfl⟩ | ⟨n, _, _, _, _, _, _, hn, _⟩
    · obtain rfl : offset = len := UInt16.toNat_inj.mp hlen
      exact ⟨[], messageDoneLoop_last hcn _ _, within_nil _⟩
    · cases hn
  | succ fuel ih =>
    rcases messagesOf_cases hmsgs with ⟨rfl, rfl⟩ | ⟨n, type, status, b0, b1, rest, msgs', hn, rfl, hfits, hrest, rfl⟩
    · obtain rfl : offset = len := UInt16.toNat_inj.mp hlen
      exact ⟨[], messageDoneLoop_last hcn _ _, within_nil _⟩
    cases hn
    have hdrop : buf.drop (cnMsg + 20 + offset.toNat) = type :: status :: b0 :: b1 :: (rest ++ tail) := hdrop
    simp only [List.length_cons] at hlen
    have hne : offset ≠ len := by
      rintro rfl
      omega
    have hload : load16 buf (cnMsg + 20 + offset.toNat + 2) = some (native16 b0 b1) :=
      (load16_of_drop hdrop 2).trans (load16_header ..)
    have hlt := len.toNat_lt
    have hnext := @toNat_next offset (native16 b0 b1) (by omega)
    obtain ⟨cmds, hmsg, hcmds⟩ := self.handleNlMsgAt_complete hseq hdrop hfits
    have hdrop' : buf.drop (cnMsg + 20 + (offset + (12 + native16 b0 b1)).toNat) =
        rest.drop (8 + (native16 b0 b1).toNat) ++ tail := by
      have hbehind := drop_header hdrop hfits
      rw [hnext, ← hbehind]
      congr 1
      omega
    have hlen' : (rest.drop (8 + (native16 b0 b1).toNat)).length = rest.length - (8 + (native16 b0 b1).toNat) :=
      List.length_drop
    obtain ⟨looked, hloop, hin⟩ := @ih _ _ _ (self.handleNlMsg seq ⟨type, status,
      commandsOf (native16 b0 b1).toNat ((rest.drop 8).take (native16 b0 b1).toNat)⟩) hrest hdrop' (by omega)
    refine ⟨_, messageDoneLoop_next hcn hne hmsg hload hloop,
      within_append.mpr ⟨within_cons.mpr ⟨?_, hcmds.mono (by omega)⟩, hin⟩⟩
    show cnMsg + 20 + offset.toNat + (12 + (native16 b0 b1).toNat) ≤ cnMsg + 20 + len.toNat
    omega

/-- The walk was at its end, or found a message. -/
theorem messageDoneLoop_cases (hcn : load16 buf (cnMsg + 16) = some len) {fuel : ℕ} {offset : UInt16}
    {self r : OneWire κ} {looked : List Looked}
    (h : messageDoneLoop buf cnMsg (fuel + 1) offset self = some (r, looked)) :
    offset = len ∨ offset ≠ len ∧ ∃ msgLen m cmds rest, load16 buf (cnMsg + 20 + offset.toNat + 2) = some msgLen ∧
      messageDoneLoop buf cnMsg fuel (offset + (12 + msgLen)) m = some (r, rest) ∧
      looked = ⟨cnMsg + 20 + offset.toNat, 12 + msgLen.toNat⟩ :: cmds ++ rest := by
  by_cases hend : offset = len
  · exact Or.inl hend
  refine Or.inr ⟨hend, ?_⟩
  unfold messageDoneLoop at h
  rw [nextNlMsg_eq hcn, if_neg hend, Option.bind_eq_bind, Option.bind_some] at h
  obtain ⟨⟨m, cmds⟩, -, h⟩ := Option.bind_eq_some_iff.mp h
  obtain ⟨msgLen, hload, h⟩ := Option.bind_eq_some_iff.mp h
  obtain ⟨⟨r', rest⟩, hloop, h⟩ := Option.bind_eq_some_iff.mp h
  cases h
  exact ⟨msgLen, m, cmds, rest, hload, hloop, rfl⟩

/-- A complete message, in front of complete messages. -/
theorem isSome_messagesOf_cons {p k n : ℕ} {type status b0 b1 : UInt8} {data : List UInt8}
    (hdrop : buf.drop p = type :: status :: b0 :: b1 :: data) (hk : 8 + (native16 b0 b1).toNat ≤ k)
    (hdata : 8 + (native16 b0 b1).toNat ≤ data.length)
    (h : (messagesOf n ((buf.drop (p + (12 + (native16 b0 b1).toNat))).take (k - (8 + (native16 b0 b1).toNat)))).isSome =
      true) : (messagesOf (n + 1) ((buf.drop p).take (k + 4))).isSome = true := by
  have hbehind : buf.drop (p + (12 + (native16 b0 b1).toNat)) = data.drop (8 + (native16 b0 b1).toNat) := by
    have hfirst : buf.drop p = type :: status :: b0 :: b1 :: (data ++ []) := by
      rw [List.append_nil]
      exact hdrop
    have hrest := drop_header hfirst hdata
    rwa [List.append_nil, ← Nat.add_assoc 4 8] at hrest
  rw [hdrop]
  show (messagesOf (n + 1) (type :: status :: b0 :: b1 :: data.take k)).isSome = true
  rw [messagesOf_header, if_pos (by rw [List.length_take]; omega), List.drop_take, ← hbehind]
  obtain ⟨msgs, hmsgs⟩ := Option.isSome_iff_exists.mp h
  rw [hmsgs]
  rfl

/-- A walk that ends, and stays inside what was received, went over complete messages. -/
theorem messagesOf_of_inside (hcn : load16 buf (cnMsg + 16) = some len) {size : ℕ} (hsize : size ≤ buf.length)
    (hwide : size < 2 ^ 16) (fuel : ℕ) {offset : UInt16} {self r : OneWire κ} {looked : List Looked}
    (h : messageDoneLoop buf cnMsg fuel offset self = some (r, looked)) (hin : Within size looked) :
    offset.toNat ≤ len.toNat ∧ (offset ≠ len → cnMsg + 20 + len.toNat ≤ size) ∧
      ∀ n, len.toNat ≤ offset.toNat + n →
        (messagesOf n ((buf.drop (cnMsg + 20 + offset.toNat)).take (len.toNat - offset.toNat))).isSome = true := by
  induction fuel generalizing offset self looked with
  | zero => cases h
  | succ fuel ih =>
    rcases messageDoneLoop_cases hcn h with rfl | ⟨hne, msgLen, m, cmds, rest, hload, hloop, rfl⟩
    · refine ⟨le_rfl, fun hne => absurd rfl hne, fun n _ => ?_⟩
      rw [Nat.sub_self, List.take_zero, messagesOf_nil]
      rfl
    obtain ⟨hfirst, hrest⟩ := within_append.mp hin
    have hfits : cnMsg + 20 + offset.toNat + (12 + msgLen.toNat) ≤ size := (within_cons.mp hfirst).1
    have hnext := @toNat_next offset msgLen (by omega)
    obtain ⟨hle, hlast, hmsgs⟩ := ih hloop hrest
    have hinside : cnMsg + 20 + len.toNat ≤ size := by
      by_cases hend : offset + (12 + msgLen) = len
      · rw [← hend, hnext]
        omega
      · exact hlast hend
    refine ⟨by omega, fun _ => hinside, fun n hn => ?_⟩
    obtain ⟨n, rfl⟩ : ∃ k, n = k + 1 := Nat.exists_eq_succ_of_ne_zero (by omega)
    obtain ⟨type, status, b0, b1, data, hdrop⟩ := exists_header (l := buf.drop (cnMsg + 20 + offset.toNat))
      (by rw [List.length_drop]; omega)
    have hmsgLen : msgLen = native16 b0 b1 := by
      rw [load16_of_drop hdrop, load16_header] at hload
      exact (Option.some.inj hload).symm
    subst hmsgLen
    have hdata : data.length + 4 = buf.length - (cnMsg + 20 + offset.toNat) := by
      rw [← List.length_drop, hdrop]
      rfl
    obtain ⟨k, hk⟩ : ∃ k, len.toNat - offset.toNat = k + 4 := ⟨len.toNat - offset.toNat - 4, by omega⟩
    have hmore := hmsgs n (by omega)
    rw [hnext, ← Nat.add_assoc (cnMsg + 20), show len.toNat - (offset.toNat + (12 + (native16 b0 b1).toNat)) =
      k - (8 + (native16 b0 b1).toNat) by omega] at hmore
    rw [hk]
    exact isSome_messagesOf_cons hdrop (by omega) (by omega) hmore

end

/-! ## Every datagram -/

section

variable [Host] {buf : List UInt8}

theorem exists_load16 {p : ℕ} (h : p + 2 ≤ buf.length) : ∃ v, load16 buf p = some v := by
  unfold load16
  rw [List.getElem?_eq_getElem (by omega), List.getElem?_eq_getElem (by omega)]
  exact ⟨_, rfl⟩

theorem exists_load32 {p : ℕ} (h : p + 4 ≤ buf.length) : ∃ v, load32 buf p = some v := by
  unfold load32
  rw [List.getElem?_eq_getElem (by omega), List.getElem?_eq_getElem (by omega), List.getElem?_eq_getElem (by omega),
    List.getElem?_eq_getElem (by omega)]
  exact ⟨_, rfl⟩

/-- The walk over the messages that were received. -/
theorem messageDoneLoop_received {size : ℕ} (hsize : size ≤ buf.length) {seq : UInt32} {msgs : List W1Msg}
    (hseq : load32 buf 24 = some seq) (h : receivedMsgs buf size = some msgs) (self : OneWire κ) :
    ∃ fuel looked, messageDoneLoop buf 16 fuel 0 self = some (self.handleMessageDone ⟨seq, msgs⟩, looked) ∧
      Within size looked := by
  obtain ⟨len, hcn, h⟩ := Option.bind_eq_some_iff.mp h
  by_cases hlen : len = 0
  · rw [if_pos hlen] at h
    cases h
    subst hlen
    exact ⟨1, [], messageDoneLoop_last hcn 0 self, within_nil _⟩
  rw [if_neg hlen] at h
  by_cases hfits : 36 + len.toNat ≤ size
  · rw [if_pos hfits] at h
    have hdata : ((buf.drop 36).take len.toNat).length = len.toNat := by
      rw [List.length_take, List.length_drop]
      omega
    have hdrop : buf.drop (16 + 20 + (0 : UInt16).toNat) =
        (buf.drop 36).take len.toNat ++ (buf.drop 36).drop len.toNat := (List.take_append_drop ..).symm
    obtain ⟨looked, hloop, hin⟩ := @messageDoneLoop_complete κ _ buf _ 16 len seq hcn hseq len.toNat _ msgs 0 self h
      hdrop (by rw [hdata]; exact Nat.zero_add _)
    exact ⟨len.toNat + 1, looked, hloop, hin.mono hfits⟩
  · rw [if_neg hfits] at h
    cases h

/-- **A well-formed datagram** is handled as the messages it consists of. -/
theorem datagram_refines (hbuf : buf.length = 512) {size : ℕ} (hmin : 16 ≤ size) (hsize : size ≤ 512)
    (htype : load16 buf 4 = some 3) {seq : UInt32} {msgs : List W1Msg} (hseq : load32 buf 24 = some seq)
    (h : receivedMsgs buf size = some msgs) (self : OneWire κ) :
    ∃ fuel looked, handleSocket self buf size false fuel = some (self.handleMessageDone ⟨seq, msgs⟩, looked, 0) ∧
      Within size looked := by
  obtain ⟨fuel, looked, hloop, hin⟩ := messageDoneLoop_received (hsize.trans_eq hbuf.symm) hseq h self
  refine ⟨fuel, looked, ?_, hin⟩
  unfold handleSocket
  rw [if_neg (by omega), if_neg (by omega), htype, Option.bind_eq_bind, Option.bind_some, if_pos rfl, hloop]
  rfl

/-- A walk that stays inside what was received. -/
theorem wellFormed_of_inside (hbuf : buf.length = 512) {size : ℕ} (hsize : size ≤ 512) {fuel : ℕ}
    {self r : OneWire κ} {looked : List Looked} (h : messageDoneLoop buf 16 fuel 0 self = some (r, looked))
    (hin : Within size looked) : WellFormed buf size := by
  have hcn : ∃ len, load16 buf (16 + 16) = some len := by
    cases fuel with
    | zero => cases h
    | succ fuel =>
      unfold messageDoneLoop at h
      obtain ⟨_, hnext, -⟩ := Option.bind_eq_some_iff.mp h
      obtain ⟨len, hcn, -⟩ := Option.bind_eq_some_iff.mp hnext
      exact ⟨len, hcn⟩
  obtain ⟨len, hcn⟩ := hcn
  obtain ⟨-, hinside, hmsgs⟩ := messagesOf_of_inside hcn (hsize.trans_eq hbuf.symm) (by omega) fuel h hin
  unfold WellFormed receivedMsgs
  rw [show load16 buf 32 = some len from hcn, Option.bind_eq_bind, Option.bind_some]
  by_cases hlen : len = 0
  · rw [if_pos hlen]
    rfl
  rw [if_neg hlen, if_pos (hinside fun h => hlen h.symm)]
  exact hmsgs len.toNat (by omega)

/-- **The datagrams that are parsed inside what was received**: all that are short, not of the type NLMSG_DONE,
or well-formed. -/
theorem datagram_inside_iff (self : OneWire κ) (hbuf : buf.length = 512) (size : ℕ) (hsize : size ≤ 512) :
    (∃ fuel self' looked res, handleSocket self buf size false fuel = some (self', looked, res) ∧
        ∀ x ∈ looked, x.start + x.length ≤ size) ↔
      (16 ≤ size → load16 buf 4 = some 3 → WellFormed buf size) := by
  constructor
  · rintro ⟨fuel, self', looked, res, h, hin⟩ hmin htype
    unfold handleSocket at h
    rw [if_neg (by omega), if_neg (by omega), htype, Option.bind_eq_bind, Option.bind_some, if_pos rfl] at h
    obtain ⟨⟨r, looked'⟩, hloop, h⟩ := Option.bind_eq_some_iff.mp h
    cases h
    exact wellFormed_of_inside hbuf hsize hloop hin
  · intro h
    by_cases hempty : (size : ℤ) ≤ 0
    · exact ⟨0, self, [], -1, by unfold handleSocket; rw [if_pos hempty]; rfl, within_nil size⟩
    by_cases hmin : (size : ℤ) < 16
    · exact ⟨0, self, [], 0, by unfold handleSocket; rw [if_neg hempty, if_pos hmin], within_nil size⟩
    by_cases htype : load16 buf 4 = some 3
    · obtain ⟨msgs, hmsgs⟩ := Option.isSome_iff_exists.mp (h (by omega) htype)
      obtain ⟨seq, hseq⟩ := @exists_load32 _ buf 24 (by omega)
      obtain ⟨fuel, looked, hsocket, hin⟩ := datagram_refines hbuf (by omega) hsize htype hseq hmsgs self
      exact ⟨fuel, _, looked, 0, hsocket, hin⟩
    · obtain ⟨type, hload⟩ := @exists_load16 _ buf 4 (by omega)
      have hne : type ≠ 3 := by
        rintro rfl
        exact htype hload
      refine ⟨0, self, [], 0, ?_, within_nil size⟩
      unfold handleSocket
      rw [if_neg hempty, if_neg hmin, hload, Option.bind_eq_bind, Option.bind_some, if_neg hne]

end

/-! ## A length that wraps -/

section

local instance datagramHost : Host := ⟨true⟩

/-- The buffer after a datagram was read into it. -/
def bufferWith (data : List UInt8) : List UInt8 := data ++ List.replicate (512 - data.length) 0

/-- A datagram of the type NLMSG_DONE; `len` and `data` are those of the `cn_msg`. -/
def doneDatagram (len : UInt8) (data : List UInt8) : List UInt8 :=
  [48, 0, 0, 0, 3, 0, 0, 0, 0, 0, 0, 0, 0, 0, 0, 0] ++ [3, 0, 0, 0, 1, 0, 0, 0, 1, 0, 0, 0, 0, 0, 0, 0, len, 0, 0, 0] ++ data

/-- One message without commands. -/
def oneMessage : List UInt8 := doneDatagram 12 (5 :: List.replicate 11 0)

/-- The message announces 65524 bytes. -/
def wrappingMessage : List UInt8 := doneDatagram 1 ([0, 0, 0xf4, 0xff] ++ List.replicate 8 0)

theorem datagram_inside_iff_one :
    ∃ fuel self' looked res, handleSocket (mlOneWireInit ⟨0, 0, 0⟩ : OneWire ℕ) (bufferWith oneMessage) (48 : ℕ) false fuel =
        some (self', looked, res) ∧ ∀ x ∈ looked, x.start + x.length ≤ 48 :=
  (datagram_inside_iff _ (by decide +kernel) 48 (by decide)).mpr fun _ _ => by decide +kernel

theorem wrapping_never_ends {κ : Type} (fuel : ℕ) (self : OneWire κ) :
    messageDoneLoop (bufferWith wrappingMessage) 16 fuel 0 self = none := by
  rw [Option.eq_none_iff_forall_ne_some]
  rintro ⟨r, looked⟩ h
  induction fuel generalizing self looked with
  | zero => cases h
  | succ fuel ih =>
    have hcn : load16 (bufferWith wrappingMessage) (16 + 16) = some 1 := by decide +kernel
    have hmsg : load16 (bufferWith wrappingMessage) (16 + 20 + (0 : UInt16).toNat + 2) = some 0xfff4 := by decide +kernel
    rcases messageDoneLoop_cases hcn h with hend | ⟨-, msgLen, m, cmds, rest, hload, hloop, rfl⟩
    · cases hend
    · rw [hmsg] at hload
      cases hload
      exact ih m rest hloop

/-- The offset is 0 again after the first message. -/
theorem datagram_never_ends :
    ¬ ∃ fuel self' looked res,
      handleSocket (mlOneWireInit ⟨0, 0, 0⟩ : OneWire ℕ) (bufferWith wrappingMessage) (48 : ℕ) false fuel =
        some (self', looked, res) ∧ ∀ x ∈ looked, x.start + x.length ≤ 48 := by
  rintro ⟨fuel, self', looked, res, h, -⟩
  have htype : load16 (bufferWith wrappingMessage) 4 = some 3 := by decide +kernel
  unfold handleSocket at h
  rw [if_neg (by decide), if_neg (by decide), htype, Option.bind_eq_bind, Option.bind_some, if_pos rfl,
    wrapping_never_ends] at h
  cases h

end

end Monolinux
