import Monolinux.OneWire.Datagram
import Monolinux.OneWire.Responses

/-!
# The datagrams that are sent

`init_nl_message` and `send_nl_message` lay a message out in the buffer: the header of
netlink, that of the connector, and the message of the slave with its commands.

`sent_roundTrip`: in every run, a datagram that is sent fits in the buffer, and the
module's own walks over messages and commands find in it exactly the commands that were
put in, under the sequence number that the module waits for.
-/

namespace Monolinux

section
variable [Host]

/-! ## The code -/

/-- A `uint16_t` of the host in memory. -/
def native16Bytes (x : UInt16) : List UInt8 :=
  if Host.littleEndian then [x.toUInt8, (x >>> 8).toUInt8] else [(x >>> 8).toUInt8, x.toUInt8]

def native32Bytes (x : UInt32) : List UInt8 :=
  if Host.littleEndian then [x.toUInt8, (x >>> 8).toUInt8, (x >>> 16).toUInt8, (x >>> 24).toUInt8]
  else [(x >>> 24).toUInt8, (x >>> 16).toUInt8, (x >>> 8).toUInt8, x.toUInt8]

/-- `struct w1_reg_num` in memory. -/
def RegNum.bytes (id : RegNum) : List UInt8 :=
  let middle := (List.range 6).map fun i => (id.id >>> (8 * i)).toNat.toUInt8
  if Host.littleEndian then id.family :: middle ++ [id.crc] else id.crc :: middle.reverse ++ [id.family]

/-- `struct w1_netlink_cmd` with its data. -/
def W1Cmd.bytes (c : W1Cmd) : List UInt8 := c.cmd :: 0 :: native16Bytes (UInt16.ofNat c.data.length) ++ c.data

/-- The data of `nl_msg_p`: a command is put behind those that it has, `nl_msg_p->len` is the number of their bytes. -/
def nlMsgData (cmds : List W1Cmd) : List UInt8 := cmds.flatMap W1Cmd.bytes

/-- `init_nl_message`, the commands, and `send_nl_message`: the datagram.  `NLMSG_LENGTH` has counted the header
already, which is counted again: sixteen bytes of the buffer follow, which are zero. -/
def nlDatagram (seq : UInt32) (id : RegNum) (cmds : List W1Cmd) : List UInt8 :=
  let len := UInt16.ofNat (nlMsgData cmds).length
  -- struct nlmsghdr, NLMSG_DONE
  native32Bytes (16 + (20 + 12 + len.toUInt32)) ++ native16Bytes 3 ++ [0, 0] ++ native32Bytes seq ++ [0, 0, 0, 0] ++
  -- struct cn_msg, CN_W1_IDX and CN_W1_VAL
  native32Bytes 3 ++ native32Bytes 1 ++ native32Bytes seq ++ [0, 0, 0, 0] ++ native16Bytes (12 + len) ++ [0, 0] ++
  -- struct w1_netlink_msg, W1_SLAVE_CMD
  [5, 0] ++ native16Bytes len ++ id.bytes ++ nlMsgData cmds ++ List.replicate 16 0

/-! ## Numbers in memory -/

theorem exists_native16Bytes (x : UInt16) : ∃ b0 b1, native16Bytes x = [b0, b1] ∧ native16 b0 b1 = x := by
  unfold native16Bytes native16
  cases Host.littleEndian with
  | true => exact ⟨_, _, rfl, word16_bytes x⟩
  | false => exact ⟨_, _, rfl, word16_bytes x⟩

theorem exists_native32Bytes (x : UInt32) : ∃ b0 b1 b2 b3, native32Bytes x = [b0, b1, b2, b3] ∧
    (if Host.littleEndian then word32 b3 b2 b1 b0 else word32 b0 b1 b2 b3) = x := by
  unfold native32Bytes
  cases Host.littleEndian with
  | true => exact ⟨_, _, _, _, rfl, word32_bytes x⟩
  | false => exact ⟨_, _, _, _, rfl, word32_bytes x⟩

@[simp] theorem length_native16Bytes (x : UInt16) : (native16Bytes x).length = 2 := by
  obtain ⟨_, _, h, -⟩ := exists_native16Bytes x
  rw [h]
  rfl

@[simp] theorem length_native32Bytes (x : UInt32) : (native32Bytes x).length = 4 := by
  obtain ⟨_, _, _, _, h, -⟩ := exists_native32Bytes x
  rw [h]
  rfl

@[simp] theorem length_regNumBytes (id : RegNum) : id.bytes.length = 8 := by
  unfold RegNum.bytes
  cases Host.littleEndian <;> simp

/-- A number behind `front`. -/
theorem load16_bytes (front : List UInt8) (x : UInt16) (back : List UInt8) {p : ℕ} (hp : front.length = p) :
    load16 (front ++ (native16Bytes x ++ back)) p = some x := by
  subst hp
  obtain ⟨b0, b1, hbytes, hvalue⟩ := exists_native16Bytes x
  unfold load16
  rw [hbytes]
  simp [hvalue]

theorem load32_bytes (front : List UInt8) (x : UInt32) (back : List UInt8) {p : ℕ} (hp : front.length = p) :
    load32 (front ++ (native32Bytes x ++ back)) p = some x := by
  subst hp
  obtain ⟨b0, b1, b2, b3, hbytes, hvalue⟩ := exists_native32Bytes x
  unfold load32
  rw [hbytes]
  simp [hvalue]

/-! ## The commands are read back -/

theorem length_cmdBytes (c : W1Cmd) : c.bytes.length = 4 + c.data.length := by
  unfold W1Cmd.bytes
  simp only [List.length_append, List.length_cons, length_native16Bytes]

theorem commandsOf_cmdBytes (fuel : ℕ) {c : W1Cmd} (h : c.data.length < 65536) (rest : List UInt8) :
    commandsOf (fuel + 1) (c.bytes ++ rest) = c :: commandsOf fuel rest := by
  obtain ⟨b0, b1, hbytes, hvalue⟩ := exists_native16Bytes (UInt16.ofNat c.data.length)
  have hlength : (native16 b0 b1).toNat = c.data.length := by
    rw [hvalue, UInt16.toNat_ofNat', Nat.mod_eq_of_lt h]
  have hcommand : c.bytes ++ rest = c.cmd :: 0 :: b0 :: b1 :: (c.data ++ rest) := by
    unfold W1Cmd.bytes
    rw [hbytes]
    simp
  rw [hcommand]
  show (if _ then _ else _) = _
  rw [if_pos (by rw [hlength, List.length_append]; omega), hlength, List.take_left, List.drop_left]

theorem commandsOf_nlMsgData {cmds : List W1Cmd} (h : ∀ c ∈ cmds, c.data.length < 65536) {fuel : ℕ} (hfuel : cmds.length ≤ fuel) :
    commandsOf fuel (nlMsgData cmds) = cmds := by
  induction cmds generalizing fuel with
  | nil => cases fuel <;> rfl
  | cons c cmds ih =>
    obtain ⟨hc, hcmds⟩ := List.forall_mem_cons.mp h
    obtain ⟨fuel, rfl⟩ := Nat.exists_eq_succ_of_ne_zero (Nat.ne_of_gt (Nat.lt_of_lt_of_le (Nat.succ_pos _) hfuel))
    unfold nlMsgData
    rw [List.flatMap_cons, Nat.succ_eq_add_one, commandsOf_cmdBytes fuel hc]
    exact congrArg _ (ih hcmds (Nat.le_of_succ_le_succ hfuel))

theorem length_le_nlMsgData (cmds : List W1Cmd) : cmds.length ≤ (nlMsgData cmds).length := by
  induction cmds with
  | nil => exact Nat.le_refl 0
  | cons c cmds ih =>
    unfold nlMsgData at ih ⊢
    rw [List.flatMap_cons, List.length_append, length_cmdBytes, List.length_cons]
    omega

theorem data_lt_of_mem {cmds : List W1Cmd} {c : W1Cmd} (hc : c ∈ cmds) : c.data.length < (nlMsgData cmds).length := by
  induction cmds with
  | nil => cases hc
  | cons c' cmds ih =>
    unfold nlMsgData at ih ⊢
    rw [List.flatMap_cons, List.length_append, length_cmdBytes]
    rcases List.mem_cons.mp hc with rfl | hc
    · omega
    · have := ih hc
      omega

/-! ## A datagram is read back -/

/-- `struct w1_netlink_msg` with its commands. -/
def nlMsgBytes (id : RegNum) (cmds : List W1Cmd) : List UInt8 :=
  [5, 0] ++ native16Bytes (UInt16.ofNat (nlMsgData cmds).length) ++ id.bytes ++ nlMsgData cmds

/-- The headers in front of it. -/
def nlHeaders (seq : UInt32) (cmds : List W1Cmd) : List UInt8 :=
  native32Bytes (16 + (20 + 12 + (UInt16.ofNat (nlMsgData cmds).length).toUInt32)) ++ native16Bytes 3 ++ [0, 0] ++
    native32Bytes seq ++ [0, 0, 0, 0] ++ native32Bytes 3 ++ native32Bytes 1 ++ native32Bytes seq ++ [0, 0, 0, 0] ++
    native16Bytes (12 + UInt16.ofNat (nlMsgData cmds).length) ++ [0, 0]

variable {seq : UInt32} {id : RegNum} {cmds : List W1Cmd}

theorem nlDatagram_eq : nlDatagram seq id cmds = nlHeaders seq cmds ++ (nlMsgBytes id cmds ++ List.replicate 16 0) := by
  unfold nlDatagram nlHeaders nlMsgBytes
  simp only [List.append_assoc]

theorem length_nlHeaders : (nlHeaders seq cmds).length = 36 := by
  unfold nlHeaders
  simp

theorem length_nlMsgBytes : (nlMsgBytes id cmds).length = 12 + (nlMsgData cmds).length := by
  unfold nlMsgBytes
  simp only [List.length_append, length_native16Bytes, length_regNumBytes, List.length_cons, List.length_nil]

theorem length_nlDatagram : (nlDatagram seq id cmds).length = 64 + (nlMsgData cmds).length := by
  rw [nlDatagram_eq, List.length_append, List.length_append, length_nlHeaders, length_nlMsgBytes, List.length_replicate]
  omega

variable (hfits : (nlMsgData cmds).length ≤ 192)
include hfits

theorem toNat_len : (UInt16.ofNat (nlMsgData cmds).length).toNat = (nlMsgData cmds).length := by
  rw [UInt16.toNat_ofNat', Nat.mod_eq_of_lt (by omega)]

theorem messagesOf_nlMsgBytes {fuel : ℕ} (hfuel : 0 < fuel) : messagesOf fuel (nlMsgBytes id cmds) = some [⟨5, 0, cmds⟩] := by
  obtain ⟨fuel, rfl⟩ := Nat.exists_eq_succ_of_ne_zero (Nat.ne_of_gt hfuel)
  obtain ⟨b0, b1, hbytes, hvalue⟩ := exists_native16Bytes (UInt16.ofNat (nlMsgData cmds).length)
  have hlength : (native16 b0 b1).toNat = (nlMsgData cmds).length := by rw [hvalue, toNat_len hfits]
  have hmessage : nlMsgBytes id cmds = 5 :: 0 :: b0 :: b1 :: (id.bytes ++ nlMsgData cmds) := by
    unfold nlMsgBytes
    rw [hbytes]
    simp
  have hid : id.bytes.length = 8 := length_regNumBytes id
  have hdata : (id.bytes ++ nlMsgData cmds).drop 8 = nlMsgData cmds := by rw [← hid, List.drop_left]
  have hrest : (id.bytes ++ nlMsgData cmds).drop (8 + (native16 b0 b1).toNat) = [] := by
    rw [List.drop_eq_nil_iff, List.length_append, hid, hlength]
  have hcommands : commandsOf (nlMsgData cmds).length (nlMsgData cmds) = cmds :=
    commandsOf_nlMsgData (fun c hc => Nat.lt_of_lt_of_le (data_lt_of_mem hc) (by omega)) (length_le_nlMsgData cmds)
  rw [hmessage]
  unfold messagesOf
  rw [if_pos (by rw [hlength, List.length_append, hid]), hrest, messagesOf_nil, hdata, hlength, List.take_length, hcommands]
  rfl

/-- **The commands that were put in are those that are found.** -/
theorem receivedMsgs_nlDatagram (junk : List UInt8) :
    receivedMsgs (nlDatagram seq id cmds ++ junk) (nlDatagram seq id cmds).length = some [⟨5, 0, cmds⟩] := by
  have hlen : (12 + UInt16.ofNat (nlMsgData cmds).length).toNat = 12 + (nlMsgData cmds).length := by
    rw [UInt16.toNat_add, toNat_len hfits]
    exact Nat.mod_eq_of_lt (by show 12 + _ < 65536; omega)
  have hload : load16 (nlDatagram seq id cmds ++ junk) 32 = some (12 + UInt16.ofNat (nlMsgData cmds).length) := by
    unfold nlDatagram
    simp only [List.append_assoc]
    simp only [← List.append_assoc _ _ (native16Bytes (12 + UInt16.ofNat (nlMsgData cmds).length) ++ _)]
    exact load16_bytes _ _ _ (by simp)
  have hdrop : (nlDatagram seq id cmds ++ junk).drop 36 = nlMsgBytes id cmds ++ (List.replicate 16 0 ++ junk) := by
    rw [nlDatagram_eq, List.append_assoc, List.append_assoc, ← @length_nlHeaders _ seq cmds, List.drop_left]
  have hne : 12 + UInt16.ofNat (nlMsgData cmds).length ≠ 0 := by
    intro heq
    rw [heq] at hlen
    have hzero : (0 : UInt16).toNat = 0 := rfl
    omega
  unfold receivedMsgs
  rw [hload, Option.bind_eq_bind, Option.bind_some, if_neg hne, if_pos (by rw [hlen, length_nlDatagram]; omega), hdrop, hlen,
    ← @length_nlMsgBytes _ id cmds, List.take_left]
  exact messagesOf_nlMsgBytes hfits (by rw [length_nlMsgBytes]; omega)

omit hfits in
theorem load16_type (junk : List UInt8) : load16 (nlDatagram seq id cmds ++ junk) 4 = some 3 := by
  unfold nlDatagram
  simp only [List.append_assoc]
  exact load16_bytes _ _ _ (by simp)

omit hfits in
theorem load32_seq (junk : List UInt8) : load32 (nlDatagram seq id cmds ++ junk) 24 = some seq := by
  unfold nlDatagram
  simp only [List.append_assoc]
  simp only [← List.append_assoc _ _ (native32Bytes seq ++ ([0, 0, 0, 0] ++ (native16Bytes (12 + _) ++ _)))]
  exact load32_bytes _ _ _ (by simp)

end

/-! ## What is sent in a run -/

/-- A command that starts a conversion, or reads the scratchpad. -/
def OneWireCall.SendOk {κ : Type} : OneWireCall κ → Prop
  | .send seqno _ cmds => 1 ≤ seqno ∧ seqno ≤ 1000 ∧ (cmds = [⟨1, [0x44]⟩] ∨ cmds = [⟨1, [0xbe]⟩, ⟨0, List.replicate 9 0⟩])
  | _ => True

namespace OneWire

variable {κ : Type} {m : OneWire κ}

structure SendsOk (m : OneWire κ) : Prop where
  seqno : 0 ≤ m.cnSeqno ∧ m.cnSeqno ≤ 1000
  calls : ∀ c ∈ m.calls, c.SendOk

theorem SendsOk.call (h : m.SendsOk) {c : OneWireCall κ} (hc : c.SendOk) : (m.call c).SendsOk :=
  ⟨h.seqno, List.forall_mem_append.mpr ⟨h.calls, List.forall_mem_singleton.mpr hc⟩⟩

theorem SendsOk.finalize (h : m.SendsOk) (res temperature : ℤ) : (m.finalize res temperature).SendsOk :=
  ⟨h.seqno, (h.call (c := .put m.responseQueue res (some temperature)) trivial).calls⟩

theorem SendsOk.sendNlMessage (h : m.SendsOk) {cmds : List W1Cmd}
    (hcmds : cmds = [⟨1, [0x44]⟩] ∨ cmds = [⟨1, [0xbe]⟩, ⟨0, List.replicate 9 0⟩]) (errno : Option ℕ+) :
    (m.sendNlMessage cmds errno).2.SendsOk := by
  obtain ⟨h0, h1⟩ := h.seqno
  have hnext : 1 ≤ m.nextSeqno.cnSeqno ∧ m.nextSeqno.cnSeqno ≤ 1000 := by
    unfold nextSeqno
    dsimp only
    split <;> omega
  have hsent : (m.nextSeqno.call (.send m.nextSeqno.cnSeqno m.id cmds)).SendsOk :=
    SendsOk.call ⟨⟨by omega, hnext.2⟩, h.calls⟩ ⟨hnext.1, hnext.2, hcmds⟩
  unfold OneWire.sendNlMessage
  cases errno <;> exact hsent

theorem SendsOk.sent (h : m.SendsOk) (seqno : ℤ) (state : Ds18b20State) : (m.sent seqno state).SendsOk := by
  have hseqno : SendsOk { m with seqno := seqno } := ⟨h.seqno, h.calls⟩
  unfold OneWire.sent
  dsimp only
  split
  · exact ⟨h.seqno, h.calls⟩
  · exact hseqno.finalize _ _

theorem SendsOk.handleQueue (h : m.SendsOk) (message : OneWireMessage κ) (errno : Option ℕ+) :
    (m.handleQueue message errno).SendsOk := by
  have hget : (m.call (.get message)).SendsOk := h.call trivial
  unfold OneWire.handleQueue
  cases message with
  | readTemperature request =>
    dsimp only
    unfold handleReadTemperature
    split
    · exact hget.call trivial
    · have haccepted (id : RegNum) : SendsOk { m.call (.get (.readTemperature request)) with
          responseQueue := some request.responseQueue, id := id } := ⟨hget.seqno, hget.calls⟩
      exact ((haccepted _).sendNlMessage (.inl rfl) errno).sent _ _
  | timeout => exact (hget.sendNlMessage (.inr rfl) errno).sent _ _
  | other => exact hget

variable [Host]

theorem SendsOk.handleCmd (h : m.SendsOk) (cmd : W1Cmd) : (m.handleCmd cmd).SendsOk := by
  unfold OneWire.handleCmd
  split
  · split
    · exact ⟨h.seqno, (h.call (c := .timerStart 750) trivial).calls⟩
    · exact h
  split
  · split
    · unfold handleReadScratchpadDone
      split
      · exact h.finalize _ _
      · exact h
    · exact h
  · exact h

theorem SendsOk.handleMessageDone (h : m.SendsOk) (cnMsg : CnMsg) : (m.handleMessageDone cnMsg).SendsOk := by
  refine List.foldlRecOn (motive := SendsOk) cnMsg.msgs _ h fun m h msg _ => ?_
  unfold handleNlMsg
  split
  · split
    · unfold handleSlaveResponse
      split
      · exact h.finalize _ _
      · exact List.foldlRecOn (motive := SendsOk) msg.cmds _ h fun _ h cmd _ => h.handleCmd cmd
    · exact h
  · exact h

end OneWire

section
variable {κ : Type} [Host] {id id' : RegNum} {s : OneWireState κ} {tr : List (OneWireLabel κ)}

theorem sendsOk_run (hr : (oneWire id).Run tr s) : s.self.SendsOk := by
  refine hr.invariant (fun s => s.self.SendsOk) ⟨⟨Int.le_refl 0, Int.le_of_lt (by decide : (0 : ℤ) < 1000)⟩, List.forall_mem_nil _⟩ fun s l h _ => ?_
  cases l with
  | queue message errno => exact h.handleQueue message errno
  | datagram cnMsg => exact h.handleMessageDone cnMsg
  | ignored => exact h
  | readFails => exact h

/-- **The datagrams of a run** fit in the buffer, and the module itself reads in them what they were to say. -/
theorem sent_roundTrip (hr : (oneWire id).Run tr s) {seqno : ℤ} {cmds : List W1Cmd} (hsend : .send seqno id' cmds ∈ s.self.calls) :
    (nlDatagram (UInt32.ofInt seqno) id' cmds).length ≤ 256 ∧
    ∀ junk : List UInt8, (nlDatagram (UInt32.ofInt seqno) id' cmds ++ junk).length = 512 → ∀ self : OneWire κ, ∃ fuel looked,
      handleSocket self (nlDatagram (UInt32.ofInt seqno) id' cmds ++ junk) (nlDatagram (UInt32.ofInt seqno) id' cmds).length
          false fuel = some (self.handleMessageDone ⟨UInt32.ofInt seqno, [⟨5, 0, cmds⟩]⟩, looked, 0) ∧
        Within (nlDatagram (UInt32.ofInt seqno) id' cmds).length looked := by
  obtain ⟨-, -, hcmds⟩ := (sendsOk_run hr).calls _ hsend
  have hlength : (nlMsgData cmds).length ≤ 18 := by
    unfold nlMsgData
    rcases hcmds with rfl | rfl <;>
      simp only [List.flatMap_cons, List.flatMap_nil, List.length_append, length_cmdBytes, List.length_cons, List.length_nil,
        List.length_replicate, le_refl, Nat.reduceAdd, Nat.reduceLeDiff]
  refine ⟨by rw [length_nlDatagram]; omega, fun junk hjunk self => ?_⟩
  refine datagram_refines hjunk ?_ ?_ (load16_type junk) (load32_seq junk) (receivedMsgs_nlDatagram (by omega) junk) self
  · rw [length_nlDatagram]
    omega
  · rw [length_nlDatagram]
    omega

end

section

local instance sendHost : Host := ⟨true⟩

/-- The second datagram for the slave 0x280000055d329533 reads its scratchpad. -/
theorem sent_roundTrip_scratchpad : ∃ s, oneWireNat.Run [readTemperature 7, convertResponse, timerMessage] s ∧
    ∃ fuel looked, handleSocket s.self (nlDatagram 2 ⟨0x28, 0x55d3295, 0x33⟩ [⟨1, [0xbe]⟩, ⟨0, List.replicate 9 0⟩] ++
        List.replicate 430 0) 82 false fuel =
      some (s.self.handleMessageDone ⟨2, [⟨5, 0, [⟨1, [0xbe]⟩, ⟨0, List.replicate 9 0⟩]⟩]⟩, looked, 0) := by
  have hreached : ∃ s, oneWireNat.Run [readTemperature 7, convertResponse, timerMessage] s ∧
      .send 2 ⟨0x28, 0x55d3295, 0x33⟩ [⟨1, [0xbe]⟩, ⟨0, List.replicate 9 0⟩] ∈ s.self.calls :=
    ⟨_, (System.path_of_runs (by decide +kernel)).run, by decide +kernel⟩
  obtain ⟨s, hrun, hsend⟩ := hreached
  obtain ⟨-, hread⟩ := sent_roundTrip hrun hsend
  obtain ⟨fuel, looked, hsocket, -⟩ := hread (List.replicate 430 0) (by decide +kernel) s.self
  exact ⟨s, hrun, fuel, looked, hsocket⟩

end

end Monolinux
