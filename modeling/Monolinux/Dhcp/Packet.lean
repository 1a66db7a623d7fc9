import Monolinux.Inet

/-!
# `struct ml_dhcp_client_t` and received packets

A received packet changes nothing in the client, or only `packet_type` (ACK and NAK),
or `packet_type` and all the data of the lease (OFFER).  `decode` is what a packet
means to a client with a given kind of socket and MAC address:

  `unpack_packet` reads inside the packet, ends, and takes what `decode` says
  (`unpackPacket_eq`)
-/

namespace Monolinux

/-- `struct in_addr`: the value of `s_addr`. -/
abbrev InAddr := UInt32

inductive ClientState
  | init
  | selecting
  | requesting
  | bound
  | renewing
deriving DecidableEq

inductive PacketType
  | offer
  | ack
  | nak
  | none
deriving DecidableEq

/-- The timers in the poll list: `RENEW_IX`, `REBIND_IX`, `RESP_IX` and `INIT_IX`. -/
inductive TimerIx
  | renew
  | rebind
  | resp
  | init
deriving DecidableEq

/-- `struct ml_dhcp_client_t`. -/
structure Client where
  state : ClientState
  packetType : PacketType
  ipAddress : InAddr
  subnetMask : InAddr
  gateway : InAddr
  dns : InAddr
  leaseTime : ℤ
  renewalInterval : ℤ
  rebindingTime : ℤ
  renewalTimerExpired : Bool
  rebindingTimerExpired : Bool
  responseTimerExpired : Bool
  initTimerExpired : Bool
  isPacketSocket : Bool
  /-- `fds[SOCK_IX].fd` -/
  sock : ℕ
  /-- the other descriptors in `fds` -/
  timerFd : TimerIx → ℕ
  /-- `server.ip_address` -/
  server : InAddr
  interfaceName : String
  interfaceIndex : ℤ
  macAddress : Vector UInt8 6

/-- `struct options_t`; a field that is not valid is `none`. -/
structure Options where
  messageType : Option UInt8 := none
  subnetMask : Option InAddr := none
  gateway : Option InAddr := none
  dns : Option InAddr := none
  leaseTime : Option UInt32 := none
  renewalTime : Option UInt32 := none
  rebindingTime : Option UInt32 := none
  serverIpAddress : Option InAddr := none

/-! ## Options -/

def unpackOptionU8 : List UInt8 → Option UInt8
  | [b] => some b
  | _ => none

def unpackOptionU32 : List UInt8 → Option UInt32
  | [b0, b1, b2, b3] => some (word32 b0 b1 b2 b3)
  | _ => none

section
variable [Host]

def unpackOptionInAddr : List UInt8 → Option InAddr
  | [b0, b1, b2, b3] => some (ntohl (word32 b0 b1 b2 b3))
  | _ => none

def unpackOption (options : Options) (option : UInt8) (buf : List UInt8) : Option Options :=
  match option with
  | 1 => (unpackOptionInAddr buf).map fun value => { options with subnetMask := some value }
  | 3 => (unpackOptionInAddr buf).map fun value => { options with gateway := some value }
  -- the first of the servers
  | 6 => (unpackOptionInAddr (buf.take 4)).map fun value => { options with dns := some value }
  | 53 => (unpackOptionU8 buf).map fun value => { options with messageType := some value }
  | 51 => (unpackOptionU32 buf).map fun value => { options with leaseTime := some value }
  | 58 => (unpackOptionU32 buf).map fun value => { options with renewalTime := some value }
  | 59 => (unpackOptionU32 buf).map fun value => { options with rebindingTime := some value }
  | 54 => (unpackOptionInAddr buf).map fun value => { options with serverIpAddress := some value }
  | _ => some options

/-- The loop of `unpack_all_options` over the `stream`; `some none` is its result -1. -/
def unpackAllOptionsLoop : ℕ → Options → List UInt8 → Option (Option Options)
  | 0, _, _ => none
  | fuel + 1, options, stream =>
    match stream with
    | [] => some none
    | option :: stream =>
      if option = 255 then some (some options)
      else
        match stream with
        | [] => some none
        | length :: stream =>
          -- `fread` of one element: no element of no bytes is read
          if length = 0 ∨ stream.length < length.toNat then some none
          else
            match unpackOption options option (stream.take length.toNat) with
            | none => some none
            | some options => unpackAllOptionsLoop fuel options (stream.drop length.toNat)

def unpackAllOptions (stream : List UInt8) : Option (Option Options) :=
  unpackAllOptionsLoop (stream.length + 1) {} stream

def unpackOptions (buf : List UInt8) : Option (Option Options) := unpackAllOptions buf

/-- An iteration of the loop takes bytes from the stream, so it comes to an end. -/
theorem unpackAllOptionsLoop_ends (fuel : ℕ) (options : Options) (stream : List UInt8) (h : stream.length < fuel) :
    ∃ res, unpackAllOptionsLoop fuel options stream = some res := by
  induction fuel generalizing options stream with
  | zero => exact absurd h (Nat.not_lt_zero _)
  | succ fuel ih =>
    match stream, h with
    | [], _ => exact ⟨none, rfl⟩
    | [option], _ =>
      by_cases hend : option = 255
      · exact ⟨some options, by simp only [unpackAllOptionsLoop, if_pos hend]⟩
      · exact ⟨none, by simp only [unpackAllOptionsLoop, if_neg hend]⟩
    | option :: length :: stream, h =>
      by_cases hend : option = 255
      · exact ⟨some options, by simp only [unpackAllOptionsLoop, if_pos hend]⟩
      by_cases hread : length = 0 ∨ stream.length < length.toNat
      · exact ⟨none, by simp only [unpackAllOptionsLoop, if_neg hend, if_pos hread]⟩
      cases ho : unpackOption options option (stream.take length.toNat) with
      | none => exact ⟨none, by simp only [unpackAllOptionsLoop, if_neg hend, if_neg hread, ho]⟩
      | some options' =>
        have hlt : (stream.drop length.toNat).length < fuel := by
          rw [List.length_drop]
          simp only [List.length_cons] at h
          omega
        obtain ⟨res, hres⟩ := ih options' (stream.drop length.toNat) hlt
        exact ⟨res, by simp only [unpackAllOptionsLoop, if_neg hend, if_neg hread, ho, hres]⟩

end

/-! ## Headers -/

def isIpValid (buf : List UInt8) : Option Bool :=
  pure (decide (20 ≤ buf.length)) <&&> pure (decide (mlInetChecksum (buf.take 20) 0 = 0)) <&&>
    byteIs buf 0 0x45 <&&> byteIs buf 9 17 <&&>
    byteIs buf 16 255 <&&> byteIs buf 17 255 <&&> byteIs buf 18 255 <&&> byteIs buf 19 255

/-- `buf` is the packet from the UDP header on, `size` the size of the whole packet. -/
def isUdpValid (buf : List UInt8) (size : ℕ) : Option Bool :=
  -- ToDo: Validate checksum.
  pure (decide (28 ≤ size)) <&&> byteIs buf 0 0 <&&> byteIs buf 1 67 <&&> byteIs buf 2 0 <&&> byteIs buf 3 68

def isPacketValid (buf : List UInt8) : Option Bool :=
  isIpValid buf <&&> isUdpValid (buf.drop 20) buf.length

/-- The checks of `unpack_packet` on the BOOTP fields. -/
def isDhcpValid (macAddress : Vector UInt8 6) (buf : List UInt8) : Option Bool :=
  pure (decide (240 < buf.length)) <&&> byteIs buf 0 2 <&&> byteIs buf 1 1 <&&>
    bytesAre buf 28 macAddress.toList <&&>
    byteIs buf 236 0x63 <&&> byteIs buf 237 0x82 <&&> byteIs buf 238 0x53 <&&> byteIs buf 239 0x63

section
variable [Host]

/-- `unpack_packet` up to its `switch`: the options and the BOOTP part of the packet, or
`some none` where it returns before. -/
def unpackUntilSwitch (self : Client) (buf : List UInt8) : Option (Option (Options × List UInt8)) := do
  if self.isPacketSocket && !(← isPacketValid buf) then
    return none
  let buf := if self.isPacketSocket then buf.drop 28 else buf
  if !(← isDhcpValid self.macAddress buf) then
    return none
  match ← unpackOptions (buf.drop 240) with
  | none => return none
  | some options => return some (options, buf)

/-! ## Taking a packet -/

def unpackInAddr (buf : List UInt8) : Option InAddr :=
  match buf with
  | b0 :: b1 :: b2 :: b3 :: _ => some (ntohl (word32 b0 b1 b2 b3))
  | _ => none

/-- `buf` is the packet from `yiaddr` on. -/
def unpackMessageTypeOffer (self : Client) (options : Options) (buf : List UInt8) : Option Client :=
  match options.serverIpAddress, options.leaseTime, options.subnetMask, options.gateway, options.dns with
  | some server, some leaseTime, some subnetMask, some gateway, some dns =>
    if 1 ≤ leaseTime then
      (unpackInAddr buf).map fun ipAddress =>
        { self with
          ipAddress := ipAddress
          server := server
          subnetMask := subnetMask
          gateway := gateway
          dns := dns
          leaseTime := toInt leaseTime
          renewalInterval := (toInt leaseTime).tdiv 2
          rebindingTime := (toInt leaseTime).tdiv 2 + 10
          packetType := .offer }
    else some self
  | _, _, _, _, _ => some self

def unpackMessageTypeAck (self : Client) : Client := { self with packetType := .ack }

def unpackMessageTypeNak (self : Client) : Client := { self with packetType := .nak }

/-- The `switch` of `unpack_packet`. -/
def unpackMessage (self : Client) (options : Options) (buf : List UInt8) : Option Client :=
  match options.messageType with
  | some 2 => unpackMessageTypeOffer self options (buf.drop 16)
  | some 5 => some (unpackMessageTypeAck self)
  | some 6 => some (unpackMessageTypeNak self)
  | _ => some self

def unpackPacket (self : Client) (buf : List UInt8) : Option Client := do
  match ← unpackUntilSwitch self buf with
  | none => return self
  | some (options, buf) => unpackMessage self options buf

/-! ## What a packet means -/

/-- The data of an OFFER. -/
structure Offer where
  ipAddress : InAddr
  server : InAddr
  subnetMask : InAddr
  gateway : InAddr
  dns : InAddr
  leaseTime : UInt32
deriving DecidableEq

inductive Message
  | offer (o : Offer)
  | ack
  | nak
deriving DecidableEq

instance (m : Option Message) (P : Offer → Prop) [DecidablePred P] :
    Decidable (∀ o, m = some (.offer o) → P o) :=
  match m with
  | none => isTrue nofun
  | some (.offer o) => decidable_of_iff (P o) ⟨fun h o' ho => by cases ho; exact h, fun h => h o rfl⟩
  | some .ack => isTrue nofun
  | some .nak => isTrue nofun

/-- An IPv4 header without options and with a valid checksum, of a UDP packet to
255.255.255.255, and the UDP ports 67 and 68. -/
def ValidHeaders (buf : List UInt8) : Prop :=
  (20 ≤ buf.length ∧ mlInetChecksum (buf.take 20) 0 = 0 ∧ buf[0]? = some 0x45 ∧ buf[9]? = some 17 ∧
    buf[16]? = some 255 ∧ buf[17]? = some 255 ∧ buf[18]? = some 255 ∧ buf[19]? = some 255) ∧
  28 ≤ buf.length ∧ buf[20]? = some 0 ∧ buf[21]? = some 67 ∧ buf[22]? = some 0 ∧ buf[23]? = some 68

instance : DecidablePred ValidHeaders := fun _ => inferInstanceAs (Decidable (_ ∧ _))

/-- A BOOTP response to the MAC address, with the magic cookie and room for options. -/
def ValidBootp (macAddress : Vector UInt8 6) (buf : List UInt8) : Prop :=
  240 < buf.length ∧ buf[0]? = some 2 ∧ buf[1]? = some 1 ∧
    (buf.drop 28).take macAddress.toList.length = macAddress.toList ∧
    buf[236]? = some 0x63 ∧ buf[237]? = some 0x82 ∧ buf[238]? = some 0x53 ∧ buf[239]? = some 0x63

instance (macAddress : Vector UInt8 6) : DecidablePred (ValidBootp macAddress) :=
  fun _ => inferInstanceAs (Decidable (_ ∧ _))

/-- The BOOTP part of what is read from the socket. -/
def payload (isPacketSocket : Bool) (buf : List UInt8) : Option (List UInt8) :=
  if isPacketSocket then
    if ValidHeaders buf then some (buf.drop 28) else none
  else some buf

def offerOf (options : Options) (buf : List UInt8) : Option Offer := do
  let server ← options.serverIpAddress
  let leaseTime ← options.leaseTime
  let subnetMask ← options.subnetMask
  let gateway ← options.gateway
  let dns ← options.dns
  guard (1 ≤ leaseTime)
  let ipAddress ← unpackInAddr (buf.drop 16)
  return { ipAddress, server, subnetMask, gateway, dns, leaseTime }

def messageOf (options : Options) (buf : List UInt8) : Option Message :=
  match options.messageType with
  | some 2 => (offerOf options buf).map .offer
  | some 5 => some .ack
  | some 6 => some .nak
  | _ => none

/-- The message in a BOOTP packet. -/
def decodeBootp (macAddress : Vector UInt8 6) (buf : List UInt8) : Option Message :=
  if ValidBootp macAddress buf then
    ((unpackOptions (buf.drop 240)).bind id).bind fun options => messageOf options buf
  else none

/-- The message in what is read from the socket. -/
def decode (isPacketSocket : Bool) (macAddress : Vector UInt8 6) (buf : List UInt8) : Option Message :=
  (payload isPacketSocket buf).bind (decodeBootp macAddress)

/-- The client with the data of an OFFER. -/
def Client.withOffer (self : Client) (o : Offer) : Client :=
  { self with
    ipAddress := o.ipAddress
    server := o.server
    subnetMask := o.subnetMask
    gateway := o.gateway
    dns := o.dns
    leaseTime := toInt o.leaseTime
    renewalInterval := (toInt o.leaseTime).tdiv 2
    rebindingTime := (toInt o.leaseTime).tdiv 2 + 10
    packetType := .offer }

def Client.receive (self : Client) : Option Message → Client
  | none => self
  | some (.offer o) => self.withOffer o
  | some .ack => { self with packetType := .ack }
  | some .nak => { self with packetType := .nak }

omit [Host] in
theorem byteIs_drop (buf : List UInt8) (p i : ℕ) (v : UInt8) : byteIs (buf.drop p) i v = byteIs buf (p + i) v := by
  unfold byteIs
  rw [List.getElem?_drop]

omit [Host] in
theorem isPacketValid_eq (buf : List UInt8) : isPacketValid buf = some (decide (ValidHeaders buf)) := by
  have hip : isIpValid buf = some (decide (20 ≤ buf.length ∧ mlInetChecksum (buf.take 20) 0 = 0 ∧
      buf[0]? = some 0x45 ∧ buf[9]? = some 17 ∧ buf[16]? = some 255 ∧ buf[17]? = some 255 ∧
      buf[18]? = some 255 ∧ buf[19]? = some 255)) :=
    and_reads rfl fun h => and_reads rfl fun _ => and_reads (byteIs_of_lt (by omega) _) fun _ =>
      and_reads (byteIs_of_lt (by omega) _) fun _ => and_reads (byteIs_of_lt (by omega) _) fun _ =>
      and_reads (byteIs_of_lt (by omega) _) fun _ => and_reads (byteIs_of_lt (by omega) _) fun _ =>
      byteIs_of_lt (by omega) _
  have hudp : isUdpValid (buf.drop 20) buf.length = some (decide (28 ≤ buf.length ∧ buf[20]? = some 0 ∧
      buf[21]? = some 67 ∧ buf[22]? = some 0 ∧ buf[23]? = some 68)) := by
    unfold isUdpValid
    simp only [byteIs_drop]
    exact and_reads rfl fun h => and_reads (byteIs_of_lt (by omega) _) fun _ =>
      and_reads (byteIs_of_lt (by omega) _) fun _ => and_reads (byteIs_of_lt (by omega) _) fun _ =>
      byteIs_of_lt (by omega) _
  exact and_reads hip fun _ => hudp

omit [Host] in
theorem isDhcpValid_eq (macAddress : Vector UInt8 6) (buf : List UInt8) :
    isDhcpValid macAddress buf = some (decide (ValidBootp macAddress buf)) := by
  have hmac : macAddress.toList.length = 6 := Vector.length_toList
  exact and_reads rfl fun h => and_reads (byteIs_of_lt (by omega) _) fun _ =>
    and_reads (byteIs_of_lt (by omega) _) fun _ => and_reads (bytesAre_of_le (by omega)) fun _ =>
    and_reads (byteIs_of_lt (by omega) _) fun _ => and_reads (byteIs_of_lt (by omega) _) fun _ =>
    and_reads (byteIs_of_lt (by omega) _) fun _ => byteIs_of_lt (by omega) _

/-- An OFFER is taken with all its data, or not at all. -/
theorem unpackMessageTypeOffer_eq (self : Client) (options : Options) (buf : List UInt8) (h : 20 ≤ buf.length) :
    unpackMessageTypeOffer self options (buf.drop 16) =
      some (self.receive ((offerOf options buf).map .offer)) := by
  obtain ⟨ip, hip⟩ : ∃ ip, unpackInAddr (buf.drop 16) = some ip := by
    have hlen : 4 ≤ (buf.drop 16).length := by rw [List.length_drop]; omega
    match buf.drop 16, hlen with
    | b0 :: b1 :: b2 :: b3 :: _, _ => exact ⟨_, rfl⟩
  unfold unpackMessageTypeOffer offerOf
  rw [hip]
  cases options.serverIpAddress <;> cases options.leaseTime <;> cases options.subnetMask <;>
    cases options.gateway <;> cases options.dns <;> try rfl
  next leaseTime _ _ _ =>
    by_cases hl : 1 ≤ leaseTime
    · simp [hl, guard, Client.receive, Client.withOffer]
    · simp [hl, guard, Client.receive, failure]

theorem unpackUntilSwitch_eq (self : Client) (buf : List UInt8) :
    unpackUntilSwitch self buf = some ((payload self.isPacketSocket buf).bind fun buf =>
      if ValidBootp self.macAddress buf then ((unpackOptions (buf.drop 240)).bind id).map fun options => (options, buf)
      else none) := by
  have hbootp (buf : List UInt8) : (do
      if !(← isDhcpValid self.macAddress buf) then
        return none
      match ← unpackOptions (buf.drop 240) with
      | none => return none
      | some options => return some (options, buf)) =
      some (if ValidBootp self.macAddress buf then
          ((unpackOptions (buf.drop 240)).bind id).map fun options => (options, buf)
        else none) := by
    obtain ⟨res, hres⟩ : ∃ res, unpackOptions (buf.drop 240) = some res :=
      unpackAllOptionsLoop_ends _ _ _ (Nat.lt_succ_self _)
    rw [isDhcpValid_eq, hres]
    by_cases hv : ValidBootp self.macAddress buf
    · cases res <;> simp [hv]
    · simp [hv]
  unfold unpackUntilSwitch payload
  rw [isPacketValid_eq]
  cases self.isPacketSocket with
  | false => exact hbootp buf
  | true =>
    by_cases hv : ValidHeaders buf
    · simp only [hv, decide_true]
      exact hbootp (buf.drop 28)
    · simp [hv]

theorem unpackMessage_eq (self : Client) (options : Options) (buf : List UInt8) (h : 20 ≤ buf.length) :
    unpackMessage self options buf = some (self.receive (messageOf options buf)) := by
  unfold unpackMessage messageOf
  split
  · exact unpackMessageTypeOffer_eq self options buf h
  · rfl
  · rfl
  · rfl

/-- **`unpack_packet`** reads inside the packet, ends, and takes the message in the packet. -/
theorem unpackPacket_eq (self : Client) (buf : List UInt8) :
    unpackPacket self buf = some (self.receive (decode self.isPacketSocket self.macAddress buf)) := by
  unfold unpackPacket decode decodeBootp
  rw [unpackUntilSwitch_eq]
  cases payload self.isPacketSocket buf with
  | none => rfl
  | some buf =>
    by_cases hv : ValidBootp self.macAddress buf
    · have hlen := hv.1
      simp only [Option.bind_some, if_pos hv]
      cases (unpackOptions (buf.drop 240)).bind id with
      | none => rfl
      | some options => exact unpackMessage_eq self options buf (by omega)
    · simp only [Option.bind_some, if_neg hv]
      rfl

end

end Monolinux
