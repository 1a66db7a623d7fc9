import Monolinux.Dhcp.Options
import Monolinux.Dhcp.Lease

/-!
# Packets take effect all or nothing

`unpack_packet` takes a message that is in a valid packet (`Accepts`), with all its data,
and else leaves the client as it is          (`packets_all_or_nothing`)
-/

namespace Monolinux

section
variable [Host]

/-- On a packet socket the packet has valid headers; `bootp` is a valid BOOTP part whose options are
decoded up to END. -/
structure ValidPacket (client : Client) (buf bootp : List UInt8) (options : Options) : Prop where
  headers : client.isPacketSocket = true → ValidHeaders buf
  part : bootp = if client.isPacketSocket then buf.drop 28 else buf
  valid : ValidBootp client.macAddress bootp
  options : unpackAllOptions (bootp.drop 240) = some (some options)

/-- The message type is that of the message; an OFFER has all its data, and leases for at least a second. -/
def Carries (options : Options) (bootp : List UInt8) : Message → Prop
  | .offer o => options.messageType = some 2 ∧ options.serverIpAddress = some o.server ∧
      options.leaseTime = some o.leaseTime ∧ 1 ≤ o.leaseTime ∧ options.subnetMask = some o.subnetMask ∧
      options.gateway = some o.gateway ∧ options.dns = some o.dns ∧ unpackInAddr (bootp.drop 16) = some o.ipAddress
  | .ack => options.messageType = some 5
  | .nak => options.messageType = some 6

/-- The message is in the packet. -/
def Accepts (self : Client) (buf : List UInt8) (message : Message) : Prop :=
  ∃ bootp options, ValidPacket self buf bootp options ∧ Carries options bootp message

theorem offerOf_eq_some_iff (options : Options) (bootp : List UInt8) (o : Offer) :
    offerOf options bootp = some o ↔ options.serverIpAddress = some o.server ∧ options.leaseTime = some o.leaseTime ∧
      1 ≤ o.leaseTime ∧ options.subnetMask = some o.subnetMask ∧ options.gateway = some o.gateway ∧
      options.dns = some o.dns ∧ unpackInAddr (bootp.drop 16) = some o.ipAddress := by
  unfold offerOf
  constructor
  · intro h
    obtain ⟨server, hserver, h⟩ := Option.bind_eq_some_iff.mp h
    obtain ⟨leaseTime, hlease, h⟩ := Option.bind_eq_some_iff.mp h
    obtain ⟨subnetMask, hmask, h⟩ := Option.bind_eq_some_iff.mp h
    obtain ⟨gateway, hgateway, h⟩ := Option.bind_eq_some_iff.mp h
    obtain ⟨dns, hdns, h⟩ := Option.bind_eq_some_iff.mp h
    obtain ⟨_, hguard, h⟩ := Option.bind_eq_some_iff.mp h
    obtain ⟨ipAddress, hip, h⟩ := Option.bind_eq_some_iff.mp h
    obtain rfl := Option.some_inj.mp h
    have hle : 1 ≤ leaseTime := by
      by_contra hne
      simp [guard, hne, failure] at hguard
    exact ⟨hserver, hlease, hle, hmask, hgateway, hdns, hip⟩
  · rintro ⟨hserver, hlease, hle, hmask, hgateway, hdns, hip⟩
    simp [hserver, hlease, hmask, hgateway, hdns, hip, guard, hle]

theorem messageOf_eq_some_iff (options : Options) (bootp : List UInt8) (message : Message) :
    messageOf options bootp = some message ↔ Carries options bootp message := by
  cases message with
  | offer o =>
    show _ ↔ options.messageType = some 2 ∧ _
    rw [← offerOf_eq_some_iff]
    unfold messageOf
    split
    · next h => simp [h]
    · next h => simp [h]
    · next h => simp [h]
    · next h _ _ => exact iff_of_false nofun fun hc => h hc.1
  | ack =>
    show _ ↔ options.messageType = some 5
    unfold messageOf
    split
    · next h => simp [h]
    · next h => simp [h]
    · next h => simp [h]
    · next _ h _ => exact iff_of_false nofun h
  | nak =>
    show _ ↔ options.messageType = some 6
    unfold messageOf
    split
    · next h => simp [h]
    · next h => simp [h]
    · next h => simp [h]
    · next _ _ h => exact iff_of_false nofun h

theorem decode_eq_some_iff (self : Client) (buf : List UInt8) (message : Message) :
    decode self.isPacketSocket self.macAddress buf = some message ↔ Accepts self buf message := by
  have hpayload (bootp : List UInt8) : payload self.isPacketSocket buf = some bootp ↔
      (self.isPacketSocket = true → ValidHeaders buf) ∧ bootp = if self.isPacketSocket then buf.drop 28 else buf := by
    unfold payload
    cases self.isPacketSocket with
    | false => simp [eq_comm]
    | true => by_cases h : ValidHeaders buf <;> simp [h, eq_comm]
  have hbootp (bootp : List UInt8) : decodeBootp self.macAddress bootp = some message ↔
      ValidBootp self.macAddress bootp ∧
        ∃ options, unpackAllOptions (bootp.drop 240) = some (some options) ∧ Carries options bootp message := by
    unfold decodeBootp
    by_cases hv : ValidBootp self.macAddress bootp
    · rw [if_pos hv, Option.bind_eq_some_iff]
      refine ⟨?_, ?_⟩
      · rintro ⟨options, ho, hm⟩
        obtain ⟨res, hres, rfl⟩ := Option.bind_eq_some_iff.mp ho
        exact ⟨hv, options, hres, (messageOf_eq_some_iff _ _ _).mp hm⟩
      · rintro ⟨-, options, ho, hm⟩
        exact ⟨options, Option.bind_eq_some_iff.mpr ⟨some options, ho, rfl⟩, (messageOf_eq_some_iff _ _ _).mpr hm⟩
    · rw [if_neg hv]
      exact iff_of_false nofun fun h => hv h.1
  unfold decode
  rw [Option.bind_eq_some_iff]
  constructor
  · rintro ⟨bootp, hp, hb⟩
    obtain ⟨hheaders, rfl⟩ := (hpayload _).mp hp
    obtain ⟨hvalid, options, ho, hc⟩ := (hbootp _).mp hb
    exact ⟨_, options, ⟨hheaders, rfl, hvalid, ho⟩, hc⟩
  · rintro ⟨bootp, options, hv, hc⟩
    exact ⟨bootp, (hpayload _).mpr ⟨hv.headers, hv.part⟩, (hbootp _).mpr ⟨hv.valid, options, hv.options, hc⟩⟩

theorem unpackPacket_accepted {self : Client} {buf : List UInt8} {message : Message} (h : Accepts self buf message) :
    unpackPacket self buf = some (self.receive (some message)) := by
  rw [unpackPacket_eq, (decode_eq_some_iff self buf message).mpr h]

/-- **Packets take effect all or nothing**: `unpack_packet` ends, reads inside the packet, and takes the message
that the packet carries, or else changes nothing. -/
theorem packets_all_or_nothing (self : Client) (buf : List UInt8) :
    (∀ message, Accepts self buf message → unpackPacket self buf = some (self.receive (some message))) ∧
      ((¬ ∃ message, Accepts self buf message) → unpackPacket self buf = some self) := by
  refine ⟨fun _ => unpackPacket_accepted, fun hne => ?_⟩
  have hnone : decode self.isPacketSocket self.macAddress buf = none := by
    by_contra h
    obtain ⟨message, hm⟩ := Option.ne_none_iff_exists'.mp h
    exact hne ⟨message, (decode_eq_some_iff self buf message).mp hm⟩
  rw [unpackPacket_eq, hnone]
  rfl

end

section

local instance acceptanceHost : Host := littleEndian

/-- A client with a packet socket. -/
def packetClient : Client := { zeroClient with isPacketSocket := true, macAddress := clientMacAddress }

theorem packets_all_or_nothing_one :
    unpackPacket packetClient (replyHeaders ++ ackReply 1 3) = some { packetClient with packetType := .ack } ∧
      unpackPacket packetClient (replyHeaders ++ ackReply 1 3).dropLast = some packetClient := by
  constructor
  · exact (packets_all_or_nothing packetClient (replyHeaders ++ ackReply 1 3)).1 .ack
      ((decode_eq_some_iff packetClient _ .ack).mp (by decide +kernel))
  · -- END is missing
    have hnone : decode packetClient.isPacketSocket packetClient.macAddress (replyHeaders ++ ackReply 1 3).dropLast = none := by
      decide +kernel
    refine (packets_all_or_nothing packetClient (replyHeaders ++ ackReply 1 3).dropLast).2 ?_
    rintro ⟨message, hm⟩
    have hsome := (decode_eq_some_iff packetClient _ message).mpr hm
    rw [hnone] at hsome
    cases hsome

end

end Monolinux
