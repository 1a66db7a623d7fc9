import Monolinux.Dhcp.Packet
import Monolinux.InetWords

/-!
# The packets of the DHCP client

The buffers that `broadcast_discover`, `broadcast_request` and `send_request` build.
-/

namespace Monolinux

def packIpHeader (buf : List UInt8) (size : ℕ) : List UInt8 :=
  let buf := store buf 0 [0x45]
  let buf := store buf 2 [UInt8.ofNat (size >>> 8), UInt8.ofNat size]
  let buf := store buf 5 [0x11]
  let buf := store buf 8 [255, 17]
  let buf := store buf 16 [255, 255, 255, 255]
  let checksum := mlInetChecksum (buf.take 20) 0
  store buf 10 [(checksum >>> 8).toUInt8, checksum.toUInt8]

/-- The header is at `buf[p]`. -/
def packUdpHeader (buf : List UInt8) (p : ℕ) (size : ℕ) : List UInt8 :=
  store buf p [0, 68, 0, 67, UInt8.ofNat (size >>> 8), UInt8.ofNat size]

def packDhcpFixed (buf : List UInt8) (p : ℕ) (macAddress : Vector UInt8 6) (messageType : UInt8) : List UInt8 :=
  let transactionId : UInt32 := 0x32493678
  let buf := store buf p [1, 1, 6]
  let buf := store buf (p + 4) (bytes32 transactionId)
  let buf := store buf (p + 10) [0x80, 0x00]
  let buf := store buf (p + 28) macAddress.toList
  store buf (p + 236) [0x63, 0x82, 0x53, 0x63, 53, 1, messageType]

/-- `value >> 24`, `value >> 16`, `value >> 8` and `value >> 0` of an `int` as bytes. -/
def bytesInt (value : ℤ) : List UInt8 :=
  [UInt8.ofInt (value >>> (24 : ℕ)), UInt8.ofInt (value >>> (16 : ℕ)), UInt8.ofInt (value >>> (8 : ℕ)),
    UInt8.ofInt value]

section
variable [Host]

def packDhcpRequest (buf : List UInt8) (p : ℕ) (self : Client) : List UInt8 :=
  let buf := store buf p ([54, 4] ++ bytes32 (htonl self.server))
  let buf := store buf (p + 6) ([50, 4] ++ bytes32 (htonl self.ipAddress))
  store buf (p + 12) ([51, 4] ++ bytesInt self.leaseTime ++ [255])

/-- The buffer of `broadcast_discover`. -/
def discoverPacket (self : Client) : List UInt8 :=
  let buf := List.replicate 604 0
  let buf := packIpHeader buf 604
  let buf := packUdpHeader buf 20 584
  let buf := packDhcpFixed buf 28 self.macAddress 1
  -- maximum message size 1024; subnet mask, DNS and router are asked for
  store buf 271 [57, 2, 0x04, 0x00, 55, 3, 1, 6, 3, 255]

/-- The buffer of `broadcast_request`. -/
def requestPacket (self : Client) : List UInt8 :=
  let buf := List.replicate 604 0
  let buf := packIpHeader buf 604
  let buf := packUdpHeader buf 20 584
  let buf := packDhcpFixed buf 28 self.macAddress 3
  packDhcpRequest buf 271 self

/-- The buffer of `send_request`. -/
def requestPayload (self : Client) : List UInt8 :=
  let buf := List.replicate 576 0
  let buf := packDhcpFixed buf 0 self.macAddress 3
  packDhcpRequest buf 243 self

end

/-! ## Requests -/

/-- The message type of a packet is REQUEST. -/
def isRequest (buf : List UInt8) : Bool := buf[28 + 242]? == some 3

theorem length_packIpHeader (buf : List UInt8) (size : ℕ) : (packIpHeader buf size).length = buf.length := by
  simp only [packIpHeader, length_store]

/-- The header passes the test of `is_ip_valid` in a buffer that was zeroed. -/
theorem checksum_packIpHeader {buf : List UInt8} (size : ℕ) (hlen : 20 ≤ buf.length) (h10 : buf[10]? = some 0)
    (h11 : buf[11]? = some 0) : mlInetChecksum ((packIpHeader buf size).take 20) 0 = 0 := by
  -- the buffer before the checksum is filled in
  let front := store (store (store (store (store buf 0 [0x45]) 2 [UInt8.ofNat (size >>> 8), UInt8.ofNat size]) 5 [0x11])
    8 [255, 17]) 16 [255, 255, 255, 255]
  have hfront : front.length = buf.length := by simp only [front, length_store]
  have hkeep (k : ℕ) (hk : k < 2) : front[10 + k]? = buf[10 + k]? := by
    have hlow : 16 > 10 + k := by omega
    rw [getElem?_store_of_lt _ _ hlow, getElem?_store_of_ge _ (by show 8 + 2 ≤ _; omega),
      getElem?_store_of_ge _ (by show 5 + 1 ≤ _; omega), getElem?_store_of_ge _ (by show 2 + 2 ≤ _; omega),
      getElem?_store_of_ge _ (by show 0 + 1 ≤ _; omega)]
  have hzeroed : store (front.take 20) 10 [0, 0] = front.take 20 := by
    apply store_self
    intro k hk
    have hk : k < 2 := hk
    rw [List.getElem?_take_of_lt (by omega), hkeep k hk]
    rcases Nat.le_one_iff_eq_zero_or_eq_one.mp (Nat.le_of_lt_succ hk) with rfl | rfl
    · exact h10
    · exact h11
  have hstored : (packIpHeader buf size).take 20 = storeChecksum (front.take 20) 5 0 := by
    unfold storeChecksum packIpHeader
    rw [hzeroed, take_store]
  have hlength : (front.take 20).length = 20 := by rw [List.length_take, hfront]; omega
  have hsum := wordSum_storeChecksum (i := 5) 0 (by rw [hlength]; exact ⟨10, rfl⟩) (by omega) (by omega)
  rw [hstored]
  exact (checksum_eq_zero_iff 0 (by rw [length_storeChecksum]; omega)).mpr hsum

theorem length_packUdpHeader (buf : List UInt8) (p size : ℕ) : (packUdpHeader buf p size).length = buf.length :=
  length_store _ _ _

theorem messageType_packDhcpFixed (buf : List UInt8) (p : ℕ) (macAddress : Vector UInt8 6) (messageType : UInt8)
    (h : p + 243 ≤ buf.length) : (packDhcpFixed buf p macAddress messageType)[p + 242]? = some messageType := by
  unfold packDhcpFixed
  rw [show p + 242 = p + 236 + 6 by omega, getElem?_store _ _ (by simp)]
  · rfl
  · simp only [length_store, List.length_cons, List.length_nil]
    omega

section
variable [Host]

theorem isRequest_requestPacket (self : Client) : isRequest (requestPacket self) = true := by
  have hlen : (packUdpHeader (packIpHeader (List.replicate 604 0) 604) 20 584).length = 604 := by
    rw [length_packUdpHeader, length_packIpHeader, List.length_replicate]
  unfold isRequest requestPacket packDhcpRequest
  rw [getElem?_store_of_lt _ _ (by omega), getElem?_store_of_lt _ _ (by omega), getElem?_store_of_lt _ _ (by omega),
    messageType_packDhcpFixed _ _ _ _ (by omega)]
  rfl

/-- The server and the address in a REQUEST of the client, from the BOOTP part on. -/
def requestOf (buf : List UInt8) : Option (InAddr × InAddr) :=
  if buf[242]? = some 3 then
    (unpackInAddr (buf.drop 245)).bind fun server =>
      (unpackInAddr (buf.drop 251)).map fun ipAddress => (server, ipAddress)
  else none

theorem unpackInAddr_of_getElem? {buf : List UInt8} {x : InAddr}
    (h : ∀ k, k < 4 → buf[k]? = (bytes32 (htonl x))[k]?) : unpackInAddr buf = some x := by
  have h0 : buf[0]? = some _ := h 0 (by decide)
  have h1 : buf[1]? = some _ := h 1 (by decide)
  have h2 : buf[2]? = some _ := h 2 (by decide)
  have h3 : buf[3]? = some _ := h 3 (by decide)
  match buf, h3 with
  | c0 :: c1 :: c2 :: c3 :: rest, h3 =>
    obtain rfl := Option.some_inj.mp h0
    obtain rfl := Option.some_inj.mp h1
    obtain rfl := Option.some_inj.mp h2
    obtain rfl := Option.some_inj.mp h3
    exact congrArg some (by rw [word32_bytes, ntohl_htonl])

/-- A REQUEST names the server and the address in the client. -/
theorem requestOf_pack (buf : List UInt8) (p : ℕ) (self : Client) (h : p + 262 ≤ buf.length) :
    requestOf ((packDhcpRequest (packDhcpFixed buf p self.macAddress 3) (p + 243) self).drop p) =
      some (self.server, self.ipAddress) := by
  have hfixed : (packDhcpFixed buf p self.macAddress 3).length = buf.length := by
    simp only [packDhcpFixed, length_store]
  generalize hb : packDhcpFixed buf p self.macAddress 3 = fixed at hfixed ⊢
  have htype : ((packDhcpRequest fixed (p + 243) self).drop p)[242]? = some 3 := by
    unfold packDhcpRequest
    rw [List.getElem?_drop, getElem?_store_of_lt _ _ (by omega), getElem?_store_of_lt _ _ (by omega),
      getElem?_store_of_lt _ _ (by omega), ← hb]
    exact messageType_packDhcpFixed buf p _ _ (by omega)
  -- the addresses follow the option code and the length
  have hserver : unpackInAddr (((packDhcpRequest fixed (p + 243) self).drop p).drop 245) = some self.server := by
    refine unpackInAddr_of_getElem? fun k hk => ?_
    unfold packDhcpRequest
    rw [List.drop_drop, List.getElem?_drop, getElem?_store_of_lt _ _ (by omega), getElem?_store_of_lt _ _ (by omega),
      show p + 245 + k = p + 243 + (k + 2) by omega,
      getElem?_store _ _ (show k + 2 < 6 by omega) (by rw [hfixed]; exact (by omega : p + 243 + 6 ≤ buf.length))]
    rfl
  have haddr : unpackInAddr (((packDhcpRequest fixed (p + 243) self).drop p).drop 251) = some self.ipAddress := by
    refine unpackInAddr_of_getElem? fun k hk => ?_
    unfold packDhcpRequest
    rw [List.drop_drop, List.getElem?_drop, getElem?_store_of_lt _ _ (by omega),
      show p + 251 + k = p + 243 + 6 + (k + 2) by omega,
      getElem?_store _ _ (show k + 2 < 6 by omega)
        (by rw [length_store, hfixed]; exact (by omega : p + 243 + 6 + 6 ≤ buf.length))]
    rfl
  unfold requestOf
  rw [if_pos htype, hserver, haddr]
  rfl

theorem requestOf_requestPayload (self : Client) : requestOf (requestPayload self) = some (self.server, self.ipAddress) :=
  requestOf_pack (List.replicate 576 0) 0 self (by rw [List.length_replicate]; omega)

theorem requestOf_requestPacket (self : Client) :
    requestOf ((requestPacket self).drop 28) = some (self.server, self.ipAddress) := by
  refine requestOf_pack (packUdpHeader (packIpHeader (List.replicate 604 0) 604) 20 584) 28 self ?_
  rw [length_packUdpHeader, length_packIpHeader, List.length_replicate]
  omega

end

end Monolinux
