import Monolinux.Dhcp.Acceptance

/-!
# A REQUEST says what the OFFER said

The server, the address and the lease time go through the client and back into a packet
without a change of a byte, in both byte orders of the host    (`request_carries_offer`)
-/

namespace Monolinux

/-! ## The lease time -/

/-- The conversion to `int` and back keeps the bytes. -/
theorem bytesInt_toInt (x : UInt32) : bytesInt (toInt x) = bytes32 x := by
  have hx := x.toNat_lt
  -- the shifted value is off by a multiple of 256
  have hbyte (y : UInt8) (i : ℤ) (hy : (y.toNat : ℤ) = i % 256) : UInt8.ofInt i = y := by
    apply UInt8.toNat_inj.mp
    have hlt := y.toNat_lt
    unfold UInt8.ofInt
    rw [UInt8.toNat_ofNat']
    omega
  have h24 := toNat_byte x 24 (by decide)
  have h16 := toNat_byte x 16 (by decide)
  have h8 := toNat_byte x 8 (by decide)
  have h0 : x.toUInt8.toNat = x.toNat % 256 := UInt32.toNat_toUInt8 x
  unfold bytesInt bytes32 toInt
  rw [hbyte (x >>> 24).toUInt8, hbyte (x >>> 16).toUInt8, hbyte (x >>> 8).toUInt8, hbyte x.toUInt8]
  · rw [h0]
    split <;> omega
  · rw [h8, Int.shiftRight_eq_div_pow]
    show ((x.toNat / 2 ^ 8 % 256 : ℕ) : ℤ) = _
    split <;> omega
  · rw [h16, Int.shiftRight_eq_div_pow]
    show ((x.toNat / 2 ^ 16 % 256 : ℕ) : ℤ) = _
    split <;> omega
  · rw [h24, Int.shiftRight_eq_div_pow]
    show ((x.toNat / 2 ^ 24 % 256 : ℕ) : ℤ) = _
    split <;> omega

section
variable [Host]

/-! ## The layout of a REQUEST -/

omit [Host] in
theorem drop_packDhcpFixed (buf : List UInt8) (q p : ℕ) (macAddress : Vector UInt8 6) (messageType : UInt8) :
    (packDhcpFixed buf (q + p) macAddress messageType).drop q = packDhcpFixed (buf.drop q) p macAddress messageType := by
  simp only [packDhcpFixed, Nat.add_assoc, drop_store]

theorem drop_packDhcpRequest (buf : List UInt8) (q p : ℕ) (self : Client) :
    (packDhcpRequest buf (q + p) self).drop q = packDhcpRequest (buf.drop q) p self := by
  simp only [packDhcpRequest, Nat.add_assoc, drop_store]

theorem packDhcpRequest_append (front buf : List UInt8) (p : ℕ) (self : Client) :
    packDhcpRequest (front ++ buf) (front.length + p) self = front ++ packDhcpRequest buf p self := by
  simp only [packDhcpRequest, Nat.add_assoc, store_append]

/-- The options that `pack_dhcp_request` writes. -/
def requestOpts (self : Client) : List Opt :=
  [⟨54, bytes32 (htonl self.server)⟩, ⟨50, bytes32 (htonl self.ipAddress)⟩, ⟨51, bytesInt self.leaseTime⟩]

theorem packDhcpRequest_zero {buf : List UInt8} (self : Client) (h : 19 ≤ buf.length) :
    packDhcpRequest buf 0 self = encodeOpts (requestOpts self) ++ 255 :: buf.drop 19 := by
  let server : List UInt8 := [54, 4] ++ bytes32 (htonl self.server)
  let ipAddress : List UInt8 := [50, 4] ++ bytes32 (htonl self.ipAddress)
  let leaseTime : List UInt8 := [51, 4] ++ bytesInt self.leaseTime ++ [255]
  have hserver : store buf 0 server = server ++ buf.drop 6 := store_zero (by show 6 ≤ _; omega)
  have hip : store (server ++ buf.drop 6) 6 ipAddress = server ++ store (buf.drop 6) 0 ipAddress :=
    store_append server (buf.drop 6) 0 ipAddress
  have hip' : store (buf.drop 6) 0 ipAddress = ipAddress ++ (buf.drop 6).drop 6 :=
    store_zero (by rw [List.length_drop]; show 6 ≤ _; omega)
  have hlease : store (server ++ ipAddress ++ (buf.drop 6).drop 6) 12 leaseTime =
      server ++ ipAddress ++ store ((buf.drop 6).drop 6) 0 leaseTime :=
    store_append (server ++ ipAddress) _ 0 leaseTime
  have hlease' : store ((buf.drop 6).drop 6) 0 leaseTime = leaseTime ++ ((buf.drop 6).drop 6).drop 7 :=
    store_zero (by rw [List.length_drop, List.length_drop]; show 7 ≤ _; omega)
  show store (store (store buf 0 server) 6 ipAddress) 12 leaseTime = _
  rw [hserver, hip, hip', ← List.append_assoc, hlease, hlease', List.drop_drop, List.drop_drop]
  rfl

/-- **`send_request` sends what `broadcast_request` does**, without the headers. -/
theorem drop_requestPacket (self : Client) : (requestPacket self).drop 28 = requestPayload self := by
  let headers := packUdpHeader (packIpHeader (List.replicate 604 0) 604) 20 584
  have hheaders : headers.drop 28 = List.replicate 576 0 := by
    show (packUdpHeader (packIpHeader (List.replicate 604 0) 604) 20 584).drop 28 = _
    unfold packUdpHeader packIpHeader
    rw [drop_store_of_le _ (by decide), drop_store_of_le _ (by decide), drop_store_of_le _ (by decide),
      drop_store_of_le _ (by decide), drop_store_of_le _ (by decide), drop_store_of_le _ (by decide),
      drop_store_of_le _ (by decide), List.drop_replicate]
  calc (requestPacket self).drop 28
      = packDhcpRequest ((packDhcpFixed headers 28 self.macAddress 3).drop 28) 243 self :=
        drop_packDhcpRequest (packDhcpFixed headers 28 self.macAddress 3) 28 243 self
    _ = packDhcpRequest (packDhcpFixed (headers.drop 28) 0 self.macAddress 3) 243 self :=
        congrArg (packDhcpRequest · 243 self) (drop_packDhcpFixed headers 28 0 self.macAddress 3)
    _ = requestPayload self := by
        rw [hheaders]
        rfl

/-- The message type, and the options of the REQUEST. -/
theorem drop_requestPayload (self : Client) :
    (requestPayload self).drop 240 =
      encodeOpts (⟨53, [3]⟩ :: requestOpts self) ++ 255 :: List.replicate 314 0 := by
  let cookie : List UInt8 := [0x63, 0x82, 0x53, 0x63, 53, 1, 3]
  let fixed := packDhcpFixed (List.replicate 576 0) 0 self.macAddress 3
  let base := store (store (store (store (List.replicate 576 0) 0 [1, 1, 6]) 4 (bytes32 0x32493678)) 10 [0x80, 0x00]) 28
    self.macAddress.toList
  have hmac : self.macAddress.toList.length = 6 := Vector.length_toList
  have hbase : base.drop 243 = List.replicate 333 0 := by
    show (store _ 28 _).drop 243 = _
    rw [drop_store_of_le _ (by rw [hmac]; decide), drop_store_of_le _ (by decide), drop_store_of_le _ (by decide),
      drop_store_of_le _ (by decide), List.drop_replicate]
  have hlen : base.length = 576 := by
    show (store _ 28 _).length = _
    rw [length_store, length_store, length_store, length_store, List.length_replicate]
  have hfixed : fixed.drop 236 = cookie ++ List.replicate 333 0 := by
    calc fixed.drop 236 = store (base.drop 236) 0 cookie := drop_store base 236 0 cookie
      _ = cookie ++ (base.drop 236).drop 7 := store_zero (by rw [List.length_drop, hlen]; decide)
      _ = cookie ++ List.replicate 333 0 := by rw [List.drop_drop, hbase]
  have hpayload : (requestPayload self).drop 236 = cookie ++ packDhcpRequest (List.replicate 333 0) 0 self := by
    calc (requestPayload self).drop 236 = packDhcpRequest (fixed.drop 236) 7 self := drop_packDhcpRequest fixed 236 7 self
      _ = packDhcpRequest (cookie ++ List.replicate 333 0) 7 self := by rw [hfixed]
      _ = cookie ++ packDhcpRequest (List.replicate 333 0) 0 self := packDhcpRequest_append cookie _ 0 self
  have hdrop : (requestPayload self).drop 240 = ((requestPayload self).drop 236).drop 4 := by rw [List.drop_drop]
  rw [hdrop, hpayload, packDhcpRequest_zero self (by rw [List.length_replicate]; decide), List.drop_replicate]
  rfl

theorem requestPayload_macAddress (self : Client) : ((requestPayload self).drop 28).take 6 = self.macAddress.toList := by
  have hmac : self.macAddress.toList.length = 6 := Vector.length_toList
  apply List.ext_getElem?
  intro i
  by_cases hi : i < 6
  · rw [List.getElem?_take_of_lt hi, List.getElem?_drop]
    unfold requestPayload packDhcpRequest packDhcpFixed
    rw [getElem?_store_of_lt _ _ (by omega), getElem?_store_of_lt _ _ (by omega), getElem?_store_of_lt _ _ (by omega),
      getElem?_store_of_lt _ _ (by omega), Nat.zero_add, getElem?_store _ _ (by omega)]
    simp only [length_store, List.length_replicate]
    omega
  · rw [List.getElem?_eq_none (by rw [List.length_take]; omega), List.getElem?_eq_none (by omega)]

/-- The client's own decoder reads the options of a REQUEST. -/
theorem unpackAllOptions_requestPayload {self : Client} {leaseTime : UInt32} (h : self.leaseTime = toInt leaseTime) :
    unpackAllOptions ((requestPayload self).drop 240) = some (some
      { messageType := some 3, serverIpAddress := some self.server, leaseTime := some leaseTime }) := by
  rw [drop_requestPayload]
  refine (unpackAllOptions_eq_some_iff _ _).mpr ⟨_, _, rfl, ?_, ?_⟩
  · intro o ho
    rcases List.mem_cons.mp ho with rfl | ho
    · exact ⟨nofun, by decide, nofun, rfl⟩
    rcases List.mem_cons.mp ho with rfl | ho
    · exact ⟨nofun, (by decide : 4 ≤ 255), nofun, rfl⟩
    rcases List.mem_cons.mp ho with rfl | ho
    · exact ⟨nofun, (by decide : 4 ≤ 255), nofun, trivial⟩
    rcases List.mem_cons.mp ho with rfl | ho
    · exact ⟨nofun, (by decide : 4 ≤ 255), nofun, rfl⟩
    · cases ho
  · have hserver : addressOf (bytes32 (htonl self.server)) = self.server := by
      refine Option.some_inj.mp ((unpackOptionInAddr_eq rfl).symm.trans ?_)
      exact congrArg some (by rw [word32_bytes, ntohl_htonl])
    have hlease : timeOf (bytesInt self.leaseTime) = leaseTime := by
      rw [h, bytesInt_toInt]
      refine Option.some_inj.mp ((unpackOptionU32_eq rfl).symm.trans ?_)
      exact congrArg some (word32_bytes leaseTime)
    simp [decodedOpts, lastOf, requestOpts, hserver, hlease]

/-! ## From the OFFER to the REQUEST -/

theorem bytes_of_unpackInAddr {buf : List UInt8} {value : InAddr} (h : unpackInAddr buf = some value) :
    bytes32 (htonl value) = buf.take 4 := by
  unfold unpackInAddr at h
  split at h
  · obtain rfl := Option.some_inj.mp h
    rw [htonl_ntohl, bytes32_word32]
    rfl
  · cases h

theorem bytes_of_unpackOptionInAddr {data : List UInt8} {value : InAddr} (h : unpackOptionInAddr data = some value) :
    bytes32 (htonl value) = data := by
  unfold unpackOptionInAddr at h
  split at h
  · obtain rfl := Option.some_inj.mp h
    rw [htonl_ntohl, bytes32_word32]
  · cases h

omit [Host] in
theorem bytes_of_unpackOptionU32 {data : List UInt8} {value : UInt32} (h : unpackOptionU32 data = some value) :
    bytes32 value = data := by
  unfold unpackOptionU32 at h
  split at h
  · obtain rfl := Option.some_inj.mp h
    rw [bytes32_word32]
  · cases h

/-- **A REQUEST says what the OFFER said**: `opts` are the options of the OFFER.  The REQUEST has their last server
identifier and lease time, the address in the OFFER and the MAC address, and decodes to these; and
`send_request` sends what `broadcast_request` does. -/
theorem request_carries_offer :
    (∀ (self : Client) (buf : List UInt8) (o : Offer), Accepts self buf (.offer o) →
      unpackPacket self buf = some (self.withOffer o) ∧
      (∃ opts trailing server leaseTime,
        (if self.isPacketSocket then buf.drop 28 else buf).drop 240 = encodeOpts opts ++ 255 :: trailing ∧
        (∀ o ∈ opts, o.Accepted) ∧ lastOf 54 opts = some server ∧ lastOf 51 opts = some leaseTime ∧
        ((requestPacket (self.withOffer o)).drop 268).take 22 = [53, 1, 3] ++ ([54, 4] ++ server) ++
          ([50, 4] ++ ((if self.isPacketSocket then buf.drop 28 else buf).drop 16).take 4) ++ ([51, 4] ++ leaseTime) ++
          [255]) ∧
      ((requestPacket (self.withOffer o)).drop 56).take 6 = self.macAddress.toList ∧
      unpackAllOptions ((requestPacket (self.withOffer o)).drop 268) = some (some
        { messageType := some 3, serverIpAddress := some o.server, leaseTime := some o.leaseTime })) ∧
    ∀ self : Client, requestPayload self = (requestPacket self).drop 28 ∧ (requestPayload self).length = 576 ∧
      (requestPacket self).length = 604 := by
  constructor
  · intro self buf o h
    have htake := unpackPacket_accepted h
    obtain ⟨bootp, options, hv, -, hserver, hlease, -, -, -, -, hip⟩ := h
    obtain ⟨opts, trailing, harea, haccepted, rfl⟩ := (unpackAllOptions_eq_some_iff _ _).mp hv.options
    obtain ⟨server, hls, haddress⟩ := Option.map_eq_some_iff.mp hserver
    obtain ⟨leaseTime, hll, htime⟩ := Option.map_eq_some_iff.mp hlease
    have hus : unpackOptionInAddr server = some o.server := by
      rw [unpackOptionInAddr_eq (haccepted _ (mem_of_lastOf hls)).lengthOk, haddress]
    have hul : unpackOptionU32 leaseTime = some o.leaseTime := by
      rw [unpackOptionU32_eq (haccepted _ (mem_of_lastOf hll)).lengthOk, htime]
    have hpart := hv.part
    have hdrop (k : ℕ) : (requestPacket (self.withOffer o)).drop (28 + k) = (requestPayload (self.withOffer o)).drop k := by
      rw [← List.drop_drop, drop_requestPacket]
    refine ⟨htake, ⟨opts, trailing, server, leaseTime, by rw [← hpart]; exact harea, haccepted, hls, hll, ?_⟩, ?_, ?_⟩
    · have hs : bytes32 (htonl (self.withOffer o).server) = server := bytes_of_unpackOptionInAddr hus
      have hi : bytes32 (htonl (self.withOffer o).ipAddress) = (bootp.drop 16).take 4 := bytes_of_unpackInAddr hip
      have hl : bytesInt (self.withOffer o).leaseTime = leaseTime :=
        (bytesInt_toInt o.leaseTime).trans (bytes_of_unpackOptionU32 hul)
      rw [← hpart, hdrop 240, drop_requestPayload, ← hs, ← hi, ← hl]
      rfl
    · rw [hdrop 28]
      exact requestPayload_macAddress (self.withOffer o)
    · rw [hdrop 240]
      exact unpackAllOptions_requestPayload rfl
  · intro self
    refine ⟨(drop_requestPacket self).symm, ?_, ?_⟩
    · simp only [requestPayload, packDhcpRequest, packDhcpFixed, length_store, List.length_replicate]
    · simp only [requestPacket, packDhcpRequest, packDhcpFixed, length_store, length_packUdpHeader, length_packIpHeader,
        List.length_replicate]

end

section

local instance echoHost : Host := littleEndian

theorem request_carries_offer_one :
    unpackAllOptions ((requestPacket (packetClient.withOffer
      ⟨0x0300a8c0, 0x0100a8c0, 0x00ffffff, 0x0100a8c0, 0x0100a8c0, 0xfffffffe⟩)).drop 268) = some (some
        { messageType := some 3, serverIpAddress := some 0x0100a8c0, leaseTime := some 0xfffffffe }) := by
  have h : Accepts packetClient (replyHeaders ++ offerReply 1 3 0xfffffffe)
      (.offer ⟨0x0300a8c0, 0x0100a8c0, 0x00ffffff, 0x0100a8c0, 0x0100a8c0, 0xfffffffe⟩) :=
    (decode_eq_some_iff packetClient _ _).mp (by decide +kernel)
  exact (request_carries_offer.1 packetClient _ _ h).2.2.2

end

end Monolinux
