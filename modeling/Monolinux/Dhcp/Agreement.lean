import Monolinux.Dhcp.Lease

/-!
# Several servers

`network name mem`: a client, and any number of servers.  The network keeps what the
servers have sent, and delivers it late, in any order, many times or not at all.

The client compares neither the transaction id nor the server nor the address of a reply
with its REQUEST, so an ACK to an earlier REQUEST completes a later one, and a NAK aborts
it.  `AnswersLast` is the condition under which this makes no difference:

  then the server of a BOUND lease has acknowledged it   (`lease_agreement`)
-/

namespace Monolinux

/-! ## States -/

/-- The client waits for the answer to a REQUEST. -/
def ClientState.Waits (state : ClientState) : Prop := state = .requesting ∨ state = .renewing

def ClientState.HasLease (state : ClientState) : Prop := state = .bound ∨ state = .renewing

theorem ClientState.Waits.ne_selecting {state : ClientState} (h : state.Waits) : state ≠ .selecting := by
  rintro rfl
  rcases h with h | h <;> cases h

theorem ClientState.HasLease.ne_selecting {state : ClientState} (h : state.HasLease) : state ≠ .selecting := by
  rintro rfl
  rcases h with h | h <;> cases h

instance : DecidablePred ClientState.Waits := fun _ => inferInstanceAs (Decidable (_ ∨ _))

instance : DecidablePred ClientState.HasLease := fun _ => inferInstanceAs (Decidable (_ ∨ _))

section
variable [Host]

/-! ## The REQUESTs of a client -/

structure Asked where
  /-- passed to `sendto` by the last call -/
  pending : Option (InAddr × InAddr)
  /-- the server and the address in every REQUEST that was sent -/
  requests : List (InAddr × InAddr)

/-- The response timer is set after a packet has been sent. -/
def Asked.call (a : Asked) : Call → Asked
  | .broadcast _ buf => { a with pending := requestOf (buf.drop 28) }
  | .send _ _ buf => { a with pending := requestOf buf }
  | .settime .resp 5 0 => ⟨none, a.requests ++ a.pending.toList⟩
  | _ => { a with pending := none }

def asked (calls : List Call) : Asked := calls.foldl Asked.call ⟨none, []⟩

def requests (calls : List Call) : List (InAddr × InAddr) := (asked calls).requests

/-! ## The network -/

/-- A message of a server about an address. -/
structure Reply where
  server : InAddr
  ipAddress : InAddr
  message : Message
  bootp : List UInt8
deriving DecidableEq

/-- A server offers an address under its own name, and acknowledges or refuses a REQUEST to it. -/
def Reply.Answers (r : Reply) (calls : List Call) : Prop :=
  match r.message with
  | .offer o => o.server = r.server ∧ o.ipAddress = r.ipAddress
  | .ack => (r.server, r.ipAddress) ∈ requests calls ∧ unpackInAddr (r.bootp.drop 16) = some r.ipAddress
  | .nak => (r.server, r.ipAddress) ∈ requests calls

structure NetState where
  client : DhcpState
  /-- by the servers -/
  sent : List Reply

inductive NetLabel
  /-- a server sends the reply -/
  | reply (r : Reply)
  /-- the client reads the reply -/
  | deliver (r : Reply) (i : Input)
  /-- any other step of the client -/
  | client (l : DhcpLabel)

/-- The client reads no DHCP message. -/
def Silent (s : DhcpState) : DhcpLabel → Prop
  | .iterate i => s.world.received i = none
  | _ => True

def network (name : String) (mem : Client) : System NetState NetLabel where
  start := ⟨(dhcp name mem).start, []⟩
  enabled
    | s, .reply r => s.client.phase ≠ .initialised ∧
        decodeBootp s.client.world.self.macAddress r.bootp = some r.message ∧ r.Answers s.client.world.kernel.calls
    | s, .deliver r i => (dhcp name mem).enabled s.client (.iterate i) ∧ r ∈ s.sent ∧
        (World.packet i).bind (payload s.client.world.self.isPacketSocket) = some r.bootp
    | s, .client l => (dhcp name mem).enabled s.client l ∧ Silent s.client l
  next
    | s, .reply r => { s with sent := s.sent ++ [r] }
    | s, .deliver _ i => { s with client := (dhcp name mem).next s.client (.iterate i) }
    | s, .client l => { s with client := (dhcp name mem).next s.client l }

namespace NetState

def self (s : NetState) : Client := s.client.world.self

/-- Some server has offered the lease of the client, under its own name. -/
def Offered (s : NetState) : Prop :=
  ∃ r ∈ s.sent, ∃ o, r.message = .offer o ∧ o.lease = s.self.lease ∧ r.server = s.self.server ∧
    r.ipAddress = s.self.ipAddress

/-- Some server has acknowledged some REQUEST of the client. -/
def Acknowledged (s : NetState) : Prop :=
  ∃ r ∈ s.sent, r.message = .ack ∧ (r.server, r.ipAddress) ∈ requests s.client.world.kernel.calls

/-- The server of the lease has acknowledged a REQUEST for the address of the lease. -/
def Agreed (s : NetState) : Prop :=
  ∃ r ∈ s.sent, r.message = .ack ∧ r.server = s.self.server ∧ r.ipAddress = s.self.ipAddress ∧
    (r.server, r.ipAddress) ∈ requests s.client.world.kernel.calls

end NetState

/-- An ACK that is taken answers the last REQUEST, and an OFFER outside SELECTING repeats the lease. -/
def AnswersLast (s : NetState) : NetLabel → Prop
  | .deliver r i =>
    (s.self.state.Waits → r.message = .ack →
      (requests s.client.world.kernel.calls).getLast? = some (r.server, r.ipAddress)) ∧
    RepeatsLease s.client (.iterate i)
  | _ => True

/-! ## Decisions -/

instance (r : Reply) (calls : List Call) : Decidable (r.Answers calls) := by
  unfold Reply.Answers
  exact match r.message with
  | .offer _ => inferInstanceAs (Decidable (_ ∧ _))
  | .ack => inferInstanceAs (Decidable (_ ∧ _))
  | .nak => inferInstanceAs (Decidable (_ ∈ _))

instance (s : DhcpState) (l : DhcpLabel) : Decidable (Silent s l) :=
  match l with
  | .iterate i => inferInstanceAs (Decidable (s.world.received i = none))
  | .start _ => isTrue trivial
  | .expire _ => isTrue trivial
  | .pollFailure => isTrue trivial
  | .stop => isTrue trivial

instance (name : String) (mem : Client) (s : NetState) (l : NetLabel) : Decidable ((network name mem).enabled s l) :=
  match l with
  | .reply _ => inferInstanceAs (Decidable (_ ∧ _ = _ ∧ _))
  | .deliver _ i => inferInstanceAs (Decidable ((dhcp name mem).enabled s.client (.iterate i) ∧ _ ∈ _ ∧ _ = _))
  | .client l => inferInstanceAs (Decidable ((dhcp name mem).enabled s.client l ∧ _))

instance (s : NetState) (l : NetLabel) : Decidable (AnswersLast s l) :=
  match l with
  | .reply _ => isTrue trivial
  | .deliver r i => inferInstanceAs (Decidable ((s.self.state.Waits → r.message = .ack → _ = _) ∧ RepeatsLease s.client (.iterate i)))
  | .client _ => isTrue trivial

/-! ## What was asked -/

theorem Asked.call_mono (a : Asked) (c : Call) : a.requests <+: (a.call c).requests := by
  unfold Asked.call
  split
  · exact List.prefix_rfl
  · exact List.prefix_rfl
  · exact List.prefix_append _ _
  · exact List.prefix_rfl

theorem requests_mono {calls calls' : List Call} (h : calls <+: calls') : requests calls <+: requests calls' := by
  obtain ⟨more, rfl⟩ := h
  unfold requests asked
  rw [List.foldl_append]
  generalize calls.foldl Asked.call ⟨none, []⟩ = a
  induction more generalizing a with
  | nil => exact List.prefix_rfl
  | cons c more ih => exact (a.call_mono c).trans (ih (a.call c))

theorem requests_read (calls : List Call) (p : Option (List UInt8)) (isPacketSocket : Bool) :
    requests (calls ++ (p.map (.read isPacketSocket)).toList) = requests calls := by
  unfold requests asked
  rw [List.foldl_append]
  cases p <;> rfl

theorem requests_broadcast (calls : List Call) (index : ℤ) (buf : List UInt8) :
    requests (calls ++ [.broadcast index buf] ++ [.settime .resp 5 0]) =
      requests calls ++ (requestOf (buf.drop 28)).toList := by
  unfold requests asked
  rw [List.foldl_append, List.foldl_append]
  rfl

theorem requests_send (calls : List Call) (addr : InAddr) (port : ℕ) (buf : List UInt8) :
    requests (calls ++ [.send addr port buf] ++ [.settime .resp 5 0]) = requests calls ++ (requestOf buf).toList := by
  unfold requests asked
  rw [List.foldl_append, List.foldl_append]
  rfl

theorem Reply.Answers.mono {r : Reply} {calls calls' : List Call} (h : r.Answers calls) (hc : calls <+: calls') :
    r.Answers calls' := by
  have hsub := (requests_mono hc).subset
  unfold Reply.Answers at h ⊢
  split at h
  · exact h
  · exact ⟨hsub h.1, h.2⟩
  · exact hsub h

/-- The last REQUEST is for the lease. -/
def World.AsksLease (w : World) : Prop :=
  (requests w.kernel.calls).getLast? = some (w.self.server, w.self.ipAddress)

theorem request_asks (w : World) : (w.broadcastRequest true).2.enterRequesting.AsksLease := by
  show (requests (w.kernel.calls ++ [_] ++ [_])).getLast? = _
  rw [requests_broadcast, requestOf_requestPacket]
  exact List.getLast?_concat

theorem renew_asks (w : World) : (w.sendRequest true).2.enterRenewing.AsksLease := by
  show (requests (w.kernel.calls ++ [_] ++ [_])).getLast? = _
  rw [requests_send, requestOf_requestPayload]
  exact List.getLast?_concat

/-! ## Any reply will do -/

structure NetInv (s : NetState) : Prop where
  initialised : s.client.phase = .initialised → s.sent = [] ∧ s.self.state = .init
  decodes : ∀ r ∈ s.sent, decodeBootp s.self.macAddress r.bootp = some r.message
  answers : ∀ r ∈ s.sent, r.Answers s.client.world.kernel.calls
  offered : s.self.state.Waits ∨ s.self.state.HasLease → s.Offered
  acknowledged : s.self.state.HasLease → s.Acknowledged

section
variable {s s' : NetState} {i : Input} {name : String} {mem : Client}

omit [Host] in
theorem offered_of_lease (h : s.Offered) (hsent : s.sent ⊆ s'.sent) (hl : s'.self.lease = s.self.lease) : s'.Offered := by
  obtain ⟨r, hr, o, ho, hol, hserver, hip⟩ := h
  refine ⟨r, hsent hr, o, ho, hol.trans hl.symm, ?_, ?_⟩
  · exact hserver.trans (congrArg Lease.server hl).symm
  · exact hip.trans (congrArg Lease.ipAddress hl).symm

theorem acknowledged_mono (h : s.Acknowledged) (hsent : s.sent ⊆ s'.sent)
    (hc : s.client.world.kernel.calls <+: s'.client.world.kernel.calls) : s'.Acknowledged := by
  obtain ⟨r, hr, hack, hreq⟩ := h
  exact ⟨r, hsent hr, hack, (requests_mono hc).subset hreq⟩

theorem agreed_of_lease (h : s.Agreed) (hsent : s.sent ⊆ s'.sent) (hl : s'.self.lease = s.self.lease)
    (hc : s.client.world.kernel.calls <+: s'.client.world.kernel.calls) : s'.Agreed := by
  obtain ⟨r, hr, hack, hserver, hip, hreq⟩ := h
  refine ⟨r, hsent hr, hack, ?_, ?_, (requests_mono hc).subset hreq⟩
  · exact hserver.trans (congrArg Lease.server hl).symm
  · exact hip.trans (congrArg Lease.ipAddress hl).symm

/-- The client after the iteration. -/
def NetState.iterate (s : NetState) (i : Input) : NetState :=
  { s with client := { s.client with world := s.client.world.iterate i } }

/-- The message that the iteration takes has been sent. -/
def NetState.Delivers (s : NetState) (i : Input) : Prop :=
  ∀ m, s.client.world.received i = some m → ∃ r ∈ s.sent, r.message = m

omit [Host] in
theorem iterate_macAddress [Host] (w : World) (i : Input) : (w.iterate i).self.macAddress = w.self.macAddress :=
  (w.iterate_move i).sameData.macAddress.trans updateEvents_macAddress

/-- A client that has a lease had it before, or takes an ACK. -/
theorem hasLease_of_iterate {w : World} (hl : (w.iterate i).self.state.HasLease) :
    w.self.state.HasLease ∨ w.self.state.Waits ∧ w.received i = some .ack := by
  have hm := w.iterate_move i
  have hstate := updateEvents_state (w := w) (i := i)
  generalize w.iterate i = w' at hm hl
  cases hm with
  | stay =>
    rw [hstate] at hl
    exact Or.inl hl
  | bind hs hp =>
    rw [hstate] at hs
    rw [updateEvents_packetType] at hp
    exact Or.inr ⟨hs, Message.packetType_ack hp⟩
  | renew hs =>
    rw [hstate] at hs
    exact Or.inl (Or.inl hs)
  | discoverFails hi =>
    change (w.updateEvents i).self.state.HasLease at hl
    rw [hi] at hl
    rcases hl with hl | hl <;> cases hl
  | discover | request | requestFails | giveUp | renewFails => rcases hl with hl | hl <;> cases hl

/-- The lease was offered before, or the OFFER comes now. -/
theorem NetInv.offered_iterate (h : NetInv s) (hd : s.Delivers i)
    (ho : s.Offered ∨ ∃ o, s.client.world.received i = some (.offer o)) : (s.iterate i).Offered := by
  have hlease : (s.iterate i).self.lease = Message.lease s.self.lease (s.client.world.received i) :=
    s.client.world.iterate_lease i
  cases hm : s.client.world.received i with
  | none =>
    rw [hm] at hlease ho
    exact offered_of_lease (ho.resolve_right nofun) (List.Subset.refl _) hlease
  | some m =>
    rw [hm] at hlease ho
    cases m with
    | offer o =>
      obtain ⟨r, hr, hmsg⟩ := hd _ hm
      have hans := h.answers r hr
      unfold Reply.Answers at hans
      rw [hmsg] at hans
      refine ⟨r, hr, o, hmsg, hlease.symm, ?_, ?_⟩
      · exact hans.1.symm.trans (congrArg Lease.server hlease).symm
      · exact hans.2.symm.trans (congrArg Lease.ipAddress hlease).symm
    | ack => exact offered_of_lease (ho.resolve_right nofun) (List.Subset.refl _) hlease
    | nak => exact offered_of_lease (ho.resolve_right nofun) (List.Subset.refl _) hlease

theorem NetInv.acknowledged_of_ack (h : NetInv s) (hd : s.Delivers i) (hm : s.client.world.received i = some .ack) :
    s.Acknowledged := by
  obtain ⟨r, hr, hmsg⟩ := hd _ hm
  have hans := h.answers r hr
  unfold Reply.Answers at hans
  rw [hmsg] at hans
  exact ⟨r, hr, hmsg, hans.1⟩

/-- **One iteration** of the client in the network. -/
theorem netInv_iterate (h : NetInv s) (hp : s.client.phase = .running) (hd : s.Delivers i) : NetInv (s.iterate i) where
  initialised hi := absurd (hp.symm.trans hi) nofun
  decodes r hr := by
    show decodeBootp (s.client.world.iterate i).self.macAddress r.bootp = _
    rw [iterate_macAddress]
    exact h.decodes r hr
  answers r hr := (h.answers r hr).mono (s.client.world.iterate_calls i)
  offered hl := by
    apply h.offered_iterate hd
    have hm := s.client.world.iterate_move i
    have hstate := updateEvents_state (w := s.client.world) (i := i)
    change (s.client.world.iterate i).self.state.Waits ∨ (s.client.world.iterate i).self.state.HasLease at hl
    generalize s.client.world.iterate i = w' at hm hl
    cases hm with
    | stay =>
      rw [hstate] at hl
      exact Or.inl (h.offered hl)
    | request _ ho =>
      rw [updateEvents_packetType] at ho
      exact Or.inr (Message.packetType_offer ho)
    | bind hs =>
      rw [hstate] at hs
      exact Or.inl (h.offered (Or.inl hs))
    | renew hs =>
      rw [hstate] at hs
      exact Or.inl (h.offered (Or.inr (Or.inl hs)))
    | discoverFails hi =>
      change (s.client.world.updateEvents i).self.state.Waits ∨ (s.client.world.updateEvents i).self.state.HasLease at hl
      rw [hi] at hl
      rcases hl with (hl | hl) | (hl | hl) <;> cases hl
    | discover | requestFails | giveUp | renewFails => rcases hl with (hl | hl) | (hl | hl) <;> cases hl
  acknowledged hl := by
    have hack : s.Acknowledged := by
      rcases hasLease_of_iterate hl with hl | ⟨-, hm⟩
      · exact h.acknowledged hl
      · exact h.acknowledged_of_ack hd hm
    exact acknowledged_mono hack (List.Subset.refl _) (s.client.world.iterate_calls i)

/-- A step that leaves the client and its calls as they are; the servers may send. -/
theorem netInv_frame (h : NetInv s) (hself : s'.self = s.self)
    (hcalls : s'.client.world.kernel.calls = s.client.world.kernel.calls) (hphase : s'.client.phase ≠ .initialised)
    (hsent : s.sent ⊆ s'.sent)
    (hnew : ∀ r ∈ s'.sent, decodeBootp s.self.macAddress r.bootp = some r.message ∧
      r.Answers s.client.world.kernel.calls) : NetInv s' where
  initialised hi := absurd hi hphase
  decodes r hr := by rw [hself]; exact (hnew r hr).1
  answers r hr := by rw [hcalls]; exact (hnew r hr).2
  offered hl := by
    rw [hself] at hl
    exact offered_of_lease (h.offered hl) hsent (congrArg Client.lease hself)
  acknowledged hl := by
    rw [hself] at hl
    exact acknowledged_mono (h.acknowledged hl) hsent (by rw [hcalls])

/-- What is read is what the server sent. -/
theorem received_of_payload {w : World} {bootp : List UInt8}
    (h : (World.packet i).bind (payload w.self.isPacketSocket) = some bootp) :
    w.received i = decodeBootp w.self.macAddress bootp := by
  have : w.received i = ((World.packet i).bind (payload w.self.isPacketSocket)).bind (decodeBootp w.self.macAddress) :=
    (Option.bind_assoc _ _ _).symm
  rw [this, h]
  rfl

theorem NetInv.received (h : NetInv s) {r : Reply} (he : (network name mem).enabled s (.deliver r i)) :
    s.client.world.received i = some r.message :=
  (received_of_payload he.2.2).trans (h.decodes r he.2.1)

theorem NetInv.delivers (h : NetInv s) {r : Reply} (he : (network name mem).enabled s (.deliver r i)) :
    s.Delivers i := by
  intro m hm
  rw [h.received he] at hm
  exact ⟨r, he.2.1, Option.some_inj.mp hm⟩

omit [Host] in
theorem Silent.delivers [Host] (h : Silent s.client (.iterate i)) : s.Delivers i := by
  intro m hm
  rw [show s.client.world.received i = none from h] at hm
  cases hm

theorem netInv_next (h : NetInv s) {l : NetLabel} (he : (network name mem).enabled s l) :
    NetInv ((network name mem).next s l) := by
  cases l with
  | reply r =>
    refine netInv_frame h rfl rfl he.1 (List.subset_append_left _ _) fun r' hr' => ?_
    rcases List.mem_append.mp hr' with hr' | hr'
    · exact ⟨h.decodes r' hr', h.answers r' hr'⟩
    · obtain rfl := List.mem_singleton.mp hr'
      exact he.2
  | deliver r i => exact netInv_iterate h he.1 (h.delivers he)
  | client l =>
    have hold : ∀ r ∈ s.sent, decodeBootp s.self.macAddress r.bootp = some r.message ∧
        r.Answers s.client.world.kernel.calls := fun r hr => ⟨h.decodes r hr, h.answers r hr⟩
    have hrun (hp : s.client.phase = .running ∨ s.client.phase = .ended) : s.client.phase ≠ .initialised := by
      rcases hp with hp | hp <;> rw [hp] <;> nofun
    cases l with
    | start i =>
      obtain ⟨hsent, hinit⟩ := h.initialised he.1
      have hstate : ((network name mem).next s (.client (.start i))).self.state = .init :=
        (s.client.world.mlDhcpClientStart_state i).trans hinit
      have hnone : ∀ r ∈ ((network name mem).next s (.client (.start i))).sent, False := by
        intro r hr
        change r ∈ s.sent at hr
        rw [hsent] at hr
        cases hr
      have hphase : ((dhcp name mem).next s.client (.start i)).phase ≠ .initialised :=
        next_start_phase s.client i nofun nofun
      refine ⟨fun hp => absurd hp hphase, fun r hr => (hnone r hr).elim, fun r hr => (hnone r hr).elim,
        fun hl => ?_, fun hl => ?_⟩
      · rw [hstate] at hl
        rcases hl with (hl | hl) | (hl | hl) <;> cases hl
      · rw [hstate] at hl
        rcases hl with hl | hl <;> cases hl
    | expire t => exact netInv_frame h rfl rfl (hrun he.1.1) (List.Subset.refl _) hold
    | iterate i => exact netInv_iterate h he.1 he.2.delivers
    | pollFailure => exact netInv_frame h rfl rfl nofun (List.Subset.refl _) hold
    | stop =>
      exact netInv_frame h s.client.world.destroy_self s.client.world.destroy_calls nofun (List.Subset.refl _) hold

theorem netInv_run {tr : List NetLabel} (h : (network name mem).Run tr s) : NetInv s := by
  refine h.invariant NetInv ⟨fun _ => ⟨rfl, rfl⟩, fun r hr => ?_, fun r hr => ?_, ?_, ?_⟩
    fun s l hi he => netInv_next hi he
  · exact absurd hr List.not_mem_nil
  · exact absurd hr List.not_mem_nil
  · rintro ((hl | hl) | (hl | hl)) <;> cases hl
  · rintro (hl | hl) <;> cases hl

/-- An ACK or NAK that is read while the client waits ends the exchange, whichever server sent it. -/
theorem NetInv.completes (h : NetInv s) {r : Reply} (he : (network name mem).enabled s (.deliver r i))
    (hw : s.self.state.Waits) :
    (r.message = .ack → i.udpSocket.udpOk = true →
      ((network name mem).next s (.deliver r i)).self.state = .bound) ∧
    (r.message = .nak → ((network name mem).next s (.deliver r i)).self.state = .init) := by
  have hr := h.received he
  have hs : (s.client.world.updateEvents i).self.state.Waits := by rw [updateEvents_state]; exact hw
  have hnext : ((network name mem).next s (.deliver r i)).self = (s.client.world.iterate i).self := rfl
  have hp : (s.client.world.updateEvents i).self.packetType = Message.packetType (some r.message) := by
    rw [updateEvents_packetType, hr]
  constructor
  · intro hm hu
    rw [hm] at hp
    rw [hnext, World.iterate, processEvents_ack hs hp, World.enterBound_state, if_pos hu]
  · intro hm
    rw [hm] at hp
    rw [hnext, World.iterate, processEvents_nak hs hp, World.enterInit_state]

/-! ## Replies to the last REQUEST -/

structure AgreedInv (s : NetState) : Prop where
  last : s.self.state.Waits → s.client.world.AsksLease
  agreed : s.self.state.HasLease → s.Agreed

/-- The iteration takes an ACK only if it answers the last REQUEST. -/
def NetState.TakesLast (s : NetState) (i : Input) : Prop :=
  s.self.state.Waits → s.client.world.received i = some .ack → ∃ r ∈ s.sent, r.message = .ack ∧
    (requests s.client.world.kernel.calls).getLast? = some (r.server, r.ipAddress)

theorem AgreedInv.agreed_of_ack (h : AgreedInv s) (hw : s.self.state.Waits) (ht : s.TakesLast i)
    (hm : s.client.world.received i = some .ack) : s.Agreed := by
  obtain ⟨r, hr, hack, hlast⟩ := ht hw hm
  have hlease := (h.last hw).symm.trans hlast
  obtain ⟨hserver, hip⟩ := Prod.mk.inj (Option.some_inj.mp hlease)
  exact ⟨r, hr, hack, hserver.symm, hip.symm, List.mem_of_getLast? hlast⟩

/-- **One iteration** that takes replies to the last REQUEST. -/
theorem agreedInv_iterate (h : AgreedInv s) (hc : RepeatsLease s.client (.iterate i)) (ht : s.TakesLast i) :
    AgreedInv (s.iterate i) where
  last hw := by
    change (s.client.world.iterate i).self.state.Waits at hw
    show (s.client.world.iterate i).AsksLease
    have hm := s.client.world.iterate_move i
    have hlease := fun hs => (repeatsLease_iff (i := i) (s := s.client) hs).mp hc
    have hstate := updateEvents_state (w := s.client.world) (i := i)
    generalize s.client.world.iterate i = w' at hm hlease hw ⊢
    cases hm with
    | stay =>
      rw [hstate] at hw
      have hl := hlease hw.ne_selecting
      have hasks := h.last hw
      unfold World.AsksLease at hasks ⊢
      rw [updateEvents_kernel, requests_read, hasks]
      exact congrArg (fun l : Lease => some (l.server, l.ipAddress)) hl.symm
    | request => exact request_asks _
    | renew => exact renew_asks _
    | bind =>
      rw [World.enterBound_state] at hw
      split at hw <;> rcases hw with hw | hw <;> cases hw
    | discoverFails hi =>
      change (s.client.world.updateEvents i).self.state.Waits at hw
      rw [hi] at hw
      rcases hw with hw | hw <;> cases hw
    | discover | requestFails | giveUp | renewFails => rcases hw with hw | hw <;> cases hw
  agreed hl := by
    have hagreed : s.Agreed ∧ s.self.state ≠ .selecting := by
      rcases hasLease_of_iterate hl with hl | ⟨hw, hm⟩
      · exact ⟨h.agreed hl, hl.ne_selecting⟩
      · exact ⟨h.agreed_of_ack hw ht hm, hw.ne_selecting⟩
    exact agreed_of_lease hagreed.1 (List.Subset.refl _) ((repeatsLease_iff hagreed.2).mp hc)
      (s.client.world.iterate_calls i)

theorem agreedInv_frame (h : AgreedInv s) (hself : s'.self = s.self)
    (hcalls : s'.client.world.kernel.calls = s.client.world.kernel.calls) (hsent : s.sent ⊆ s'.sent) :
    AgreedInv s' where
  last hw := by
    rw [hself] at hw
    have hasks := h.last hw
    unfold World.AsksLease at hasks ⊢
    rw [hcalls, show s'.client.world.self = s.client.world.self from hself]
    exact hasks
  agreed hl := by
    rw [hself] at hl
    exact agreed_of_lease (h.agreed hl) hsent (congrArg Client.lease hself) (by rw [hcalls])

theorem agreedInv_next (hn : NetInv s) (h : AgreedInv s) {l : NetLabel} (he : (network name mem).enabled s l)
    (hc : AnswersLast s l) : AgreedInv ((network name mem).next s l) := by
  cases l with
  | reply r => exact agreedInv_frame h rfl rfl (List.subset_append_left _ _)
  | deliver r i =>
    refine agreedInv_iterate h hc.2 fun hw hm => ?_
    rw [hn.received he] at hm
    have hack := Option.some_inj.mp hm
    exact ⟨r, he.2.1, hack, hc.1 hw hack⟩
  | client l =>
    cases l with
    | start i =>
      have hstate : ((network name mem).next s (.client (.start i))).self.state = .init :=
        (s.client.world.mlDhcpClientStart_state i).trans (hn.initialised he.1).2
      constructor
      · intro hw
        rw [hstate] at hw
        rcases hw with hw | hw <;> cases hw
      · intro hl
        rw [hstate] at hl
        rcases hl with hl | hl <;> cases hl
    | expire t => exact agreedInv_frame h rfl rfl (List.Subset.refl _)
    | iterate i =>
      have hnone : s.client.world.received i = none := he.2
      refine agreedInv_iterate h (fun _ o ho => ?_) fun _ hm => ?_
      · rw [hnone] at ho
        cases ho
      · rw [hnone] at hm
        cases hm
    | pollFailure => exact agreedInv_frame h rfl rfl (List.Subset.refl _)
    | stop =>
      exact agreedInv_frame h s.client.world.destroy_self s.client.world.destroy_calls (List.Subset.refl _)

theorem agreedInv_run {tr : List NetLabel} (h : ((network name mem).restrict AnswersLast).Run tr s) : AgreedInv s := by
  refine h.invariantOn (fun _ s => AgreedInv s) ⟨?_, ?_⟩ fun tr s l hr hi he =>
    agreedInv_next (netInv_run hr.of_restrict) hi he.1 he.2
  · rintro (hw | hw) <;> cases hw
  · rintro (hl | hl) <;> cases hl

end

/-- **Lease agreement.**  A client that has a lease was offered it by its server, and some server has
acknowledged some REQUEST.  Any ACK or NAK completes or aborts the exchange.  If the ACKs that are taken answer
the last REQUEST, then the server of the lease has acknowledged it. -/
theorem lease_agreement (name : String) (mem : Client) :
    (∀ tr s, (network name mem).Run tr s → s.self.state.HasLease → s.Offered ∧ s.Acknowledged) ∧
      (∀ tr s, (network name mem).Run tr s → s.self.state.Waits →
        ∀ r i, (network name mem).enabled s (.deliver r i) →
          (r.message = .ack → i.udpSocket.udpOk = true →
            ((network name mem).next s (.deliver r i)).self.state = .bound) ∧
          (r.message = .nak → ((network name mem).next s (.deliver r i)).self.state = .init)) ∧
      ∀ tr s, ((network name mem).restrict AnswersLast).Run tr s → s.self.state.HasLease → s.Agreed := by
  refine ⟨fun tr s h hl => ?_, fun tr s h hw r i he => (netInv_run h).completes he hw, fun tr s h hl => ?_⟩
  · exact ⟨(netInv_run h).offered (Or.inr hl), (netInv_run h).acknowledged hl⟩
  · exact (agreedInv_run h).agreed hl

end

/-! ## An old ACK -/

section

local instance networkHost : Host := littleEndian

abbrev eth0Network : System NetState NetLabel := network "eth0" zeroClient

def offerOfServer (server ip : UInt8) : Reply where
  server := word32 server 0 168 192
  ipAddress := word32 ip 0 168 192
  message := .offer ⟨word32 ip 0 168 192, word32 server 0 168 192, 0x00ffffff, word32 server 0 168 192,
    word32 server 0 168 192, 60⟩
  bootp := offerReply server ip 60

def ackOfServer (server ip : UInt8) : Reply where
  server := word32 server 0 168 192
  ipAddress := word32 ip 0 168 192
  message := .ack
  bootp := ackReply server ip

def deliverReply (r : Reply) : NetLabel := .deliver r (reading (replyHeaders ++ r.bootp))

/-- From INIT the client gets to REQUESTING the lease that the server offers. -/
def discovers (server ip : UInt8) : List NetLabel :=
  [.client (.expire .init), .client (.iterate timersOnly), .reply (offerOfServer server ip),
    deliverReply (offerOfServer server ip)]

/-- The ACK of the first server is late. -/
def lateAck : List NetLabel :=
  [.client (.start startOk)] ++ discovers 1 3 ++
    [.reply (ackOfServer 1 3), .client (.expire .resp), .client (.iterate timersOnly)] ++ discovers 2 9

def untilBound : List NetLabel :=
  [.client (.start startOk)] ++ discovers 1 3 ++ [.reply (ackOfServer 1 3), deliverReply (ackOfServer 1 3)]

/-- The client requests the lease of the second server. -/
abbrev requestedLate : NetState := lateAck.foldl eth0Network.next eth0Network.start

/-- The ACK of the first server is taken. -/
abbrev boundLate : NetState := eth0Network.next requestedLate (deliverReply (ackOfServer 1 3))

/-- What is computed of the two states. -/
theorem lateAck_facts :
    eth0Network.runs eth0Network.start lateAck = true ∧ requestedLate.self.state = .requesting ∧
      eth0Network.enabled requestedLate (deliverReply (ackOfServer 1 3)) ∧ boundLate.self.state = .bound ∧
      boundLate.sent = [offerOfServer 1 3, ackOfServer 1 3, offerOfServer 2 9] ∧
      boundLate.self.lease = Offer.lease ⟨word32 9 0 168 192, word32 2 0 168 192, 0x00ffffff, word32 2 0 168 192,
        word32 2 0 168 192, 60⟩ ∧
      boundLate.self.server = (offerOfServer 2 9).server ∧ boundLate.self.ipAddress = (offerOfServer 2 9).ipAddress := by
  decide +kernel

theorem lease_agreement_one :
    (∃ s, (eth0Network.restrict AnswersLast).Run untilBound s ∧ s.self.state = .bound ∧
      (s.Offered ∧ s.Acknowledged) ∧ s.Agreed) ∧
    ∃ s, eth0Network.Run lateAck s ∧ (eth0Network.next s (deliverReply (ackOfServer 1 3))).self.state = .bound := by
  have hbound : (eth0Network.restrict AnswersLast).Run untilBound (untilBound.foldl eth0Network.next eth0Network.start) :=
    (System.path_of_runs (by decide +kernel)).run
  obtain ⟨hruns, hrequesting, henabled, -⟩ := lateAck_facts
  have hlate : eth0Network.Run lateAck requestedLate := (System.path_of_runs hruns).run
  obtain ⟨hany, hcompletes, hagreed⟩ := lease_agreement "eth0" zeroClient
  have hstate : (untilBound.foldl eth0Network.next eth0Network.start).self.state = .bound := by decide +kernel
  refine ⟨⟨_, hbound, hstate, hany _ _ hbound.of_restrict (Or.inl hstate), hagreed _ _ hbound (Or.inl hstate)⟩,
    _, hlate, ?_⟩
  have hwaits : requestedLate.self.state.Waits := Or.inl hrequesting
  exact (hcompletes _ _ hlate hwaits (ackOfServer 1 3) (reading (replyHeaders ++ ackReply 1 3)) henabled).1 rfl rfl

/-- The first server acknowledges 192.168.0.3 after the client has given up, and the client has
requested 192.168.0.9 from the second one: it is BOUND to 192.168.0.9, which nobody has acknowledged. -/
theorem lease_disagreement :
    ∃ tr s, eth0Network.Run tr s ∧ s.self.state = .bound ∧ s.Offered ∧ ¬ s.Agreed := by
  obtain ⟨hruns, -, henabled, hstate, hsent, hlease, hserver, hip⟩ := lateAck_facts
  have hlate : eth0Network.Run lateAck requestedLate := (System.path_of_runs hruns).run
  refine ⟨_, _, hlate.snoc _ henabled, hstate, ?_, ?_⟩
  · refine ⟨offerOfServer 2 9, ?_, _, rfl, hlease.symm, hserver.symm, hip.symm⟩
    rw [hsent]
    simp
  · rintro ⟨r, hr, hack, hserver', -⟩
    rw [hsent] at hr
    simp only [List.mem_cons, List.not_mem_nil, or_false] at hr
    rcases hr with rfl | rfl | rfl
    · cases hack
    · rw [hserver] at hserver'
      revert hserver'
      decide +kernel
    · cases hack

end

end Monolinux
