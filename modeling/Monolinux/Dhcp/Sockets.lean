import Monolinux.Dhcp.Lease

/-!
# The descriptors of the DHCP client

The client owns five descriptors from a successful start to its stop: one socket, of
the kind that goes with the state, and four timers (`World.Owns`).

`enter_bound` has closed the socket when the set-up of the UDP socket fails, and calls
`enter_init`, which closes it again; and `enter_init` goes on when the set-up of its
socket fails.  `SetupsSucceed` is the condition that excludes both:

  then the ownership is as it should be in every state; a step that breaks the
  condition leads to a state where it is not                 (`sockets_owned`)
-/

namespace Monolinux

def ClientState.socketKind : ClientState → DescriptorKind
  | .init => .packetSocket
  | .selecting => .packetSocket
  | .requesting => .packetSocket
  | .bound => .udpSocket
  | .renewing => .udpSocket

namespace World

variable (w : World)

def timerFds : List (ℕ × DescriptorKind) :=
  [(w.self.timerFd .renew, .timer), (w.self.timerFd .rebind, .timer), (w.self.timerFd .resp, .timer),
    (w.self.timerFd .init, .timer)]

/-- The open descriptors are a socket of the kind and the timers. -/
structure Owns (kind : DescriptorKind) : Prop where
  descriptors : w.kernel.descriptors.Owns ((w.self.sock, kind) :: w.timerFds)
  isPacketSocket : w.self.isPacketSocket = decide (kind = .packetSocket)

end World

/-- The ownership of descriptors, as it should be. -/
structure DhcpState.Sockets (s : DhcpState) : Prop where
  /-- none is closed twice -/
  stray : s.world.kernel.descriptors.stray = []
  /-- none is left open -/
  closed : s.phase = .startFailed ∨ s.phase = .stopped → s.world.kernel.descriptors.opened = []
  /-- `fds[SOCK_IX]` is open, and of the kind that goes with the state -/
  sock : s.phase = .running ∨ s.phase = .ended →
    (s.world.self.sock, s.world.self.state.socketKind) ∈ s.world.kernel.descriptors.opened ∧
      s.world.self.isPacketSocket = decide (s.world.self.state.socketKind = .packetSocket)

section
variable [Host]

/-- The iteration takes an ACK. -/
def World.Binds (w : World) (i : Input) : Prop := binds w.self.state (Message.packetType (w.received i)) = true

/-- The iteration leads back to INIT. -/
def World.GivesUp (w : World) (i : Input) : Prop :=
  givesUp w.self.state (Message.packetType (w.received i)) (w.expired i) i.sendOk = true

/-- When an ACK is taken, the set-up of the UDP socket succeeds, and when the iteration leads back to INIT,
the set-up of the packet socket. -/
def SetupsSucceed (s : DhcpState) : DhcpLabel → Prop
  | .iterate i =>
    (s.world.Binds i → i.udpSocket.udpOk = true) ∧ (s.world.GivesUp i → i.packetSocket.packetOk = true)
  | _ => True

instance (s : DhcpState) (l : DhcpLabel) : Decidable (SetupsSucceed s l) :=
  match l with
  | .iterate _ => inferInstanceAs (Decidable ((_ = true → _ = true) ∧ (_ = true → _ = true)))
  | .start _ => isTrue trivial
  | .expire _ => isTrue trivial
  | .pollFailure => isTrue trivial
  | .stop => isTrue trivial

/-- The descriptors in a run. -/
structure DhcpState.Owned (s : DhcpState) : Prop where
  initialised : s.phase = .initialised → s.world.self.state = .init ∧ s.world.kernel.descriptors.Owns []
  running : s.phase = .running ∨ s.phase = .ended → s.world.Owns s.world.self.state.socketKind
  finished : s.phase = .startFailed ∨ s.phase = .stopped → s.world.kernel.descriptors.Owns []

/-! ## Set-ups -/

section
variable {w : World} {l : List (ℕ × DescriptorKind)} {kind : DescriptorKind} {b : Bool} {i : Input}

omit [Host] in
/-- A set-up that succeeds opens the socket. -/
theorem setupSocket_owns (h : w.kernel.descriptors.Owns l) {socket : Option ℕ} {ok : Bool}
    (hok : (socket.isSome && ok) = true) :
    (w.setupSocket kind b socket ok).2.kernel.descriptors.Owns
        (((w.setupSocket kind b socket ok).2.self.sock, kind) :: l) ∧
      (w.setupSocket kind b socket ok).2.self.isPacketSocket = b := by
  obtain ⟨hs, rfl⟩ := (Bool.and_eq_true _ _).mp hok
  obtain ⟨n, rfl⟩ := Option.isSome_iff_exists.mp hs
  exact ⟨owns_create h kind n, rfl⟩

omit [Host] in
/-- A set-up that fails leaves nothing open. -/
theorem setupSocket_fails (h : w.kernel.descriptors.Owns l) {socket : Option ℕ} {ok : Bool}
    (hok : (socket.isSome && ok) = false) :
    (w.setupSocket kind b socket ok).2.kernel.descriptors.Owns l ∧
      (w.setupSocket kind b socket ok).2.self = w.self := by
  cases socket with
  | none => exact ⟨h, rfl⟩
  | some n =>
    obtain rfl : ok = false := hok
    exact ⟨close_create h kind n, rfl⟩

omit [Host] in
/-- A set-up closes nothing but what it has opened. -/
theorem setupSocket_stray (socket : Option ℕ) (ok : Bool) :
    (w.setupSocket kind b socket ok).2.kernel.descriptors.stray = w.kernel.descriptors.stray := by
  cases socket with
  | none => rfl
  | some n =>
    cases ok with
    | true => rfl
    | false =>
      have hmem : w.kernel.descriptors.pick n ∈ (w.kernel.descriptors.create kind n).numbers :=
        List.mem_map.mpr ⟨(w.kernel.descriptors.pick n, kind), by simp [Descriptors.create], rfl⟩
      show ((w.kernel.descriptors.create kind n).close _).stray = _
      rw [close_eq hmem]
      rfl

/-! ## Entering INIT and BOUND -/

omit [Host] in
/-- The number of the socket is not that of a timer. -/
theorem World.Owns.sock_notMem (h : w.Owns kind) {d : Descriptors DescriptorKind} (hd : d.Owns w.timerFds) :
    w.self.sock ∉ d.numbers := by
  intro hmem
  obtain ⟨f, hf, he⟩ := List.mem_map.mp hmem
  exact (List.nodup_cons.mp h.descriptors.nodup_fst).1 (List.mem_map.mpr ⟨f, hd.mem_iff.mp hf, he⟩)

omit [Host] in
theorem enterInit_owns (h : w.Owns kind) (hp : i.packetSocket.packetOk = true) : (w.enterInit i).Owns .packetSocket := by
  have hclosed : w.unconfigured.kernel.descriptors.Owns w.timerFds := owns_close h.descriptors
  obtain ⟨hset, hflag⟩ : _ ∧ (w.unconfigured.setupPacketSocket i.packetSocket).2.self.isPacketSocket = true :=
    setupSocket_owns hclosed hp
  refine ⟨?_, hflag⟩
  unfold World.timerFds
  rw [(World.sameData_enterInit w i).timerFd]
  exact hset

omit [Host] in
/-- A set-up in INIT that fails leaves a closed descriptor in `fds[SOCK_IX]`. -/
theorem enterInit_fails (h : w.Owns kind) (hp : i.packetSocket.packetOk = false) :
    ∀ k, ((w.enterInit i).self.sock, k) ∉ (w.enterInit i).kernel.descriptors.opened := by
  have hclosed : w.unconfigured.kernel.descriptors.Owns w.timerFds := owns_close h.descriptors
  obtain ⟨hset, hself⟩ : (w.enterInit i).kernel.descriptors.Owns w.timerFds ∧
      (w.unconfigured.setupPacketSocket i.packetSocket).2.self = w.unconfigured.self := setupSocket_fails hclosed hp
  have hsock : (w.enterInit i).self.sock = w.self.sock := by
    show (w.unconfigured.setupPacketSocket i.packetSocket).2.self.sock = _
    rw [hself]
    rfl
  intro k hk
  rw [hsock] at hk
  exact h.sock_notMem hset (List.mem_map_of_mem hk)

omit [Host] in
theorem enterBound_owns (h : w.Owns kind) (hu : i.udpSocket.udpOk = true) : (w.enterBound i).Owns .udpSocket := by
  have hclosed : w.configured.kernel.descriptors.Owns w.timerFds := owns_close h.descriptors
  obtain ⟨hset, hflag⟩ : _ ∧ (w.configured.setupUdpSocket i.udpSocket).2.self.isPacketSocket = false :=
    setupSocket_owns hclosed hu
  rw [World.enterBound_eq, if_pos hu]
  refine ⟨?_, hflag⟩
  have hfd : (w.configured.setupUdpSocket i.udpSocket).2.self.timerFd = w.self.timerFd :=
    (World.sameData_setupSocket w.configured _ _ _ _).timerFd
  unfold World.timerFds
  rw [hfd]
  exact hset

omit [Host] in
/-- A set-up in BOUND that fails leads to the socket being closed twice. -/
theorem enterBound_fails (h : w.Owns kind) (hu : i.udpSocket.udpOk = false) :
    (w.enterBound i).kernel.descriptors.stray ≠ [] := by
  have hclosed : w.configured.kernel.descriptors.Owns w.timerFds := owns_close h.descriptors
  have hne : ¬ i.udpSocket.udpOk = true := by rw [hu]; nofun
  rw [World.enterBound_eq, if_neg hne]
  obtain ⟨hset, hself⟩ : _ ∧ (w.configured.setupUdpSocket i.udpSocket).2.self = w.configured.self :=
    setupSocket_fails hclosed hu
  have hsock : (w.configured.setupUdpSocket i.udpSocket).2.self.sock = w.self.sock := by
    rw [hself]
    rfl
  generalize hw' : (w.configured.setupUdpSocket i.udpSocket).2 = w' at hsock
  have hset' : w'.kernel.descriptors.Owns w.timerFds := hw' ▸ hset
  have hstray : (w'.enterInit i).kernel.descriptors.stray = (w'.kernel.descriptors.close w'.self.sock).stray :=
    setupSocket_stray _ _
  rw [hstray, hsock]
  exact close_stray (h.sock_notMem hset')

/-! ## Iterations -/

omit [Host] in
theorem not_givesUp_of_binds {state : ClientState} {packetType : PacketType} {expired : TimerIx → Bool} {sendOk : Bool}
    (h : binds state packetType = true) : ¬ givesUp state packetType expired sendOk = true := by
  obtain ⟨hs, hp⟩ := (Bool.and_eq_true _ _).mp h
  obtain rfl : packetType = .ack := of_decide_eq_true hp
  cases state with
  | requesting => nofun
  | renewing => nofun
  | _ => cases hs

/-- The socket and the timers are untouched. -/
structure World.SameSockets (w w' : World) : Prop where
  descriptors : w'.kernel.descriptors = w.kernel.descriptors
  sock : w'.self.sock = w.self.sock
  timerFd : w'.self.timerFd = w.self.timerFd
  isPacketSocket : w'.self.isPacketSocket = w.self.isPacketSocket

omit [Host] in
theorem World.SameSockets.owns {w' : World} (hs : w.SameSockets w') (h : w.Owns kind) : w'.Owns kind := by
  refine ⟨?_, by rw [hs.isPacketSocket]; exact h.isPacketSocket⟩
  unfold World.timerFds
  rw [hs.descriptors, hs.sock, hs.timerFd]
  exact h.descriptors

omit [Host] in
theorem sameSockets_broadcastPacket (sendOk : Bool) (buf : List UInt8) :
    w.SameSockets (w.broadcastPacket sendOk buf).2 := by
  cases sendOk <;> exact ⟨rfl, rfl, rfl, rfl⟩

omit [Host] in
theorem sameSockets_sendPacket (sendOk : Bool) (buf : List UInt8) : w.SameSockets (w.sendPacket sendOk buf).2 := by
  cases sendOk <;> exact ⟨rfl, rfl, rfl, rfl⟩

theorem sameSockets_updateEvents : w.SameSockets (w.updateEvents i) where
  descriptors := by rw [updateEvents_kernel]
  sock := by rw [updateEvents_self]; exact receive_frame Client.sock (fun _ _ => rfl) (fun _ _ => rfl) _ _
  timerFd := by rw [updateEvents_self]; exact receive_frame Client.timerFd (fun _ _ => rfl) (fun _ _ => rfl) _ _
  isPacketSocket := by
    rw [updateEvents_self]
    exact receive_frame Client.isPacketSocket (fun _ _ => rfl) (fun _ _ => rfl) _ _

/-- **A move and the sockets**: it enters BOUND, enters INIT, or leaves them as they are. -/
theorem World.Move.sockets {w' : World} (h : w.Move i w') :
    w.self.Binds ∧ w' = w.enterBound i ∨
      w.self.GivesUp i.sendOk ∧ (∃ u, w.SameSockets u ∧ w' = u.enterInit i) ∨
      (¬ w.self.Binds ∧ ¬ w.self.GivesUp i.sendOk) ∧ w.SameSockets w' ∧
        w'.self.state.socketKind = w.self.state.socketKind := by
  cases h with
  | stay _ hb hg => exact Or.inr (Or.inr ⟨⟨hb, hg⟩, ⟨rfl, rfl, rfl, rfl⟩, rfl⟩)
  | discover hs =>
    exact Or.inr (Or.inr ⟨⟨by simp [Client.Binds, binds, hs], by simp [Client.GivesUp, givesUp, hs]⟩,
      ⟨rfl, rfl, rfl, rfl⟩, by rw [hs]; rfl⟩)
  | discoverFails hs =>
    exact Or.inr (Or.inr ⟨⟨by simp [Client.Binds, binds, hs], by simp [Client.GivesUp, givesUp, hs]⟩,
      ⟨rfl, rfl, rfl, rfl⟩, rfl⟩)
  | request hs hp hsend =>
    exact Or.inr (Or.inr ⟨⟨by simp [Client.Binds, binds, hs], by simp [Client.GivesUp, givesUp, hs, hp, hsend]⟩,
      ⟨rfl, rfl, rfl, rfl⟩, by rw [hs]; rfl⟩)
  | requestFails hs hp hsend =>
    exact Or.inr (Or.inl ⟨by simp [Client.GivesUp, givesUp, hs, hp, hsend], _, sameSockets_broadcastPacket false _, rfl⟩)
  | giveUp _ hg => exact Or.inr (Or.inl ⟨hg, w, ⟨rfl, rfl, rfl, rfl⟩, rfl⟩)
  | bind hs hp =>
    refine Or.inl ⟨?_, rfl⟩
    rcases hs with hs | hs <;> simp [Client.Binds, binds, hs, hp]
  | renew hs he hsend =>
    exact Or.inr (Or.inr ⟨⟨by simp [Client.Binds, binds, hs], by simp [Client.GivesUp, givesUp, hs, hsend]⟩,
      ⟨rfl, rfl, rfl, rfl⟩, by rw [hs]; rfl⟩)
  | renewFails hs he hsend =>
    exact Or.inr (Or.inl ⟨by simp [Client.GivesUp, givesUp, Client.timerExpired, hs, he, hsend], _,
      sameSockets_sendPacket false _, rfl⟩)

theorem updateEvents_binds : (w.updateEvents i).self.Binds ↔ w.Binds i := by
  unfold Client.Binds World.Binds
  rw [updateEvents_state, updateEvents_packetType]

theorem updateEvents_givesUp : (w.updateEvents i).self.GivesUp i.sendOk ↔ w.GivesUp i := by
  have hexpired : (w.updateEvents i).self.timerExpired = w.expired i := funext updateEvents_timerExpired
  unfold Client.GivesUp World.GivesUp
  rw [updateEvents_state, updateEvents_packetType, hexpired]

/-- **One iteration** leaves the client with the right socket exactly if its set-ups succeed. -/
theorem iterate_sockets {s : DhcpState} (h : s.world.Owns s.world.self.state.socketKind)
    (hp : s.phase = .running ∨ s.phase = .ended) :
    (SetupsSucceed s (.iterate i) →
        (s.world.iterate i).Owns (s.world.iterate i).self.state.socketKind) ∧
      (¬ SetupsSucceed s (.iterate i) → ¬ DhcpState.Sockets { s with world := s.world.iterate i }) := by
  have hu : (s.world.updateEvents i).Owns s.world.self.state.socketKind := sameSockets_updateEvents.owns h
  have hm := (s.world.iterate_move i).sockets
  rw [updateEvents_binds, updateEvents_givesUp] at hm
  rcases hm with ⟨hb, hw⟩ | ⟨hg, u, hsame, hw⟩ | ⟨⟨hb, hg⟩, hsame, hkind⟩
  · have hg : ¬ s.world.GivesUp i := not_givesUp_of_binds hb
    rw [hw]
    cases hudp : i.udpSocket.udpOk with
    | true =>
      refine ⟨fun _ => ?_, fun hc => absurd ⟨fun _ => hudp, fun hg' => absurd hg' hg⟩ hc⟩
      rw [World.enterBound_state, if_pos hudp]
      exact enterBound_owns hu hudp
    | false =>
      refine ⟨fun hc => ?_, fun _ hsock => enterBound_fails hu hudp hsock.stray⟩
      have := hc.1 hb
      rw [hudp] at this
      cases this
  · have hb : ¬ s.world.Binds i := fun hb => not_givesUp_of_binds hb hg
    rw [hw]
    cases hpk : i.packetSocket.packetOk with
    | true => exact ⟨fun _ => enterInit_owns (hsame.owns hu) hpk,
        fun hc => absurd ⟨fun hb' => absurd hb' hb, fun _ => hpk⟩ hc⟩
    | false =>
      refine ⟨fun hc => ?_, fun _ hsock => enterInit_fails (hsame.owns hu) hpk _ (hsock.sock hp).1⟩
      have := hc.2 hg
      rw [hpk] at this
      cases this
  · refine ⟨fun _ => ?_, fun hc => absurd ⟨fun hb' => absurd hb' hb, fun hg' => absurd hg' hg⟩ hc⟩
    rw [hkind, updateEvents_state]
    exact hsame.owns hu

/-! ## Starting and stopping -/

omit [Host] in
theorem setupTimer_fails {w' : World} {t : TimerIx} {o : Option ℕ} (h : w.setupTimer t o = (false, w')) : w' = w := by
  cases o with
  | none => exact (congrArg Prod.snd h).symm
  | some n => cases h

omit [Host] in
theorem setupTimer_owns {w' : World} {t : TimerIx} {o : Option ℕ} (h : w.setupTimer t o = (true, w'))
    (hl : w.kernel.descriptors.Owns l) :
    w'.kernel.descriptors.Owns ((w'.self.timerFd t, .timer) :: l) ∧ w'.self.sock = w.self.sock ∧
      w'.self.isPacketSocket = w.self.isPacketSocket ∧ ∀ u, u ≠ t → w'.self.timerFd u = w.self.timerFd u := by
  cases o with
  | none => cases h
  | some n =>
    obtain rfl := congrArg Prod.snd h
    refine ⟨?_, rfl, rfl, fun u hu => Function.update_of_ne hu _ _⟩
    have hfd : (w.setupTimer t (some n)).2.self.timerFd t = w.kernel.descriptors.pick n := Function.update_self _ _ _
    rw [hfd]
    exact owns_create hl .timer n

section
variable {k : DescriptorKind}

omit [Host] in
theorem err2_owns (h : w.kernel.descriptors.Owns [(w.self.sock, k)]) : w.err2.kernel.descriptors.Owns [] := owns_close h

omit [Host] in
theorem err3_owns (h : w.kernel.descriptors.Owns [(w.self.timerFd .renew, .timer), (w.self.sock, k)]) :
    w.err3.kernel.descriptors.Owns [] := by
  have hclose : (w.close (w.self.timerFd .renew)).kernel.descriptors.Owns [(w.self.sock, k)] := owns_close h
  exact err2_owns hclose

omit [Host] in
theorem err4_owns (h : w.kernel.descriptors.Owns
    [(w.self.timerFd .rebind, .timer), (w.self.timerFd .renew, .timer), (w.self.sock, k)]) :
    w.err4.kernel.descriptors.Owns [] := by
  have hclose : (w.close (w.self.timerFd .rebind)).kernel.descriptors.Owns
      [(w.self.timerFd .renew, .timer), (w.self.sock, k)] := owns_close h
  exact err3_owns hclose

omit [Host] in
theorem err5_owns (h : w.kernel.descriptors.Owns [(w.self.timerFd .resp, .timer), (w.self.timerFd .rebind, .timer),
    (w.self.timerFd .renew, .timer), (w.self.sock, k)]) : w.err5.kernel.descriptors.Owns [] := by
  have hclose : (w.close (w.self.timerFd .resp)).kernel.descriptors.Owns
      [(w.self.timerFd .rebind, .timer), (w.self.timerFd .renew, .timer), (w.self.sock, k)] := owns_close h
  exact err4_owns hclose

end

omit [Host] in
/-- **`init`** opens the packet socket and the four timers, or leaves nothing open. -/
theorem openAll_owns (h : w.kernel.descriptors.Owns []) (i : StartInput) :
    ((w.openAll i).1 = true → (w.openAll i).2.Owns .packetSocket) ∧
      ((w.openAll i).1 = false → (w.openAll i).2.kernel.descriptors.Owns []) := by
  unfold World.openAll
  split
  · next w₁ h₁ =>
    refine ⟨nofun, fun _ => ?_⟩
    have hfst : (w.setupPacketSocket i.packetSocket).1 = false := congrArg Prod.fst h₁
    have hok : i.packetSocket.packetOk = false := (World.setupSocket_fst _ _ _ _ _).symm.trans hfst
    have hset : (w.setupPacketSocket i.packetSocket).2.kernel.descriptors.Owns [] := (setupSocket_fails h hok).1
    rwa [h₁] at hset
  next w₁ h₁ =>
  have hfst : (w.setupPacketSocket i.packetSocket).1 = true := congrArg Prod.fst h₁
  have hok : i.packetSocket.packetOk = true := (World.setupSocket_fst _ _ _ _ _).symm.trans hfst
  have hsock : w₁.kernel.descriptors.Owns [(w₁.self.sock, .packetSocket)] ∧ w₁.self.isPacketSocket = true := by
    obtain rfl : (w.setupPacketSocket i.packetSocket).2 = w₁ := congrArg Prod.snd h₁
    exact setupSocket_owns h hok
  split
  · next w₂ h₂ =>
    obtain rfl := setupTimer_fails h₂
    exact ⟨nofun, fun _ => err2_owns hsock.1⟩
  next w₂ h₂ =>
  obtain ⟨hrenew, hs₂, hp₂, -⟩ := setupTimer_owns h₂ hsock.1
  rw [← hs₂] at hrenew
  split
  · next w₃ h₃ =>
    obtain rfl := setupTimer_fails h₃
    exact ⟨nofun, fun _ => err3_owns hrenew⟩
  next w₃ h₃ =>
  obtain ⟨hrebind, hs₃, hp₃, ho₃⟩ := setupTimer_owns h₃ hrenew
  rw [← hs₃, ← ho₃ .renew nofun] at hrebind
  split
  · next w₄ h₄ =>
    obtain rfl := setupTimer_fails h₄
    exact ⟨nofun, fun _ => err4_owns hrebind⟩
  next w₄ h₄ =>
  obtain ⟨hresp, hs₄, hp₄, ho₄⟩ := setupTimer_owns h₄ hrebind
  rw [← hs₄, ← ho₄ .renew nofun, ← ho₄ .rebind nofun] at hresp
  split
  · next w₅ h₅ =>
    obtain rfl := setupTimer_fails h₅
    exact ⟨nofun, fun _ => err5_owns hresp⟩
  next w₅ h₅ =>
  obtain ⟨hinit, hs₅, hp₅, ho₅⟩ := setupTimer_owns h₅ hresp
  rw [← hs₅, ← ho₅ .renew nofun, ← ho₅ .rebind nofun, ← ho₅ .resp nofun] at hinit
  refine ⟨fun _ => ⟨hinit.of_perm (List.reverse_perm _).symm, ?_⟩, nofun⟩
  rw [hp₅, hp₄, hp₃, hp₂, hsock.2]
  rfl

omit [Host] in
theorem init_owns (h : w.kernel.descriptors.Owns []) (i : StartInput) :
    ((w.init i).1 = true → (w.init i).2.Owns .packetSocket) ∧
      ((w.init i).1 = false → (w.init i).2.kernel.descriptors.Owns []) := by
  unfold World.init
  split
  · exact ⟨nofun, fun _ => h⟩
  split
  · exact ⟨nofun, fun _ => h⟩
  · next index _ _ macAddress _ =>
    have h' : ((w.setInterfaceIndex index).setMacAddress macAddress).kernel.descriptors.Owns [] := h
    exact openAll_owns h' i

omit [Host] in
theorem close_owns {fd : ℕ} {k : DescriptorKind} (h : w.kernel.descriptors.Owns ((fd, k) :: l)) :
    (w.close fd).kernel.descriptors.Owns l := owns_close h

omit [Host] in
theorem destroy_owns (h : w.Owns kind) : w.destroy.kernel.descriptors.Owns [] := by
  have hclosed := close_owns (close_owns (close_owns (close_owns (close_owns h.descriptors))))
  simp only [World.destroy, World.close_self]
  exact hclosed

omit [Host] in
/-- **`ml_dhcp_client_start`** fails without an open descriptor. -/
theorem mlDhcpClientStart_owns (h : w.kernel.descriptors.Owns []) (i : StartInput) :
    ((w.mlDhcpClientStart i).1 = true → (w.mlDhcpClientStart i).2.Owns .packetSocket) ∧
      ((w.mlDhcpClientStart i).1 = false → (w.mlDhcpClientStart i).2.kernel.descriptors.Owns []) := by
  obtain ⟨hok, hfail⟩ := init_owns h i
  unfold World.mlDhcpClientStart
  split
  · next w' hw =>
    rw [hw] at hfail
    exact ⟨nofun, hfail⟩
  · next w' hw =>
    rw [hw] at hok
    have howns : (w'.setInitTimer 0 1).2.Owns .packetSocket := ⟨(hok rfl).descriptors, (hok rfl).isPacketSocket⟩
    dsimp only
    split
    · exact ⟨fun _ => howns, nofun⟩
    · exact ⟨nofun, fun _ => destroy_owns howns⟩

/-! ## Runs -/

section
variable {s : DhcpState} {name : String} {mem : Client} {j : DhcpLabel}

omit [Host] in
/-- What is owned is as it should be. -/
theorem DhcpState.Owned.sockets (h : s.Owned) : s.Sockets where
  stray := by
    cases hp : s.phase with
    | initialised => exact (h.initialised hp).2.stray
    | running => exact (h.running (Or.inl hp)).descriptors.stray
    | ended => exact (h.running (Or.inr hp)).descriptors.stray
    | startFailed => exact (h.finished (Or.inl hp)).stray
    | stopped => exact (h.finished (Or.inr hp)).stray
  closed hp := List.eq_nil_of_length_eq_zero (h.finished hp).perm.length_eq
  sock hp := ⟨(h.running hp).descriptors.mem_iff.mpr List.mem_cons_self, (h.running hp).isPacketSocket⟩

theorem owned_start (h : s.Owned) (hp : s.phase = .initialised) (i : StartInput) :
    ((dhcp name mem).next s (.start i)).Owned := by
  obtain ⟨hstate, hnil⟩ := h.initialised hp
  obtain ⟨hok, hfail⟩ := mlDhcpClientStart_owns hnil i
  have hinit : ((dhcp name mem).next s (.start i)).world.self.state = .init :=
    (s.world.mlDhcpClientStart_state i).trans hstate
  refine ⟨fun hp => absurd hp (next_start_phase s i nofun nofun), fun hp => ?_, fun hp => ?_⟩
  · have hrun : ((dhcp name mem).next s (.start i)).phase = .running :=
      hp.resolve_right (next_start_phase s i nofun nofun)
    rw [hinit]
    exact hok (next_start_running hrun)
  · refine hfail (Bool.eq_false_iff.mpr fun ht => ?_)
    have hrun : ((dhcp name mem).next s (.start i)).phase = .running := if_pos ht
    rw [hrun] at hp
    rcases hp with hp | hp <;> cases hp

/-- A step keeps the ownership if its set-ups succeed, and breaks it if not. -/
theorem owned_next (h : s.Owned) (he : (dhcp name mem).enabled s j) :
    (SetupsSucceed s j → ((dhcp name mem).next s j).Owned) ∧
      (¬ SetupsSucceed s j → ¬ ((dhcp name mem).next s j).Sockets) := by
  cases j with
  | start i => exact ⟨fun _ => owned_start h he i, fun hc => absurd trivial hc⟩
  | expire t =>
    refine ⟨fun _ => ⟨h.initialised, fun hp => ?_, h.finished⟩, fun hc => absurd trivial hc⟩
    exact ⟨(h.running hp).descriptors, (h.running hp).isPacketSocket⟩
  | iterate i =>
    have hp : s.phase = .running := he
    obtain ⟨hok, hfail⟩ := iterate_sockets (h.running (Or.inl hp)) (Or.inl hp) (i := i)
    refine ⟨fun hc => ⟨fun hi => ?_, fun _ => hok hc, fun ho => ?_⟩, hfail⟩
    · exact absurd (hi.symm.trans hp) nofun
    · rcases ho with ho | ho <;> exact absurd (ho.symm.trans hp) nofun
  | pollFailure =>
    refine ⟨fun _ => ⟨nofun, fun _ => ?_, nofun⟩, fun hc => absurd trivial hc⟩
    exact h.running (Or.inl he)
  | stop =>
    exact ⟨fun _ => ⟨nofun, nofun, fun _ => destroy_owns (h.running he)⟩, fun hc => absurd trivial hc⟩

end

end

/-- **The descriptors are owned as they should be** in a run whose set-ups succeed; a step with a set-up that
fails leads to a state where they are not. -/
theorem sockets_owned (name : String) (mem : Client) :
    (∀ tr s, ((dhcp name mem).restrict SetupsSucceed).Run tr s → s.Sockets) ∧
      ∀ tr s, ((dhcp name mem).restrict SetupsSucceed).Run tr s →
        ∀ l, (dhcp name mem).enabled s l → ¬ SetupsSucceed s l → ¬ ((dhcp name mem).next s l).Sockets := by
  have hrun : ∀ tr s, ((dhcp name mem).restrict SetupsSucceed).Run tr s → s.Owned := by
    intro tr s h
    refine h.invariant DhcpState.Owned ⟨fun _ => ⟨rfl, owns_nil⟩, fun hp => ?_, fun hp => ?_⟩ ?_
    · rcases hp with hp | hp <;> cases hp
    · rcases hp with hp | hp <;> cases hp
    · intro s l hs he
      exact (owned_next hs he.1).1 he.2
  constructor
  · intro tr s h
    exact (hrun tr s h).sockets
  · intro tr s h l he hc
    exact (owned_next (hrun tr s h) he).2 hc

end

/-! ## A port that is in use -/

section

local instance socketsHost : Host := littleEndian

/-- The server acknowledges, and `bind` of the UDP socket fails. -/
def ackInUse (server ip : UInt8) : DhcpLabel :=
  .iterate { reading (replyHeaders ++ ackReply server ip) with udpSocket := ⟨some 3, false, true⟩ }

theorem sockets_owned_one :
    ∃ s s', ((eth0.restrict SetupsSucceed).Run (untilRequesting 1 3 60 ++ [ack 1 3]) s ∧ s.Sockets) ∧
      (eth0.restrict SetupsSucceed).Run (untilRequesting 1 3 60) s' ∧ ¬ (eth0.next s' (ackInUse 1 3)).Sockets := by
  have hbound : (eth0.restrict SetupsSucceed).Run (untilRequesting 1 3 60 ++ [ack 1 3]) _ :=
    (System.path_of_runs (by decide +kernel)).run
  have hrequesting : (eth0.restrict SetupsSucceed).Run (untilRequesting 1 3 60) _ :=
    (System.path_of_runs (by decide +kernel)).run
  exact ⟨_, _, ⟨hbound, (sockets_owned "eth0" zeroClient).1 _ _ hbound⟩, hrequesting,
    (sockets_owned "eth0" zeroClient).2 _ _ hrequesting _ (by decide +kernel) (by decide +kernel)⟩

/-- The socket of REQUESTING is closed twice. -/
theorem socket_closed_twice : ∃ tr s, eth0.Run tr s ∧ s.world.kernel.descriptors.stray = [3] ∧ ¬ s.Sockets := by
  have hrun : eth0.Run (untilRequesting 1 3 60 ++ [ackInUse 1 3]) _ := (System.path_of_runs (by decide +kernel)).run
  refine ⟨_, _, hrun, by decide +kernel, fun h => absurd h.stray ?_⟩
  decide +kernel

end

end Monolinux
