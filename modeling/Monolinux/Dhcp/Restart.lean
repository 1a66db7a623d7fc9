import Monolinux.Dhcp.Timers
import Monolinux.Log.Objects

/-!
# Restarting the DHCP client

`program`: a program that starts and stops a client any number of times.  After
`ml_dhcp_client_join` it calls `ml_dhcp_client_start` again, at once or with
`ml_dhcp_client_init` before.

A start opens the descriptors and arms the init timer, and takes the state as it is;
`ml_dhcp_client_init` resets the state, and registers the log object.
`ml_dhcp_client_stop` closes the descriptors and leaves the thread in its loop, which
only a failing `poll()` ends.

  `ml_dhcp_client_join` returns only after `poll()` failed, and a start whose calls succeed
  leads to a DISCOVER, with one log object of the client in the list, if and only if
  `ml_dhcp_client_init` was called once and the state is INIT, which is that of the
  stopped client  (`restart_iff`, `stopped_state`)
-/

namespace Monolinux

/-! ## The situation after a first start -/

section
variable [Host]

/-- The iteration broadcasts a DISCOVER. -/
def World.Discovers (w : World) (i : Input) : Prop :=
  ∃ new, (w.iterate i).kernel.calls = w.kernel.calls ++ new ∧
    Call.broadcast w.self.interfaceIndex (discoverPacket w.self) ∈ new

/-- `w'` comes after `w`, and no expiry of the init timer has been read in between. -/
inductive World.UntilInitTimeout (w : World) : World → Prop
  | start : UntilInitTimeout w w
  | expire {w' : World} (t : TimerIx) (h : UntilInitTimeout w w') (ha : (w'.kernel.timer t).armed = true) :
      UntilInitTimeout w (w'.expire t)
  | iterate {w' : World} (i : Input) (h : UntilInitTimeout w w') (he : w'.expired i .init = false) :
      UntilInitTimeout w (w'.iterate i)

/-- The client waits for the init timer in INIT. -/
structure World.WaitsInInit (w : World) : Prop where
  state : w.self.state = .init
  timer : (w.kernel.timer .init).Pending

section
variable {w w' : World} {i : Input}

theorem iterate_init (hs : w.self.state = .init) (he : w.expired i .init = false) : w.iterate i = w.updateEvents i := by
  have hs' : (w.updateEvents i).self.state = .init := updateEvents_state.trans hs
  have he' : (w.updateEvents i).self.initTimerExpired = false := (updateEvents_timerExpired .init).trans he
  unfold World.iterate World.processEvents
  rw [hs']
  unfold World.processEventsInit
  rw [he']
  rfl

/-- Nothing but an init timeout ends the wait. -/
theorem World.WaitsInInit.untilInitTimeout (h : w.WaitsInInit) (hu : w.UntilInitTimeout w') : w'.WaitsInInit := by
  induction hu with
  | start => exact h
  | expire t _ _ ih => exact ⟨ih.state, timer_expire _ t .init ih.timer⟩
  | @iterate w' i _ he ih =>
    rw [iterate_init ih.state he]
    refine ⟨updateEvents_state.trans ih.state, ?_⟩
    rw [updateEvents_timer, timersRead_of_expired he]
    exact ih.timer

theorem updateEvents_interfaceIndex : (w.updateEvents i).self.interfaceIndex = w.self.interfaceIndex := by
  rw [updateEvents_self]
  exact receive_frame Client.interfaceIndex (fun _ _ => rfl) (fun _ _ => rfl) _ _

omit [Host] in
theorem calls_broadcastDiscover (sendOk : Bool) : ∃ rest, (w.broadcastDiscover sendOk).2.kernel.calls =
    w.kernel.calls ++ [.broadcast w.self.interfaceIndex (discoverPacket w.self)] ++ rest := by
  cases sendOk with
  | true => exact ⟨[.settime .resp 5 0], rfl⟩
  | false => exact ⟨[], by rw [List.append_nil]; rfl⟩

/-- **An init timeout in INIT** broadcasts a DISCOVER. -/
theorem discovers_of_init (hs : w.self.state = .init) (he : w.expired i .init = true) : w.Discovers i := by
  have hs' : (w.updateEvents i).self.state = .init := updateEvents_state.trans hs
  have he' : (w.updateEvents i).self.initTimerExpired = true := (updateEvents_timerExpired .init).trans he
  have hindex : (w.updateEvents i).self.interfaceIndex = w.self.interfaceIndex := updateEvents_interfaceIndex
  have hpacket : discoverPacket (w.updateEvents i).self = discoverPacket w.self := by
    unfold discoverPacket
    rw [updateEvents_macAddress]
  obtain ⟨rest, hcalls⟩ := calls_broadcastDiscover (w := w.updateEvents i) i.sendOk
  have hafter : ∃ more, (w.iterate i).kernel.calls =
      ((w.updateEvents i).broadcastDiscover i.sendOk).2.kernel.calls ++ more := by
    unfold World.iterate World.processEvents
    rw [hs']
    unfold World.processEventsInit
    rw [if_pos he']
    cases i.sendOk with
    | true => exact ⟨[], (List.append_nil _).symm⟩
    | false => exact ⟨[.settime .init 10 0], rfl⟩
  obtain ⟨more, hafter⟩ := hafter
  rw [hcalls, updateEvents_kernel, hindex, hpacket] at hafter
  refine ⟨((World.packet i).map (.read w.self.isPacketSocket)).toList ++
    [.broadcast w.self.interfaceIndex (discoverPacket w.self)] ++ rest ++ more, ?_, ?_⟩
  · rw [hafter]
    simp only [List.append_assoc]
  · simp only [List.append_assoc, List.mem_append, List.mem_singleton, true_or, or_true]

end

end

/-! ## A start that succeeds -/

structure StartInput.Succeeds (i : StartInput) : Prop where
  interfaceIndex : i.interfaceIndex.isSome = true
  macAddress : i.macAddress.isSome = true
  packetSocket : i.packetSocket.packetOk = true
  timerfd : ∀ t, (i.timerfd t).isSome = true
  pthreadCreate : i.pthreadCreate = true

namespace World

/-- `fds[SOCK_IX]` is an open packet socket. -/
structure HasPacketSocket (w : World) : Prop where
  isPacketSocket : w.self.isPacketSocket = true
  opened : (w.self.sock, .packetSocket) ∈ w.kernel.descriptors.opened

variable {w : World} {i : StartInput}

theorem setupPacketSocket_succeeds (w : World) {o : SocketOutcome} (h : o.packetOk = true) :
    ∃ w', w.setupPacketSocket o = (true, w') ∧ w'.HasPacketSocket := by
  obtain ⟨hsocket, hok⟩ := (Bool.and_eq_true _ _).mp h
  obtain ⟨n, hn⟩ := Option.isSome_iff_exists.mp hsocket
  unfold setupPacketSocket setupSocket
  rw [hn, hok]
  exact ⟨_, rfl, rfl, List.mem_append_right _ (List.mem_singleton_self _)⟩

theorem setupTimer_succeeds (hw : w.HasPacketSocket) (t : TimerIx) {timerfd : Option ℕ} (h : timerfd.isSome = true) :
    ∃ w', w.setupTimer t timerfd = (true, w') ∧ w'.HasPacketSocket := by
  obtain ⟨n, rfl⟩ := Option.isSome_iff_exists.mp h
  exact ⟨_, rfl, hw.isPacketSocket, List.mem_append_left _ hw.opened⟩

theorem openAll_succeeds (w : World) (h : i.Succeeds) : ∃ w', w.openAll i = (true, w') ∧ w'.HasPacketSocket := by
  obtain ⟨w₁, h₁, hw₁⟩ := w.setupPacketSocket_succeeds h.packetSocket
  obtain ⟨w₂, h₂, hw₂⟩ := setupTimer_succeeds hw₁ .renew (h.timerfd .renew)
  obtain ⟨w₃, h₃, hw₃⟩ := setupTimer_succeeds hw₂ .rebind (h.timerfd .rebind)
  obtain ⟨w₄, h₄, hw₄⟩ := setupTimer_succeeds hw₃ .resp (h.timerfd .resp)
  obtain ⟨w₅, h₅, hw₅⟩ := setupTimer_succeeds hw₄ .init (h.timerfd .init)
  refine ⟨w₅, ?_, hw₅⟩
  simp only [openAll, h₁, h₂, h₃, h₄, h₅]

/-- **A start whose calls succeed** opens a packet socket and arms the init timer. -/
theorem mlDhcpClientStart_succeeds (w : World) (h : i.Succeeds) : ∃ w', w.mlDhcpClientStart i = (true, w') ∧
    w'.HasPacketSocket ∧ (w'.kernel.timer .init).armed = true := by
  obtain ⟨index, hindex⟩ := Option.isSome_iff_exists.mp h.interfaceIndex
  obtain ⟨macAddress, hmac⟩ := Option.isSome_iff_exists.mp h.macAddress
  obtain ⟨w', hopen, hw'⟩ := ((w.setInterfaceIndex index).setMacAddress macAddress).openAll_succeeds h
  have hinit : w.init i = (true, w') := by
    unfold init
    rw [hindex, hmac]
    exact hopen
  refine ⟨(w'.setInitTimer 0 1).2, ?_, ⟨hw'.isPacketSocket, hw'.opened⟩, ?_⟩
  · unfold mlDhcpClientStart
    rw [hinit]
    dsimp only
    rw [if_pos h.pthreadCreate]
  · show (Function.update w'.kernel.timer .init _ .init).armed = true
    rw [Function.update_self]
    rfl

end World

/-! ## A program that starts a client again -/

structure Program (ι : Type*) where
  client : DhcpState
  log : LogModule ι
  /-- the log objects that were registered -/
  registered : List ι
  /-- `client_main` is in its loop -/
  looping : Bool
  /-- `ml_dhcp_client_join` has returned, and no start was made since -/
  joined : Bool

inductive ProgramLabel (ι : Type*)
  /-- a start, a step of the client or its kernel, or `ml_dhcp_client_stop` -/
  | client (l : DhcpLabel)
  /-- an iteration after the descriptors were closed: `poll()` returns their number, each with POLLNVAL -/
  | idle
  /-- `poll()` fails after the descriptors were closed -/
  | idlePollFailure
  | join
  /-- `ml_dhcp_client_init` of the same client -/
  | initAgain (interfaceName : String) (logMask : ℤ)
  /-- another module registers its log object -/
  | register (logObject : ι) (name : List UInt8) (level : ℤ)

/-- The environment of an iteration that finds the descriptors closed. -/
def closedInput : Input where
  event := .none
  readOk _ := false
  sendOk := false
  packetSocket := ⟨none, false, false⟩
  udpSocket := ⟨none, false, false⟩

section
variable {ι : Type*} [DecidableEq ι]

/-- The log object in the client `self`. -/
def addClient (self : ι) (logMask : ℤ) (m : LogModule ι) : LogModule ι :=
  addLogObject self (bytesOf "dhcp-client") logMask m

def Program.mlDhcpClientInit (self : ι) (interfaceName : String) (logMask : ℤ) (p : Program ι) : Program ι :=
  { p with
    client := { p.client with world := p.client.world.mlDhcpClientInit interfaceName }
    log := addClient self logMask p.log
    registered := self :: p.registered }

/-- Whether `client_main` is in its loop after the step: a start whose calls succeed creates the thread. -/
def Program.loopingAfter [Host] (p : Program ι) : DhcpLabel → Bool
  | .start i => (p.client.world.mlDhcpClientStart i).1
  | .pollFailure => false
  | .expire _ | .iterate _ | .stop => p.looping

/-- The program has initialised the client `self`; `earlier` were registered before. -/
def program [Host] (self : ι) (log : LogModule ι) (earlier : List ι) (name : String) (logMask : ℤ) (mem : Client) :
    System (Program ι) (ProgramLabel ι) where
  start :=
    { client := (dhcp name mem).start
      log := addClient self logMask log
      registered := self :: earlier
      looping := false
      joined := false }
  enabled
    | s, .client (.start _) => s.client.phase = .initialised ∨ s.client.phase = .startFailed ∨ s.joined = true
    | s, .client l => (dhcp name mem).enabled s.client l
    | s, .idle => s.client.phase = .stopped ∧ s.looping = true
    | s, .idlePollFailure => s.client.phase = .stopped ∧ s.looping = true
    -- pthread_join() returns when the thread has ended
    | s, .join => s.client.phase = .stopped ∧ s.looping = false ∧ s.joined = false
    | s, .initAgain _ _ => s.client.phase = .startFailed ∨ s.joined = true
    | s, .register logObject _ _ => logObject ∉ s.registered
  next
    | s, .client l => { s with client := (dhcp name mem).next s.client l, looping := s.loopingAfter l, joined := false }
    | s, .idle => { s with client := { s.client with world := s.client.world.iterate closedInput } }
    | s, .idlePollFailure => { s with looping := false }
    | s, .join => { s with joined := true }
    | s, .initAgain interfaceName logMask => s.mlDhcpClientInit self interfaceName logMask
    | s, .register logObject name level =>
      { s with log := addLogObject logObject name level s.log, registered := logObject :: s.registered }

instance [Host] (self : ι) (log : LogModule ι) (earlier : List ι) (name : String) (logMask : ℤ) (mem : Client)
    (s : Program ι) (l : ProgramLabel ι) : Decidable ((program self log earlier name logMask mem).enabled s l) :=
  match l with
  | .client (.start _) => inferInstanceAs (Decidable (_ = _ ∨ _ = _ ∨ _ = _))
  | .client (.expire t) => inferInstanceAs (Decidable ((dhcp name mem).enabled s.client (.expire t)))
  | .client (.iterate i) => inferInstanceAs (Decidable ((dhcp name mem).enabled s.client (.iterate i)))
  | .client .pollFailure => inferInstanceAs (Decidable ((dhcp name mem).enabled s.client .pollFailure))
  | .client .stop => inferInstanceAs (Decidable ((dhcp name mem).enabled s.client .stop))
  | .idle => inferInstanceAs (Decidable (_ ∧ _))
  | .idlePollFailure => inferInstanceAs (Decidable (_ ∧ _))
  | .join => inferInstanceAs (Decidable (_ ∧ _ ∧ _))
  | .initAgain _ _ => inferInstanceAs (Decidable (_ ∨ _))
  | .register _ _ _ => inferInstanceAs (Decidable (_ ∉ _))

def ProgramLabel.IsPollFailure : ProgramLabel ι → Prop
  | .client .pollFailure | .idlePollFailure => True
  | _ => False

/-- `poll()` has failed in the thread of the last start. -/
def PollFailed (tr : List (ProgramLabel ι)) : Prop :=
  ∃ before l after, tr = before ++ l :: after ∧ l.IsPollFailure ∧ ∀ i, .client (.start i) ∉ after

/-- `ml_dhcp_client_init` was called only once. -/
def InitOnce (tr : List (ProgramLabel ι)) : Prop := ∀ interfaceName logMask, .initAgain interfaceName logMask ∉ tr

/-- The situation after a first start. -/
structure Program.FirstStart [Host] (logObject : ι) (s : Program ι) : Prop where
  running : s.client.phase = .running
  state : s.client.world.self.state = .init
  packetSocket : s.client.world.HasPacketSocket
  initTimer : (s.client.world.kernel.timer .init).armed = true
  /-- the init timer stays pending until its expiry is read, and that iteration broadcasts a DISCOVER -/
  discover : ∀ w, s.client.world.UntilInitTimeout w →
    (w.kernel.timer .init).Pending ∧ ∀ i, w.expired i .init = true → w.Discovers i
  /-- the client's log object is in the list once -/
  log : ∃ objects, s.log.Lists objects ∧ objects.count logObject = 1

/-! ## The list of log objects -/

section
variable {self : ι} {tr : List (ProgramLabel ι)} {l : ProgramLabel ι} {s : Program ι}

omit [DecidableEq ι] in
theorem initOnce_snoc : InitOnce (tr ++ [l]) ↔
    InitOnce tr ∧ ∀ interfaceName logMask, l ≠ .initAgain interfaceName logMask := by
  unfold InitOnce
  constructor
  · intro h
    refine ⟨fun n m hmem => h n m (List.mem_append_left _ hmem), fun n m hl => h n m ?_⟩
    rw [hl]
    exact List.mem_append_right _ (List.mem_singleton_self _)
  · rintro ⟨h, hl⟩ n m hmem
    rcases List.mem_append.mp hmem with hmem | hmem
    · exact h n m hmem
    · exact hl n m (List.mem_singleton.mp hmem).symm

/-- The list has an end as long as the client is initialised once. -/
structure LogInv (logObject : ι) (tr : List (ProgramLabel ι)) (s : Program ι) : Prop where
  within : s.log.Within s.registered
  visits : s.log.Visits logObject
  mem : logObject ∈ s.registered
  once : InitOnce tr → s.log.Lists s.registered
  again : ¬InitOnce tr → s.log.Returns logObject

omit [DecidableEq ι] in
/-- What neither initialises the client again nor registers an object leaves the list as it is. -/
theorem LogInv.frame (h : LogInv self tr s) {s' : Program ι} (hlog : s'.log = s.log) (hreg : s'.registered = s.registered)
    (hl : ∀ interfaceName logMask, l ≠ .initAgain interfaceName logMask) : LogInv self (tr ++ [l]) s' where
  within := by
    rw [hlog, hreg]
    exact h.within
  visits := by
    rw [hlog]
    exact h.visits
  mem := by
    rw [hreg]
    exact h.mem
  once ho := by
    rw [hlog, hreg]
    exact h.once (initOnce_snoc.mp ho).1
  again ho := by
    rw [hlog]
    exact h.again fun h' => ho (initOnce_snoc.mpr ⟨h', hl⟩)

theorem LogInv.initAgain (h : LogInv self tr s) (interfaceName : String) (logMask : ℤ) :
    LogInv self (tr ++ [.initAgain interfaceName logMask]) (s.mlDhcpClientInit self interfaceName logMask) where
  within := add_within _ _ h.within
  visits := add_visits_self _ _ _
  mem := List.mem_cons_self
  once ho := absurd rfl ((initOnce_snoc.mp ho).2 interfaceName logMask)
  again _ := add_again _ _ h.visits

theorem LogInv.register (h : LogInv self tr s) {logObject : ι} (hnew : logObject ∉ s.registered) (name : List UInt8)
    (level : ℤ) : LogInv self (tr ++ [.register logObject name level])
      { s with log := addLogObject logObject name level s.log, registered := logObject :: s.registered } where
  within := add_within _ _ h.within
  visits := add_visits _ _ h.visits (h.within.not_visits hnew)
  mem := List.mem_cons_of_mem _ h.mem
  once ho := add_lists _ _ (h.once (initOnce_snoc.mp ho).1) hnew
  again ho := add_returns _ _ (h.again fun h' => ho (initOnce_snoc.mpr ⟨h', nofun⟩)) h.visits (h.within.not_visits hnew)

variable [Host] {log : LogModule ι} {earlier : List ι} {name : String} {logMask : ℤ} {mem : Client}

theorem logInv_next (h : LogInv self tr s) (he : (program self log earlier name logMask mem).enabled s l) :
    LogInv self (tr ++ [l]) ((program self log earlier name logMask mem).next s l) := by
  cases l with
  | client l => exact h.frame rfl rfl nofun
  | idle => exact h.frame rfl rfl nofun
  | idlePollFailure => exact h.frame rfl rfl nofun
  | join => exact h.frame rfl rfl nofun
  | initAgain interfaceName logMask => exact h.initAgain interfaceName logMask
  | register logObject name level => exact h.register he name level

theorem logInv_run (hlog : log.Lists earlier) (hself : self ∉ earlier)
    (h : (program self log earlier name logMask mem).Run tr s) : LogInv self tr s := by
  have hstart : (addClient self logMask log).Lists (self :: earlier) := add_lists _ _ hlog hself
  refine h.invariantOn (LogInv self) ⟨hstart.within, hstart.visits List.mem_cons_self, List.mem_cons_self, fun _ => hstart,
    fun ho => absurd (fun _ _ => List.not_mem_nil) ho⟩ ?_
  intro tr s l _ hi he
  exact logInv_next hi he

omit [Host] in
theorem LogInv.listed_iff (h : LogInv self tr s) :
    (∃ objects, s.log.Lists objects ∧ objects.count self = 1) ↔ InitOnce tr := by
  constructor
  · rintro ⟨objects, ho, -⟩
    by_contra hagain
    exact (h.again hagain).not_lists h.visits objects ho
  · intro honce
    have hlists := h.once honce
    exact ⟨s.registered, hlists, List.count_eq_one_of_mem (Linked.nodup hlists) h.mem⟩

end

/-! ## The end of the thread -/

section
variable {self : ι} {tr : List (ProgramLabel ι)} {l : ProgramLabel ι} {s : Program ι}

omit [DecidableEq ι] in
theorem pollFailed_snoc (hl : l.IsPollFailure) : PollFailed (tr ++ [l]) := ⟨tr, l, [], rfl, hl, fun _ => List.not_mem_nil⟩

omit [DecidableEq ι] in
theorem PollFailed.snoc (h : PollFailed tr) (hl : ∀ i, l ≠ .client (.start i)) : PollFailed (tr ++ [l]) := by
  obtain ⟨before, failure, after, rfl, hfailure, hafter⟩ := h
  refine ⟨before, failure, after ++ [l], by rw [List.append_assoc, List.cons_append], hfailure, fun i hmem => ?_⟩
  rcases List.mem_append.mp hmem with hmem | hmem
  · exact hafter i hmem
  · exact hl i (List.mem_singleton.mp hmem).symm

/-- Nothing but a failing `poll()` ends the thread. -/
structure ThreadInv (tr : List (ProgramLabel ι)) (s : Program ι) : Prop where
  running : s.client.phase = .running → s.looping = true
  left : s.client.phase = .ended ∨ s.client.phase = .stopped → s.looping = false → PollFailed tr
  joined : s.joined = true → s.client.phase = .stopped ∧ s.looping = false

omit [DecidableEq ι] in
/-- What neither starts the client nor fails a `poll()` leaves the thread as it is. -/
theorem ThreadInv.frame (h : ThreadInv tr s) {s' : Program ι} (hphase : s'.client.phase = s.client.phase)
    (hlooping : s'.looping = s.looping) (hjoined : s'.joined = true → s'.client.phase = .stopped ∧ s'.looping = false)
    (hl : ∀ i, l ≠ .client (.start i)) : ThreadInv (tr ++ [l]) s' where
  running hp := by
    rw [hlooping]
    exact h.running (hphase ▸ hp)
  left hp hend := (h.left (hphase ▸ hp) (hlooping ▸ hend)).snoc hl
  joined := hjoined

variable [Host] {log : LogModule ι} {earlier : List ι} {name : String} {logMask : ℤ} {mem : Client}

theorem threadInv_client (h : ThreadInv tr s) {l : DhcpLabel}
    (he : (program self log earlier name logMask mem).enabled s (.client l)) :
    ThreadInv (tr ++ [.client l]) ((program self log earlier name logMask mem).next s (.client l)) := by
  cases l with
  | start i =>
    have hphase : ((program self log earlier name logMask mem).next s (.client (.start i))).client.phase =
        if (s.client.world.mlDhcpClientStart i).1 then .running else .startFailed := rfl
    refine ⟨fun hp => ?_, fun hp => ?_, nofun⟩
    · rw [hphase] at hp
      show (s.client.world.mlDhcpClientStart i).1 = true
      by_contra hok
      rw [if_neg hok] at hp
      cases hp
    · rw [hphase] at hp
      split at hp <;> rcases hp with hp | hp <;> cases hp
  | expire t => exact h.frame rfl rfl nofun nofun
  | iterate i => exact h.frame rfl rfl nofun nofun
  | pollFailure => exact ⟨nofun, fun _ _ => pollFailed_snoc trivial, nofun⟩
  | stop =>
    refine ⟨nofun, fun _ hend => ?_, nofun⟩
    have hended : s.client.phase = .ended := by
      rcases he with hp | hp
      · exact absurd ((h.running hp).symm.trans hend) nofun
      · exact hp
    exact (h.left (.inl hended) hend).snoc nofun

theorem threadInv_next (h : ThreadInv tr s) (he : (program self log earlier name logMask mem).enabled s l) :
    ThreadInv (tr ++ [l]) ((program self log earlier name logMask mem).next s l) := by
  cases l with
  | client l => exact threadInv_client h he
  | idle => exact h.frame rfl rfl h.joined nofun
  | idlePollFailure =>
    exact ⟨fun hp => absurd (he.1.symm.trans hp) nofun, fun _ _ => pollFailed_snoc trivial, fun _ => ⟨he.1, rfl⟩⟩
  | join => exact h.frame rfl rfl (fun _ => ⟨he.1, he.2.1⟩) nofun
  | initAgain interfaceName logMask => exact h.frame rfl rfl h.joined nofun
  | register logObject name level => exact h.frame rfl rfl h.joined nofun

theorem threadInv_run (h : (program self log earlier name logMask mem).Run tr s) : ThreadInv tr s := by
  have hstart : ThreadInv [] (program self log earlier name logMask mem).start :=
    ⟨nofun, (fun hp => by rcases hp with hp | hp <;> cases hp), nofun⟩
  refine h.invariantOn ThreadInv hstart ?_
  intro tr s l _ hi he
  exact threadInv_next hi he

omit [DecidableEq ι] [Host] in
/-- **`ml_dhcp_client_join`** returns only after a `poll()` of the thread failed. -/
theorem ThreadInv.pollFailed (h : ThreadInv tr s) (hj : s.joined = true) : PollFailed tr :=
  h.left (.inr (h.joined hj).1) (h.joined hj).2

end

/-! ## Restarts -/

section
variable [Host] (self : ι) {log : LogModule ι} {earlier : List ι} (name : String) (logMask : ℤ) (mem : Client)
  {tr : List (ProgramLabel ι)} {s : Program ι} {i : StartInput}

omit [DecidableEq ι] in
/-- The thread finds nothing to do when its descriptors are closed. -/
theorem iterate_closed_state (w : World) : (w.iterate closedInput).self.state = w.self.state := by
  have hpacket : (w.updateEvents closedInput).self.packetType = .none := updateEvents_packetType
  have hexpired : (w.updateEvents closedInput).self.timerExpired = fun _ => false := by
    funext t
    rw [updateEvents_timerExpired]
    exact Bool.and_false _
  have hinit : (w.updateEvents closedInput).self.initTimerExpired = false := congrFun hexpired .init
  have hrenew : (w.updateEvents closedInput).self.renewalTimerExpired = false := congrFun hexpired .renew
  have hm := w.iterate_move closedInput
  generalize w.iterate closedInput = w' at hm ⊢
  cases hm with
  | stay => exact updateEvents_state
  | discover _ he => rw [hinit] at he; cases he
  | discoverFails _ he => rw [hinit] at he; cases he
  | request _ hp => rw [hpacket] at hp; cases hp
  | requestFails _ hp => rw [hpacket] at hp; cases hp
  | giveUp _ hg =>
    unfold Client.GivesUp at hg
    rw [hpacket, hexpired] at hg
    cases hs : (w.updateEvents closedInput).self.state <;> rw [hs] at hg <;> cases hg
  | bind _ hp => rw [hpacket] at hp; cases hp
  | renew _ he => rw [hrenew] at he; cases he
  | renewFails _ he => rw [hrenew] at he; cases he

/-- **The state of a stopped client** stays until `ml_dhcp_client_init` is called, over the next start, too. -/
theorem stopped_state (hp : s.client.phase = .stopped) {l : ProgramLabel ι}
    (he : (program self log earlier name logMask mem).enabled s l)
    (hl : ∀ interfaceName logMask, l ≠ .initAgain interfaceName logMask) :
    ((program self log earlier name logMask mem).next s l).client.world.self.state = s.client.world.self.state := by
  cases l with
  | client l =>
    cases l with
    | start i => exact s.client.world.mlDhcpClientStart_state i
    | expire t => rfl
    | iterate i => exact absurd (hp.symm.trans he) nofun
    | pollFailure => rfl
    | stop => exact congrArg Client.state s.client.world.destroy_self
  | idle => exact iterate_closed_state _
  | idlePollFailure => rfl
  | join => rfl
  | initAgain interfaceName logMask => exact absurd rfl (hl interfaceName logMask)
  | register logObject name level => rfl

/-- **Restarts.**  `ml_dhcp_client_join` has returned only if `poll()` failed in the thread.  A start whose calls
succeed, of a client that is not running, returns 0, and leads to the situation after a first start if and only if
`ml_dhcp_client_init` was called only once and the state is INIT. -/
theorem restart_iff (hlog : log.Lists earlier) (hself : self ∉ earlier)
    (h : (program self log earlier name logMask mem).Run tr s)
    (he : (program self log earlier name logMask mem).enabled s (.client (.start i))) (hi : i.Succeeds) :
    (s.joined = true → PollFailed tr) ∧
      (s.client.world.mlDhcpClientStart i).1 = true ∧
      (((program self log earlier name logMask mem).next s (.client (.start i))).FirstStart self ↔
        InitOnce tr ∧ s.client.world.self.state = .init) := by
  obtain ⟨w, hstart, hsocket, harmed⟩ := s.client.world.mlDhcpClientStart_succeeds hi
  have hstate : w.self.state = s.client.world.self.state := by
    have hst := s.client.world.mlDhcpClientStart_state i
    rw [hstart] at hst
    exact hst
  have hnext : (program self log earlier name logMask mem).next s (.client (.start i)) =
      { s with client := ⟨.running, w⟩, looping := true, joined := false } := by
    show { s with client := (dhcp name mem).next s.client (.start i), looping := s.loopingAfter (.start i),
                  joined := false } = _
    simp only [dhcp, Program.loopingAfter, hstart, if_true]
  have hinv := logInv_next (logInv_run hlog hself h) he
  have honce : InitOnce (tr ++ [.client (.start i)]) ↔ InitOnce tr :=
    initOnce_snoc.trans (and_iff_left nofun)
  have hlisted := hinv.listed_iff.trans honce
  rw [hnext] at hlisted ⊢
  refine ⟨(threadInv_run h).pollFailed, by rw [hstart], fun hf => ⟨hlisted.mp hf.log, hstate.symm.trans hf.state⟩, ?_⟩
  rintro ⟨ho, hs⟩
  have hwait : w.WaitsInInit := ⟨hstate.trans hs, .inl harmed⟩
  refine ⟨rfl, hwait.state, hsocket, harmed, fun w' hu => ?_, hlisted.mpr ho⟩
  have hwait' := hwait.untilInitTimeout hu
  exact ⟨hwait'.timer, fun i hx => discovers_of_init hwait'.state hx⟩

end

end

section

local instance restartHost : Host := ⟨true⟩

/-- The client is 0, and the log object of the log module is 1. -/
abbrev eth0Program : System (Program ℕ) (ProgramLabel ℕ) :=
  program 0 ⟨some 1, fun _ => ⟨bytesOf "log-object", 6, none⟩⟩ [1] "eth0" 7 zeroClient

theorem eth0_lists : (⟨some 1, fun _ => ⟨bytesOf "log-object", 6, none⟩⟩ : LogModule ℕ).Lists [1] := .cons .nil

theorem startOk_succeeds : startOk.Succeeds where
  interfaceIndex := rfl
  macAddress := rfl
  packetSocket := rfl
  timerfd t := by cases t <;> rfl
  pthreadCreate := rfl

/-- The client is stopped, `poll()` fails in its thread, which is joined. -/
def untilJoined (tr : List DhcpLabel) : List (ProgramLabel ℕ) :=
  tr.map .client ++ [.client .stop, .idle, .idlePollFailure, .join]

theorem restart_iff_init : ∃ s, eth0Program.Run (untilJoined [.start startOk]) s ∧ s.joined = true ∧
    (eth0Program.next s (.client (.start startOk))).FirstStart 0 := by
  have hrun : eth0Program.Run (untilJoined [.start startOk]) _ := (System.path_of_runs (by decide +kernel)).run
  refine ⟨_, hrun, by decide +kernel, ?_⟩
  exact (restart_iff 0 "eth0" 7 zeroClient eth0_lists (by decide) hrun (by decide +kernel) startOk_succeeds).2.2.mpr
    ⟨fun n m h => by simp [untilJoined] at h, by decide +kernel⟩

/-- The client binds a lease, and is stopped. -/
def stoppedInBound : List (ProgramLabel ℕ) := untilJoined (untilRequesting 1 3 60 ++ [ack 1 3])

/-- The client is stopped in BOUND and started again: no DISCOVER follows the init timeout.  It is stopped and
initialised again: the list of log objects has no end. -/
theorem restart_fails :
    startOk.Succeeds ∧
    (∃ tr s, eth0Program.Run tr s ∧ s.joined = true ∧
      (eth0Program.next s (.client (.start startOk))).client.world.self.state = .bound ∧
      ((eth0Program.next s (.client (.start startOk))).client.world.expire .init).expired timersOnly .init = true ∧
      ¬((eth0Program.next s (.client (.start startOk))).client.world.expire .init).Discovers timersOnly) ∧
    ∃ tr s, eth0Program.Run (tr ++ [.join, .initAgain "eth0" 7]) s ∧
      ∀ objects, ¬(eth0Program.next s (.client (.start startOk))).log.Lists objects := by
  refine ⟨startOk_succeeds, ?_, ?_⟩
  · have hrun : eth0Program.Run stoppedInBound _ := (System.path_of_runs (by decide +kernel)).run
    refine ⟨_, _, hrun, by decide +kernel, by decide +kernel, by decide +kernel, ?_⟩
    rintro ⟨new, hcalls, hmem⟩
    have hsame : ((World.expire (eth0Program.next (stoppedInBound.foldl eth0Program.next eth0Program.start)
        (.client (.start startOk))).client.world .init).iterate timersOnly).kernel.calls =
        (World.expire (eth0Program.next (stoppedInBound.foldl eth0Program.next eth0Program.start)
          (.client (.start startOk))).client.world .init).kernel.calls := by
      decide +kernel
    rw [hsame, List.self_eq_append_right] at hcalls
    subst hcalls
    cases hmem
  · have hrun : eth0Program.Run ([.client (.start startOk), .client .stop, .idlePollFailure] ++ [.join, .initAgain "eth0" 7]) _ :=
      (System.path_of_runs (by decide +kernel)).run
    refine ⟨_, _, hrun, ?_⟩
    have hvisits : (addClient 0 7 ⟨some 1, fun _ => ⟨bytesOf "log-object", 6, none⟩⟩ : LogModule ℕ).Visits 0 :=
      add_visits_self _ _ _
    exact (add_again (bytesOf "dhcp-client") 7 hvisits).not_lists (add_visits_self _ _ _)

end

end Monolinux
