import Monolinux.OneWire.Module

/-!
# One response for each request

A call sequence serves its requests (`Serves`) if a request that is taken is answered
before the next one is, and all others are refused at once.

A timer message is not checked when it is handled.  One that comes late, after an error
has ended the request, starts a reading that nobody asked for.  In IDLE the sequence
number is -1, so an error with the sequence number 0xffffffff is taken for the answer to
a request.  `Timely` is the condition that neither happens:

  then every request is answered once, on its own queue,
  and a step that breaks it breaks that              (`one_response_per_request`)
-/

namespace Monolinux

variable {κ : Type*}

/-! ## Serving requests -/

namespace OneWireCall

/-- Neither a request nor a response. -/
def isOther : OneWireCall κ → Bool
  | .get (.readTemperature _) => false
  | .put _ _ _ => false
  | _ => true

def isRequestTo [DecidableEq κ] (queue : κ) : OneWireCall κ → Bool
  | .get (.readTemperature request) => request.responseQueue = queue
  | _ => false

def isResponseTo [DecidableEq κ] (queue : κ) : OneWireCall κ → Bool
  | .put queue' _ _ => queue' = some queue
  | _ => false

end OneWireCall

/-- The calls serve their requests one at a time; `active` is the response queue of the request that is
still to be answered. -/
inductive Serves : List (OneWireCall κ) → Option κ → Prop
  | nil : Serves [] none
  | accept {calls : List (OneWireCall κ)} (request : ReadTemperatureReq κ) :
      Serves calls none → Serves (calls ++ [.get (.readTemperature request)]) (some request.responseQueue)
  | answer {calls : List (OneWireCall κ)} {queue : κ} (res : ℤ) (temperature : ℤ) :
      Serves calls (some queue) → Serves (calls ++ [.put (some queue) res (some temperature)]) none
  | refuse {calls : List (OneWireCall κ)} {queue : κ} (request : ReadTemperatureReq κ) :
      Serves calls (some queue) →
        Serves (calls ++ [.get (.readTemperature request)] ++ [.put (some request.responseQueue) (-16) none]) (some queue)
  | other {calls : List (OneWireCall κ)} {active : Option κ} (c : OneWireCall κ) :
      c.isOther = true → Serves calls active → Serves (calls ++ [c]) active

section
variable [DecidableEq κ]

def requestsTo (queue : κ) (calls : List (OneWireCall κ)) : ℕ := calls.countP (OneWireCall.isRequestTo queue)

def responsesTo (queue : κ) (calls : List (OneWireCall κ)) : ℕ := calls.countP (OneWireCall.isResponseTo queue)

theorem OneWireCall.not_request_of_isOther {c : OneWireCall κ} (h : c.isOther = true) (queue : κ) :
    c.isRequestTo queue = false ∧ c.isResponseTo queue = false := by
  cases c with
  | get message =>
    cases message with
    | readTemperature request => cases h
    | timeout => exact ⟨rfl, rfl⟩
    | other => exact ⟨rfl, rfl⟩
  | send => exact ⟨rfl, rfl⟩
  | timerStart => exact ⟨rfl, rfl⟩
  | put => cases h

/-- **As many responses as requests** on every queue, but for the request that is active. -/
theorem Serves.count {calls : List (OneWireCall κ)} {active : Option κ} (h : Serves calls active) (queue : κ) :
    responsesTo queue calls + (if active = some queue then 1 else 0) = requestsTo queue calls := by
  unfold responsesTo requestsTo
  induction h with
  | nil => rfl
  | accept request _ ih =>
    rw [if_neg nofun] at ih
    rw [List.countP_append, List.countP_append, ← ih]
    by_cases hq : request.responseQueue = queue <;>
      simp [OneWireCall.isRequestTo, OneWireCall.isResponseTo, hq]
  | @answer _ queue' res temperature _ ih =>
    rw [List.countP_append, List.countP_append, ← ih]
    by_cases hq : queue' = queue <;> simp [OneWireCall.isRequestTo, OneWireCall.isResponseTo, hq]
  | refuse request _ ih =>
    simp only [List.countP_append]
    rw [← ih]
    by_cases hq : request.responseQueue = queue
    · simp [OneWireCall.isRequestTo, OneWireCall.isResponseTo, hq]
      omega
    · simp [OneWireCall.isRequestTo, OneWireCall.isResponseTo, hq]
  | other c hc _ ih =>
    obtain ⟨hreq, hres⟩ := OneWireCall.not_request_of_isOther hc queue
    rw [List.countP_append, List.countP_append, ← ih]
    simp [hreq, hres]

end

/-- No response on the queue NULL. -/
theorem Serves.not_crashed {m : OneWire κ} {active : Option κ} (h : Serves m.calls active) : m.crashed = false := by
  unfold OneWire.crashed
  generalize m.calls = calls at h
  induction h with
  | nil => rfl
  | accept request _ ih => rw [List.any_append, ih]; rfl
  | answer res temperature _ ih => rw [List.any_append, ih]; rfl
  | refuse request _ ih => rw [List.any_append, List.any_append, ih]; rfl
  | other c hc _ ih =>
    rw [List.any_append, ih]
    cases c with
    | put => cases hc
    | get => rfl
    | send => rfl
    | timerStart => rfl

/-! ## What is promised -/

section
variable [Host]

/-- What is said of a step: it does not answer a request that was not made, a request that comes while
another is active is refused, and a timer message is ignored unless the module waits for it. -/
structure StepOk (m : OneWire κ) (l : OneWireLabel κ) (m' : OneWire κ) : Prop where
  answers : m'.crashed = false
  idle : m'.responseQueue = none ↔ m'.state = .idle
  refuses : ∀ request errno, l = .queue (.readTemperature request) errno → m.responseQueue ≠ none →
    m' = (m.call (.get (.readTemperature request))).call (.put (some request.responseQueue) (-16) none)
  ignores : ∀ errno, l = .queue .timeout errno → m.state ≠ .waitForConvertTimeout → m' = m.call (.get .timeout)

/-- A timer message comes while the module waits for it, and in IDLE there is no error with the
sequence number -1. -/
def Timely (m : OneWire κ) : OneWireLabel κ → Prop
  | .queue .timeout _ => m.state = .waitForConvertTimeout
  | .datagram cnMsg => m.state = .idle → cnMsg.seq = 0xffffffff → ∀ msg ∈ cnMsg.msgs, msg.type = 5 → msg.status = 0
  | _ => True

instance (m : OneWire κ) (l : OneWireLabel κ) : Decidable (Timely m l) :=
  match l with
  | .queue .timeout _ => inferInstanceAs (Decidable (m.state = _))
  | .queue (.readTemperature _) _ => isTrue trivial
  | .queue .other _ => isTrue trivial
  | .datagram cnMsg => inferInstanceAs
      (Decidable (m.state = _ → cnMsg.seq = _ → ∀ msg ∈ cnMsg.msgs, msg.type = 5 → msg.status = 0))
  | .ignored => isTrue trivial
  | .readFails => isTrue trivial

end

/-! ## The request that is active -/

namespace OneWire

/-- A request waits for its answer. -/
structure Active (m : OneWire κ) : Prop where
  serves : Serves m.calls m.responseQueue
  queue : m.responseQueue ≠ none
  cnSeqno : 0 ≤ m.cnSeqno ∧ m.cnSeqno ≤ 1000

/-- The invariant of the module. -/
structure Inv (m : OneWire κ) : Prop where
  serves : Serves m.calls m.responseQueue
  idle : m.responseQueue = none ↔ m.state = .idle
  seqno : m.state = .idle ∧ m.seqno = -1 ∨ m.state ≠ .idle ∧ 0 ≤ m.seqno ∧ m.seqno ≤ 1000
  cnSeqno : 0 ≤ m.cnSeqno ∧ m.cnSeqno ≤ 1000

variable {m : OneWire κ}

theorem Inv.active (h : m.Inv) (hs : m.state ≠ .idle) : m.Active :=
  ⟨h.serves, fun hq => hs (h.idle.mp hq), h.cnSeqno⟩

theorem Active.call (h : m.Active) {c : OneWireCall κ} (hc : c.isOther = true) : (m.call c).Active :=
  ⟨.other c hc h.serves, h.queue, h.cnSeqno⟩

theorem Inv.call (h : m.Inv) {c : OneWireCall κ} (hc : c.isOther = true) : (m.call c).Inv :=
  ⟨.other c hc h.serves, h.idle, h.seqno, h.cnSeqno⟩

theorem Active.finalize (h : m.Active) (res temperature : ℤ) : (m.finalize res temperature).Inv := by
  have hserves := h.serves
  obtain ⟨queue, hq⟩ := Option.ne_none_iff_exists'.mp h.queue
  rw [hq] at hserves
  have hanswer : Serves (m.finalize res temperature).calls none := by
    show Serves (m.calls ++ [.put m.responseQueue res (some temperature)]) none
    rw [hq]
    exact .answer res temperature hserves
  exact ⟨hanswer, ⟨fun _ => rfl, fun _ => rfl⟩, Or.inl ⟨rfl, rfl⟩, h.cnSeqno⟩

theorem Active.setState (h : m.Active) {state : Ds18b20State} (hs : state ≠ .idle) (h0 : 0 ≤ m.seqno)
    (h1 : m.seqno ≤ 1000) : (m.setState state).Inv :=
  ⟨h.serves, ⟨fun hq => absurd hq h.queue, fun hi => absurd hi hs⟩, Or.inr ⟨hs, h0, h1⟩, h.cnSeqno⟩

theorem Active.sendNlMessage (h : m.Active) (cmds : List W1Cmd) (errno : Option ℕ+) :
    (m.sendNlMessage cmds errno).2.Active ∧ (m.sendNlMessage cmds errno).1 ≤ 1000 := by
  have hcn := h.cnSeqno
  have hnext : 0 ≤ m.nextSeqno.cnSeqno ∧ m.nextSeqno.cnSeqno ≤ 1000 := by
    show 0 ≤ (if m.cnSeqno = 1000 then 0 else m.cnSeqno) + 1 ∧ (if m.cnSeqno = 1000 then 0 else m.cnSeqno) + 1 ≤ 1000
    split <;> omega
  have hactive : m.nextSeqno.Active := ⟨h.serves, h.queue, hnext⟩
  cases errno with
  | none => exact ⟨hactive.call rfl, hnext.2⟩
  | some errno =>
    refine ⟨hactive.call rfl, ?_⟩
    show -((errno : ℕ) : ℤ) ≤ 1000
    omega

theorem Active.sent (h : m.Active) {seqno : ℤ} {state : Ds18b20State} (hs : state ≠ .idle) (h1 : seqno ≤ 1000) :
    (m.sent seqno state).Inv := by
  have hactive : ({ m with seqno := seqno } : OneWire κ).Active := ⟨h.serves, h.queue, h.cnSeqno⟩
  unfold OneWire.sent
  dsimp only
  split
  · next h0 => exact hactive.setState hs h0 h1
  · exact hactive.finalize _ _

theorem Active.handleTimeout (h : m.Active) (errno : Option ℕ+) : (m.handleTimeout errno).Inv := by
  obtain ⟨hactive, h1⟩ := h.sendNlMessage [⟨1, [0xbe]⟩, ⟨0, List.replicate 9 0⟩] errno
  exact hactive.sent nofun h1

/-- A request in IDLE is taken. -/
theorem Inv.handleReadTemperature (h : m.Inv) (request : ReadTemperatureReq κ) (errno : Option ℕ+) :
    (m.handleQueue (.readTemperature request) errno).Inv := by
  unfold handleQueue OneWire.handleReadTemperature
  dsimp only
  split
  · next hq =>
    -- refused
    obtain ⟨queue, hq⟩ := Option.isSome_iff_exists.mp hq
    have hq' : m.responseQueue = some queue := hq
    have hserves := h.serves
    rw [hq'] at hserves
    refine ⟨?_, h.idle, h.seqno, h.cnSeqno⟩
    show Serves (m.calls ++ [_] ++ [_]) m.responseQueue
    rw [hq']
    exact .refuse request hserves
  · next hq =>
    have hq' : m.responseQueue = none := Option.not_isSome_iff_eq_none.mp hq
    have hserves := h.serves
    rw [hq'] at hserves
    have hactive : ({ m.call (.get (.readTemperature request)) with
        responseQueue := some request.responseQueue
        id := ⟨(request.slaveId >>> 56).toUInt8, BitVec.ofNat 48 (request.slaveId >>> 8).toNat,
          request.slaveId.toUInt8⟩ } : OneWire κ).Active := ⟨.accept request hserves, nofun, h.cnSeqno⟩
    obtain ⟨hsent, h1⟩ := hactive.sendNlMessage [⟨1, [0x44]⟩] errno
    exact hsent.sent nofun h1

/-! ## Datagrams -/

section
variable [Host]

theorem handleCmd_idle (hs : m.state = .idle) (cmd : W1Cmd) : m.handleCmd cmd = m := by
  unfold OneWire.handleCmd
  rw [hs]
  split
  · rfl
  split <;> rfl

theorem handleCmds_idle (hs : m.state = .idle) (cmds : List W1Cmd) :
    cmds.foldl (fun self cmd => self.handleCmd cmd) m = m := by
  induction cmds with
  | nil => rfl
  | cons cmd cmds ih => rw [List.foldl_cons, handleCmd_idle hs]; exact ih

theorem Inv.handleCmd (h : m.Inv) (cmd : W1Cmd) : (m.handleCmd cmd).Inv := by
  unfold OneWire.handleCmd
  split
  · split
    · next hs =>
      have hne : m.state ≠ .idle := by rw [hs]; nofun
      obtain ⟨h0, h1⟩ := (h.seqno.resolve_left fun hi => hne hi.1).2
      exact ((h.active hne).call rfl).setState nofun h0 h1
    · exact h
  split
  · split
    · next hs =>
      have hne : m.state ≠ .idle := by rw [hs]; nofun
      unfold OneWire.handleReadScratchpadDone
      split
      · exact (h.active hne).finalize _ _
      · exact h
    · exact h
  · exact h

theorem Inv.handleCmds (h : m.Inv) (cmds : List W1Cmd) : (cmds.foldl (fun self cmd => self.handleCmd cmd) m).Inv :=
  List.foldlRecOn cmds _ h fun _ hm cmd _ => hm.handleCmd cmd

omit [Host] in
theorem ofInt_ne {seqno : ℤ} (h0 : 0 ≤ seqno) (h1 : seqno ≤ 1000) : UInt32.ofInt seqno ≠ 0xffffffff := by
  intro h
  have hnat := congrArg UInt32.toNat h
  have hval : (UInt32.ofInt seqno).toNat = seqno.toNat := by
    unfold UInt32.ofInt
    rw [Int.emod_eq_of_lt h0 (by omega), UInt32.toNat_ofNat', Nat.mod_eq_of_lt (by omega)]
  rw [hval] at hnat
  have : (0xffffffff : UInt32).toNat = 4294967295 := rfl
  omega

/-- In IDLE nothing but an error with the sequence number -1 is taken for an answer. -/
theorem handleNlMsg_idle (hs : m.state = .idle) (hm : m.seqno = -1) {seq : UInt32} {msg : W1Msg}
    (hok : seq = 0xffffffff → msg.type = 5 → msg.status = 0) : m.handleNlMsg seq msg = m := by
  unfold OneWire.handleNlMsg
  split
  · next htype =>
    split
    · next hseq =>
      rw [hm] at hseq
      unfold OneWire.handleSlaveResponse
      rw [if_neg (not_not_intro (hok hseq htype))]
      exact handleCmds_idle hs msg.cmds
    · rfl
  · rfl

/-- An answer to the request that is active. -/
theorem Inv.handleNlMsg (h : m.Inv) (hne : m.state ≠ .idle) (seq : UInt32) (msg : W1Msg) :
    (m.handleNlMsg seq msg).Inv ∧ ((m.handleNlMsg seq msg).state = .idle → seq ≠ 0xffffffff) := by
  unfold OneWire.handleNlMsg
  split
  · split
    · next hseq =>
      have hseq' : seq ≠ 0xffffffff := by
        obtain ⟨h0, h1⟩ := (h.seqno.resolve_left fun hi => hne hi.1).2
        rw [hseq]
        exact ofInt_ne h0 h1
      unfold OneWire.handleSlaveResponse
      split
      · exact ⟨(h.active hne).finalize _ _, fun _ => hseq'⟩
      · exact ⟨h.handleCmds msg.cmds, fun _ => hseq'⟩
    · exact ⟨h, fun hi => absurd hi hne⟩
  · exact ⟨h, fun hi => absurd hi hne⟩

theorem Inv.handleNlMsgs (h : m.Inv) {seq : UInt32} {msgs : List W1Msg}
    (hok : m.state = .idle → seq = 0xffffffff → ∀ msg ∈ msgs, msg.type = 5 → msg.status = 0) :
    (msgs.foldl (fun self msg => self.handleNlMsg seq msg) m).Inv := by
  induction msgs generalizing m with
  | nil => exact h
  | cons msg msgs ih =>
    rw [List.foldl_cons]
    by_cases hs : m.state = .idle
    · have hm : m.seqno = -1 := (h.seqno.resolve_right fun hr => hr.1 hs).2
      rw [handleNlMsg_idle hs hm fun hseq => hok hs hseq msg (List.mem_cons_self ..)]
      exact ih h fun hi hseq msg' hmem => hok hi hseq msg' (List.mem_cons_of_mem _ hmem)
    · obtain ⟨hinv, hne⟩ := h.handleNlMsg hs seq msg
      exact ih hinv fun hi hseq => absurd hseq (hne hi)

end

/-! ## IDLE -/

/-- In IDLE there is no request. -/
def Reset (m : OneWire κ) : Prop := m.state = .idle → m.seqno = -1 ∧ m.responseQueue = none

theorem reset_finalize (m : OneWire κ) (res temperature : ℤ) : (m.finalize res temperature).Reset := fun _ => ⟨rfl, rfl⟩

theorem reset_sent (m : OneWire κ) (seqno : ℤ) {state : Ds18b20State} (hs : state ≠ .idle) :
    (m.sent seqno state).Reset := by
  unfold OneWire.sent
  dsimp only
  split
  · exact fun hi => absurd hi hs
  · exact reset_finalize _ _ _

theorem Reset.handleQueue (h : m.Reset) (message : OneWireMessage κ) (errno : Option ℕ+) :
    (m.handleQueue message errno).Reset := by
  cases message with
  | readTemperature request =>
    unfold OneWire.handleQueue OneWire.handleReadTemperature
    dsimp only
    split
    · exact h
    · exact reset_sent _ _ nofun
  | timeout => exact reset_sent _ _ nofun
  | other => exact h

section
variable [Host]

theorem Reset.handleCmd (h : m.Reset) (cmd : W1Cmd) : (m.handleCmd cmd).Reset := by
  unfold OneWire.handleCmd
  split
  · split
    · exact nofun
    · exact h
  split
  · split
    · unfold OneWire.handleReadScratchpadDone
      split
      · exact reset_finalize _ _ _
      · exact h
    · exact h
  · exact h

theorem Reset.handleNlMsg (h : m.Reset) (seq : UInt32) (msg : W1Msg) : (m.handleNlMsg seq msg).Reset := by
  unfold OneWire.handleNlMsg
  split
  · split
    · unfold OneWire.handleSlaveResponse
      split
      · exact reset_finalize _ _ _
      · exact List.foldlRecOn msg.cmds _ h fun _ hm cmd _ => hm.handleCmd cmd
    · exact h
  · exact h

theorem Reset.handleNlMsgs (h : m.Reset) (seq : UInt32) (msgs : List W1Msg) :
    (msgs.foldl (fun self msg => self.handleNlMsg seq msg) m).Reset :=
  List.foldlRecOn msgs _ h fun _ hm msg _ => hm.handleNlMsg seq msg

/-! ## Crashes -/

omit [Host] in
theorem crashed_call {m : OneWire κ} (h : m.crashed = true) (c : OneWireCall κ) : (m.call c).crashed = true := by
  unfold crashed at h ⊢
  show (m.calls ++ [c]).any _ = true
  rw [List.any_append, h]
  rfl

theorem crashed_handleCmd {m : OneWire κ} (h : m.crashed = true) (cmd : W1Cmd) : (m.handleCmd cmd).crashed = true := by
  unfold handleCmd
  split
  · split
    · exact crashed_call h _
    · exact h
  split
  · split
    · unfold handleReadScratchpadDone
      split
      · exact crashed_call h _
      · exact h
    · exact h
  · exact h

theorem crashed_handleNlMsg {m : OneWire κ} (h : m.crashed = true) (seq : UInt32) (msg : W1Msg) :
    (m.handleNlMsg seq msg).crashed = true := by
  unfold handleNlMsg
  split
  · split
    · unfold handleSlaveResponse
      split
      · exact crashed_call h _
      · exact List.foldlRecOn (motive := fun m : OneWire κ => m.crashed = true) msg.cmds _ h fun _ hm cmd _ =>
          crashed_handleCmd hm cmd
    · exact h
  · exact h

theorem crashed_handleNlMsgs {m : OneWire κ} (h : m.crashed = true) (seq : UInt32) (msgs : List W1Msg) :
    (msgs.foldl (fun self msg => self.handleNlMsg seq msg) m).crashed = true :=
  List.foldlRecOn (motive := fun m : OneWire κ => m.crashed = true) msgs _ h fun _ hm msg _ => crashed_handleNlMsg hm seq msg

/-- An error with the sequence number -1 in IDLE. -/
theorem Reset.crashes (h : m.Reset) (hs : m.state = .idle) {msgs : List W1Msg}
    (hbad : ∃ msg ∈ msgs, msg.type = 5 ∧ msg.status ≠ 0) :
    (msgs.foldl (fun self msg => self.handleNlMsg 0xffffffff msg) m).crashed = true := by
  obtain ⟨hm, hq⟩ := h hs
  induction msgs with
  | nil =>
    obtain ⟨msg, hmem, -⟩ := hbad
    exact absurd hmem List.not_mem_nil
  | cons msg msgs ih =>
    rw [List.foldl_cons]
    by_cases hmsg : msg.type = 5 ∧ msg.status ≠ 0
    · apply crashed_handleNlMsgs
      have hseq : (0xffffffff : UInt32) = UInt32.ofInt m.seqno := by rw [hm]; rfl
      unfold OneWire.handleNlMsg OneWire.handleSlaveResponse
      rw [if_pos hmsg.1, if_pos hseq, if_pos hmsg.2]
      unfold crashed
      show (m.calls ++ [OneWireCall.put m.responseQueue _ _]).any _ = true
      rw [hq, List.any_append]
      simp
    · rw [handleNlMsg_idle hs hm fun _ ht => not_not.mp fun hst => hmsg ⟨ht, hst⟩]
      obtain ⟨msg', hmem, hbad⟩ := hbad
      apply ih
      rcases List.mem_cons.mp hmem with rfl | hmem
      · exact absurd hbad hmsg
      · exact ⟨msg', hmem, hbad⟩

end

end OneWire

/-! ## Every run -/

section
variable [Host] {id : RegNum} {s : OneWireState κ}

/-- A step of the system that is timely. -/
def TimelyStep (s : OneWireState κ) (l : OneWireLabel κ) : Prop := Timely s.self l

instance (s : OneWireState κ) (l : OneWireLabel κ) : Decidable (TimelyStep s l) :=
  inferInstanceAs (Decidable (Timely s.self l))

theorem inv_next (h : s.self.Inv) {l : OneWireLabel κ} (hc : Timely s.self l) : ((oneWire id).next s l).self.Inv := by
  cases l with
  | queue message errno =>
    cases message with
    | readTemperature request => exact h.handleReadTemperature request errno
    | timeout =>
      have hs : s.self.state = .waitForConvertTimeout := hc
      have hactive : (s.self.call (.get .timeout)).Active := (h.active (by rw [hs]; nofun)).call rfl
      exact hactive.handleTimeout errno
    | other => exact h.call rfl
  | datagram cnMsg => exact h.handleNlMsgs hc
  | ignored => exact h
  | readFails => exact h

theorem inv_run {tr : List (OneWireLabel κ)} (h : ((oneWire id).restrict TimelyStep).Run tr s) : s.self.Inv := by
  have hstart : (oneWire id).start.self.Inv (κ := κ) :=
    ⟨.nil, ⟨fun _ => rfl, fun _ => rfl⟩, Or.inl ⟨rfl, rfl⟩, le_rfl, (by decide : (0 : ℤ) ≤ 1000)⟩
  refine h.invariant (fun s => s.self.Inv) hstart ?_
  intro s l hi he
  have hnext : ((oneWire id).next s l).self.Inv := inv_next hi he.2
  exact hnext

theorem reset_run {tr : List (OneWireLabel κ)} (h : (oneWire id).Run tr s) : s.self.Reset := by
  refine h.invariant (fun s => s.self.Reset) (fun _ => ⟨rfl, rfl⟩) fun s l hi _ => ?_
  cases l with
  | queue message errno => exact hi.handleQueue message errno
  | datagram cnMsg => exact hi.handleNlMsgs cnMsg.seq cnMsg.msgs
  | ignored => exact hi
  | readFails => exact hi

theorem OneWire.Inv.stepOk (h : s.self.Inv) {l : OneWireLabel κ} (hc : Timely s.self l) :
    StepOk s.self l ((oneWire id).next s l).self where
  answers := (inv_next h hc).serves.not_crashed
  idle := (inv_next h hc).idle
  refuses := by
    rintro request errno rfl hq
    show s.self.handleQueue (.readTemperature request) errno = _
    unfold OneWire.handleQueue OneWire.handleReadTemperature
    exact if_pos (Option.isSome_iff_ne_none.mpr hq)
  ignores := by
    rintro errno rfl hs
    exact absurd hc hs

omit [Host] in
/-- A late timer message makes the module send. -/
theorem not_ignored (m : OneWire κ) (errno : Option ℕ+) : m.handleQueue .timeout errno ≠ m.call (.get .timeout) := by
  intro h
  have hcalls := congrArg (List.length ∘ OneWire.calls) h
  have hlen : m.calls.length + 2 ≤ (m.handleQueue .timeout errno).calls.length := by
    unfold OneWire.handleQueue OneWire.handleTimeout OneWire.sendReadScratchpad OneWire.sendNlMessage OneWire.sent
    cases errno <;> dsimp only <;> split <;>
      simp [OneWire.finalize, OneWire.setState, OneWire.call, OneWire.nextSeqno]
  have hcall : (m.call (.get .timeout)).calls.length = m.calls.length + 1 := List.length_append
  rw [Function.comp_apply, Function.comp_apply] at hcalls
  omega

theorem not_stepOk (h : s.self.Reset) {l : OneWireLabel κ} (hc : ¬ Timely s.self l) :
    ¬ StepOk s.self l ((oneWire id).next s l).self := by
  intro hok
  cases l with
  | queue message errno =>
    cases message with
    | readTemperature request => exact hc trivial
    | timeout => exact not_ignored s.self errno (hok.ignores errno rfl hc)
    | other => exact hc trivial
  | datagram cnMsg =>
    have hbad : s.self.state = .idle ∧ cnMsg.seq = 0xffffffff ∧ ∃ msg ∈ cnMsg.msgs, msg.type = 5 ∧ msg.status ≠ 0 := by
      by_contra hne
      refine hc fun hs hseq msg hmem ht => ?_
      by_contra hst
      exact hne ⟨hs, hseq, msg, hmem, ht, hst⟩
    obtain ⟨hs, hseq, hbad⟩ := hbad
    have hcrash : ((oneWire id).next s (.datagram cnMsg)).self.crashed = true := by
      show (cnMsg.msgs.foldl (fun self msg => self.handleNlMsg cnMsg.seq msg) s.self).crashed = true
      rw [hseq]
      exact h.crashes hs hbad
    rw [hok.answers] at hcrash
    cases hcrash
  | ignored => exact hc trivial
  | readFails => exact hc trivial

end

/-- **One response for each request**, in every run whose steps are timely; a step that is not breaks it. -/
theorem one_response_per_request [DecidableEq κ] [Host] (id : RegNum) :
    (∀ (tr : List (OneWireLabel κ)) (s : OneWireState κ), ((oneWire id).restrict TimelyStep).Run tr s →
      (Serves s.self.calls s.self.responseQueue ∧
        (∀ queue, responsesTo queue s.self.calls + (if s.self.responseQueue = some queue then 1 else 0) =
          requestsTo queue s.self.calls) ∧
        (s.self.responseQueue = none ↔ s.self.state = .idle)) ∧
      ∀ l, ((oneWire id).restrict TimelyStep).enabled s l → StepOk s.self l ((oneWire id).next s l).self) ∧
    ∀ (tr : List (OneWireLabel κ)) (s : OneWireState κ), (oneWire id).Run tr s →
      ∀ l, (oneWire id).enabled s l → ¬ TimelyStep s l → ¬ StepOk s.self l ((oneWire id).next s l).self := by
  constructor
  · intro tr s h
    have hinv := inv_run h
    exact ⟨⟨hinv.serves, hinv.serves.count, hinv.idle⟩, fun l he => hinv.stepOk he.2⟩
  · intro tr s h l _ hc
    exact not_stepOk (reset_run h) hc

/-! ## A late timer message -/

section

local instance oneWireHost : Host := ⟨true⟩

/-- The module, with response queues that are named by numbers. -/
abbrev oneWireNat : System (OneWireState ℕ) (OneWireLabel ℕ) := oneWire ⟨0, 0, 0⟩

def readTemperature (queue : ℕ) : OneWireLabel ℕ := .queue (.readTemperature ⟨0x280000055d329533, queue⟩) none

/-- The slave has started to convert. -/
def convertResponse : OneWireLabel ℕ := .datagram ⟨1, [⟨5, 0, [⟨1, []⟩]⟩]⟩

/-- The temperature is 21.5625 degrees. -/
def readScratchpadResponse : OneWireLabel ℕ :=
  .datagram ⟨2, [⟨5, 0, [⟨0, [0x59, 0x01, 0x4b, 0x46, 0x7f, 0xff, 0x07, 0x10, 0xa2]⟩]⟩]⟩

def errorResponse : OneWireLabel ℕ := .datagram ⟨1, [⟨5, 19, []⟩]⟩

def timerMessage : OneWireLabel ℕ := .queue .timeout none

theorem one_response_per_request_one :
    (∃ s, (oneWireNat.restrict TimelyStep).Run
        [readTemperature 7, readTemperature 8, convertResponse, timerMessage, readScratchpadResponse] s ∧
      s.self.state = .idle ∧ responsesTo 7 s.self.calls + (if s.self.responseQueue = some 7 then 1 else 0) = 1 ∧
      StepOk s.self (readTemperature 7) (oneWireNat.next s (readTemperature 7)).self) ∧
    ∃ s, oneWireNat.Run [] s ∧ ¬ StepOk s.self timerMessage (oneWireNat.next s timerMessage).self := by
  have hrun : (oneWireNat.restrict TimelyStep).Run
      [readTemperature 7, readTemperature 8, convertResponse, timerMessage, readScratchpadResponse] _ :=
    (System.path_of_runs (by decide +kernel)).run
  obtain ⟨hall, hbroken⟩ := one_response_per_request (κ := ℕ) ⟨0, 0, 0⟩
  obtain ⟨⟨-, hcount, -⟩, hstep⟩ := hall _ _ hrun
  refine ⟨⟨_, hrun, by decide +kernel, (hcount 7).trans (by decide +kernel), hstep _ (by decide +kernel)⟩, _, .nil, ?_⟩
  exact hbroken _ _ .nil timerMessage (by decide +kernel) (by decide +kernel)

/-- The slave reports an error while the timer runs: the request is answered, and the timer is not stopped.
Its message starts a reading in IDLE, whose result is put on the queue NULL. -/
theorem response_without_request :
    ∃ s, oneWireNat.Run [readTemperature 7, convertResponse, errorResponse] s ∧ s.self.state = .idle ∧
      (oneWireNat.next s timerMessage).self ≠ s.self.call (.get .timeout) ∧
      oneWireNat.enabled (oneWireNat.next s timerMessage) readScratchpadResponse ∧
      (oneWireNat.next (oneWireNat.next s timerMessage) readScratchpadResponse).self.crashed = true := by
  have hrun : oneWireNat.Run [readTemperature 7, convertResponse, errorResponse] _ :=
    (System.path_of_runs (by decide +kernel)).run
  have hlate (s : OneWireState ℕ) : (oneWireNat.next s timerMessage).self ≠ s.self.call (.get .timeout) :=
    not_ignored s.self none
  exact ⟨_, hrun, by decide +kernel, hlate _, by decide +kernel, by decide +kernel⟩

end

end Monolinux
