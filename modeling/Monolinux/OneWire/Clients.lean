import Monolinux.OneWire.Responses

/-!
# Reading temperatures from several threads

`ml_one_wire_read_temperature` holds a mutex while its request is on the way: all of its
callers share one response queue.  `temperatureReaders` is the system of the callers, the
queue of the module, and its thread; the other users of the queue are the timer and
threads with response queues of their own.

`own_response`: whatever the datagrams are and however the threads take turns, each
caller returns what the thread answered to that very request; the answers are returned in
the order in which the requests were served, none is lost, and none is left behind for
the next caller.
-/

namespace Monolinux

variable {κ : Type*}

/-! ## What the thread answers -/

section
variable [DecidableEq κ] (shared : κ)

/-- A response and the request it follows. -/
structure Answer where
  slaveId : Option UInt64
  res : ℤ
  temperature : Option ℤ
  deriving DecidableEq

/-- The last request for a response on the queue `shared` that has none yet, and the responses before. -/
def answer (served : Option UInt64 × List Answer) : OneWireCall κ → Option UInt64 × List Answer
  | .get (.readTemperature request) => if request.responseQueue = shared then (some request.slaveId, served.2) else served
  | .put queue res temperature =>
    if queue = some shared then (none, served.2 ++ [⟨served.1, res, temperature⟩]) else served
  | _ => served

def answers (calls : List (OneWireCall κ)) : Option UInt64 × List Answer := calls.foldl (answer shared) (none, [])

/-- What is put on the queue. -/
def responsesOf (calls : List (OneWireCall κ)) : List (ℤ × Option ℤ) :=
  calls.filterMap fun
    | .put queue res temperature => if queue = some shared then some (res, temperature) else none
    | _ => none

variable {shared}

theorem answer_other {c : OneWireCall κ} (h : c.isOther = true) (served : Option UInt64 × List Answer) :
    answer shared served c = served := by
  cases c with
  | get message =>
    cases message with
    | readTemperature request => cases h
    | timeout | other => rfl
  | send | timerStart => rfl
  | put => cases h

theorem responsesOf_other {calls : List (OneWireCall κ)} (h : ∀ c ∈ calls, c.isOther = true) : responsesOf shared calls = [] := by
  unfold responsesOf
  rw [List.filterMap_eq_nil_iff]
  intro c hc
  cases c with
  | get | send | timerStart => rfl
  | put queue res temperature => cases h _ hc

theorem responsesOf_append (calls calls' : List (OneWireCall κ)) :
    responsesOf shared (calls ++ calls') = responsesOf shared calls ++ responsesOf shared calls' := List.filterMap_append ..

theorem responsesOf_put (queue : κ) (res : ℤ) (temperature : Option ℤ) (calls : List (OneWireCall κ)) :
    responsesOf shared (.put (some queue) res temperature :: calls) =
      (if queue = shared then [(res, temperature)] else []) ++ responsesOf shared calls := by
  unfold responsesOf
  rw [List.filterMap_cons]
  by_cases hqueue : queue = shared <;> simp [hqueue]

theorem foldl_answer_other {calls : List (OneWireCall κ)} (h : ∀ c ∈ calls, c.isOther = true)
    (served : Option UInt64 × List Answer) : calls.foldl (answer shared) served = served := by
  induction calls with
  | nil => rfl
  | cons c calls ih =>
    obtain ⟨hc, hcalls⟩ := List.forall_mem_cons.mp h
    rw [List.foldl_cons, answer_other hc, ih hcalls]

end

/-! ## One step of the thread -/

/-- A step with no request to answer: nothing is put on a queue, or the answer to the request that is served. -/
inductive Answers (m m' : OneWire κ) : Prop
  | nothing (new : List (OneWireCall κ)) (hcalls : m'.calls = m.calls ++ new) (hnew : ∀ c ∈ new, c.isOther = true)
      (hqueue : m'.responseQueue = m.responseQueue)
  | response (front back : List (OneWireCall κ)) (queue : κ) (res : ℤ) (temperature : Option ℤ)
      (hcalls : m'.calls = m.calls ++ (front ++ .put (some queue) res temperature :: back))
      (hfront : ∀ c ∈ front, c.isOther = true) (hback : ∀ c ∈ back, c.isOther = true)
      (hqueue : m.responseQueue = some queue) (hqueue' : m'.responseQueue = none)

/-- So it is, or the program crashes. -/
def Moves (m m' : OneWire κ) : Prop := Answers m m' ∨ m'.crashed = true

section
variable {m m' m'' : OneWire κ}

theorem Answers.refl (m : OneWire κ) : Answers m m := .nothing [] (List.append_nil _).symm (by simp) rfl

theorem Answers.trans (h : Answers m m') (h' : Answers m' m'') : Answers m m'' := by
  cases h with
  | nothing new hcalls hnew hqueue =>
    cases h' with
    | nothing new' hcalls' hnew' hqueue' =>
      refine .nothing (new ++ new') ?_ (List.forall_mem_append.mpr ⟨hnew, hnew'⟩) (hqueue'.trans hqueue)
      rw [hcalls', hcalls, List.append_assoc]
    | response front back queue res temperature hcalls' hfront hback hq hq' =>
      refine .response (new ++ front) back queue res temperature ?_ (List.forall_mem_append.mpr ⟨hnew, hfront⟩) hback
        (hqueue.symm.trans hq) hq'
      rw [hcalls', hcalls, List.append_assoc, List.append_assoc]
  | response front back queue res temperature hcalls hfront hback hq hq' =>
    cases h' with
    | nothing new hcalls' hnew hqueue' =>
      refine .response front (back ++ new) queue res temperature ?_ hfront (List.forall_mem_append.mpr ⟨hback, hnew⟩) hq
        (hqueue'.trans hq')
      rw [hcalls', hcalls]
      simp only [List.append_assoc, List.cons_append]
    | response _ _ _ _ _ _ _ _ hq'' => cases hq'.symm.trans hq''

theorem Moves.trans (h : Moves m m') (h' : Moves m' m'') (hcrashed : m'.crashed = true → m''.crashed = true) : Moves m m'' := by
  rcases h with h | h
  · exact h'.imp_left h.trans
  · exact .inr (hcrashed h)

namespace OneWire

theorem answers_call {c : OneWireCall κ} (hc : c.isOther = true) : Answers m (m.call c) :=
  .nothing [c] rfl (List.forall_mem_singleton.mpr hc) rfl

theorem crashed_sendNlMessage (h : m.crashed = true) (cmds : List W1Cmd) (errno : Option ℕ+) :
    (m.sendNlMessage cmds errno).2.crashed = true := by
  unfold sendNlMessage
  cases errno <;> exact crashed_call (m := m.nextSeqno) h _

theorem answers_sendNlMessage (cmds : List W1Cmd) (errno : Option ℕ+) : Answers m (m.sendNlMessage cmds errno).2 := by
  unfold sendNlMessage
  cases errno <;> exact .nothing [_] rfl (List.forall_mem_singleton.mpr rfl) rfl

/-- Where there is no request to answer it crashes. -/
theorem moves_finalize (m : OneWire κ) (res temperature : ℤ) : Moves m (m.finalize res temperature) := by
  cases hqueue : m.responseQueue with
  | none =>
    right
    unfold finalize crashed
    rw [hqueue]
    show (m.calls ++ [_]).any _ = true
    rw [List.any_append, Bool.or_eq_true]
    exact .inr rfl
  | some queue =>
    refine .inl (.response [] [] queue res (some temperature) ?_ (by simp) (by simp) hqueue rfl)
    unfold finalize
    rw [hqueue]
    rfl

theorem moves_sent (m : OneWire κ) (seqno : ℤ) (state : Ds18b20State) : Moves m (m.sent seqno state) := by
  unfold sent
  dsimp only
  split
  · exact .inl (.nothing [] (List.append_nil _).symm (by simp) rfl)
  · have hseqno : Answers m { m with seqno := seqno } := .nothing [] (List.append_nil _).symm (by simp) rfl
    exact Moves.trans (.inl hseqno) (moves_finalize _ _ _) fun h => crashed_call h _

theorem crashed_sent (h : m.crashed = true) (seqno : ℤ) (state : Ds18b20State) : (m.sent seqno state).crashed = true := by
  unfold sent
  dsimp only
  split
  · exact h
  · exact crashed_call (m := { m with seqno := seqno }) h _

theorem moves_handleTimeout (m : OneWire κ) (errno : Option ℕ+) : Moves m (m.handleTimeout errno) := by
  have hsend : Moves m (m.sendReadScratchpad errno).2 := .inl (answers_sendNlMessage _ errno)
  unfold handleTimeout
  exact hsend.trans (moves_sent _ _ _) fun h => crashed_sent h _ _

/-- **A request** is refused while another one is served, else accepted; or it is answered, since nothing could be sent. -/
theorem handleQueue_request (m : OneWire κ) (request : ReadTemperatureReq κ) (errno : Option ℕ+) :
    ∃ new, (m.handleQueue (.readTemperature request) errno).calls = m.calls ++ .get (.readTemperature request) :: new ∧
      ((m.responseQueue ≠ none ∧ (m.handleQueue (.readTemperature request) errno).responseQueue = m.responseQueue ∧
          new = [.put (some request.responseQueue) (-16) none]) ∨
        (m.responseQueue = none ∧ (m.handleQueue (.readTemperature request) errno).responseQueue = some request.responseQueue ∧
          ∀ c ∈ new, c.isOther = true) ∨
        (m.responseQueue = none ∧ (m.handleQueue (.readTemperature request) errno).responseQueue = none ∧
          ∃ front res temperature, new = front ++ [.put (some request.responseQueue) res temperature] ∧
            ∀ c ∈ front, c.isOther = true)) := by
  unfold handleQueue
  dsimp only
  unfold handleReadTemperature
  by_cases hbusy : m.responseQueue.isSome = true
  · have hcall : (m.call (.get (.readTemperature request))).responseQueue.isSome = true := hbusy
    rw [if_pos hcall]
    refine ⟨[.put (some request.responseQueue) (-16) none], ?_, .inl ⟨?_, rfl, rfl⟩⟩
    · show m.calls ++ [_] ++ [_] = _
      rw [List.append_assoc]
      rfl
    · rintro hnone
      rw [hnone] at hbusy
      cases hbusy
  · have hnone : m.responseQueue = none := Option.not_isSome_iff_eq_none.mp hbusy
    have hcall : ¬(m.call (.get (.readTemperature request))).responseQueue.isSome = true := hbusy
    rw [if_neg hcall]
    dsimp only
    generalize hid : (⟨(request.slaveId >>> 56).toUInt8, _, request.slaveId.toUInt8⟩ : RegNum) = id
    generalize haccepted : ({ m.call (.get (.readTemperature request)) with
      responseQueue := some request.responseQueue, id := id } : OneWire κ) = accepted
    have hcalls : (accepted.sendConvert errno).2.calls =
        m.calls ++ [.get (.readTemperature request), .send accepted.nextSeqno.cnSeqno id [⟨1, [0x44]⟩]] := by
      subst haccepted
      unfold sendConvert sendNlMessage
      cases errno <;> exact List.append_assoc _ [_] [_]
    have hqueue : (accepted.sendConvert errno).2.responseQueue = some request.responseQueue := by
      subst haccepted
      unfold sendConvert sendNlMessage
      cases errno <;> rfl
    generalize accepted.sendConvert errno = sent at hcalls hqueue
    obtain ⟨seqno, sent⟩ := sent
    dsimp only at hcalls hqueue ⊢
    unfold OneWire.sent
    dsimp only
    split
    · refine ⟨[.send accepted.nextSeqno.cnSeqno id [⟨1, [0x44]⟩]], hcalls, .inr (.inl ⟨hnone, hqueue, ?_⟩)⟩
      exact List.forall_mem_singleton.mpr rfl
    · refine ⟨_, ?_, .inr (.inr ⟨hnone, rfl, [.send accepted.nextSeqno.cnSeqno id [⟨1, [0x44]⟩]], seqno, some 0, rfl,
        List.forall_mem_singleton.mpr rfl⟩)⟩
      unfold finalize
      show sent.calls ++ [.put sent.responseQueue seqno (some 0)] = _
      rw [hcalls, hqueue, List.append_assoc]
      rfl

variable [Host]

theorem moves_handleCmd (m : OneWire κ) (cmd : W1Cmd) : Moves m (m.handleCmd cmd) := by
  unfold handleCmd
  split
  · split
    · exact .inl (.nothing [_] rfl (List.forall_mem_singleton.mpr rfl) rfl)
    · exact .inl (.refl m)
  split
  · split
    · unfold handleReadScratchpadDone
      split
      · exact moves_finalize m _ _
      · exact .inl (.refl m)
    · exact .inl (.refl m)
  · exact .inl (.refl m)

theorem moves_handleNlMsg (m : OneWire κ) (seq : UInt32) (msg : W1Msg) : Moves m (m.handleNlMsg seq msg) := by
  unfold handleNlMsg
  split
  · split
    · unfold handleSlaveResponse
      split
      · exact moves_finalize m _ _
      · exact List.foldlRecOn (motive := Moves m) msg.cmds _ (.inl (.refl m)) fun _ hm cmd _ =>
          hm.trans (moves_handleCmd _ cmd) fun h => crashed_handleCmd h cmd
    · exact .inl (.refl m)
  · exact .inl (.refl m)

theorem moves_handleMessageDone (m : OneWire κ) (cnMsg : CnMsg) : Moves m (m.handleMessageDone cnMsg) :=
  List.foldlRecOn (motive := Moves m) cnMsg.msgs _ (.inl (.refl m)) fun _ hm msg _ =>
    hm.trans (moves_handleNlMsg _ cnMsg.seq msg) fun h => crashed_handleNlMsg h cnMsg.seq msg

end OneWire

end

/-! ## The callers -/

/-- Where a thread is in `ml_one_wire_read_temperature`. -/
inductive CallerPc
  | idle
  /-- about to lock the mutex -/
  | locking (slaveId : UInt64)
  | putting (slaveId : UInt64)
  | getting (slaveId : UInt64)
  /-- about to unlock it and return -/
  | unlocking (slaveId : UInt64) (res : ℤ) (temperature : Option ℤ)
  deriving DecidableEq

structure Readers (ι κ : Type*) where
  caller : ι → CallerPc
  mutex : Option ι
  queue : List (OneWireMessage κ)
  thread : OneWireState κ
  responseQueue : List (ℤ × Option ℤ)
  /-- what the callers returned, in that order -/
  returned : List (ι × Answer)

inductive ReaderLabel (ι κ : Type*)
  | call (caller : ι) (slaveId : UInt64)
  | lock (caller : ι)
  | put (caller : ι)
  | get (caller : ι)
  | unlock (caller : ι)
  /-- by the timer, or a thread with a response queue of its own -/
  | post (message : OneWireMessage κ)
  | thread (l : OneWireLabel κ)

section
variable {ι : Type*} [DecidableEq ι] [DecidableEq κ]

/-- A message of the queue of the module that asks for a response on the queue `shared`. -/
def OneWireMessage.request? (shared : κ) : OneWireMessage κ → Option UInt64
  | .readTemperature request => if request.responseQueue = shared then some request.slaveId else none
  | _ => none

def OneWireLabel.message? : OneWireLabel κ → Option (OneWireMessage κ)
  | .queue message _ => some message
  | _ => none

/-- The threads around the response queue `shared`. -/
def temperatureReaders [Host] (shared : κ) (id : RegNum) : System (Readers ι κ) (ReaderLabel ι κ) where
  start := ⟨fun _ => .idle, none, [], ⟨true, mlOneWireInit id⟩, [], []⟩
  enabled s l := s.thread.self.crashed = false ∧
    match l with
    | .call i _ => s.caller i = .idle
    | .lock i => s.mutex = none ∧ ∃ slaveId, s.caller i = .locking slaveId
    | .put i => s.queue.length < 32 ∧ ∃ slaveId, s.caller i = .putting slaveId
    | .get i => s.responseQueue ≠ [] ∧ ∃ slaveId, s.caller i = .getting slaveId
    | .unlock i => ∃ slaveId res temperature, s.caller i = .unlocking slaveId res temperature
    | .post message => s.queue.length < 32 ∧ message.request? shared = none
    | .thread l => (oneWire id).enabled s.thread l ∧ ∀ message ∈ l.message?, s.queue.head? = some message
  next s
    | .call i slaveId => { s with caller := Function.update s.caller i (.locking slaveId) }
    | .lock i =>
      match s.caller i with
      | .locking slaveId => { s with mutex := some i, caller := Function.update s.caller i (.putting slaveId) }
      | _ => s
    | .put i =>
      match s.caller i with
      | .putting slaveId => { s with
          queue := s.queue ++ [.readTemperature ⟨slaveId, shared⟩], caller := Function.update s.caller i (.getting slaveId) }
      | _ => s
    | .get i =>
      match s.caller i, s.responseQueue with
      | .getting slaveId, (res, temperature) :: responses => { s with
          responseQueue := responses, caller := Function.update s.caller i (.unlocking slaveId res temperature) }
      | _, _ => s
    | .unlock i =>
      match s.caller i with
      | .unlocking slaveId res temperature => { s with
          mutex := none, caller := Function.update s.caller i .idle
          returned := s.returned ++ [(i, ⟨some slaveId, res, temperature⟩)] }
      | _ => s
    | .post message => { s with queue := s.queue ++ [message] }
    | .thread l =>
      let thread := (oneWire id).next s.thread l
      { s with
        thread := thread, queue := if l.message?.isSome then s.queue.tail else s.queue
        responseQueue := s.responseQueue ++ responsesOf shared (thread.self.calls.drop s.thread.self.calls.length) }

/-! ## How far a request is -/

inductive Stage
  | free
  | queued (slaveId : UInt64)
  | active (slaveId : UInt64)
  | answered (slaveId : UInt64) (res : ℤ) (temperature : Option ℤ)
  | taken (slaveId : UInt64) (res : ℤ) (temperature : Option ℤ)

namespace Stage

def requests : Stage → List UInt64
  | queued slaveId => [slaveId]
  | _ => []

def pending : Stage → Option UInt64
  | active slaveId => some slaveId
  | _ => none

def responses : Stage → List (ℤ × Option ℤ)
  | answered _ res temperature => [(res, temperature)]
  | _ => []

/-- The answer that is not returned yet. -/
def unreturned : Stage → List Answer
  | answered slaveId res temperature | taken slaveId res temperature => [⟨some slaveId, res, temperature⟩]
  | _ => []

/-- What the owner of the mutex waits for. -/
def Agrees : Stage → CallerPc → Prop
  | free, .putting _ => True
  | queued slaveId, .getting slaveId' | active slaveId, .getting slaveId' | answered slaveId _ _, .getting slaveId' =>
    slaveId = slaveId'
  | taken slaveId res temperature, .unlocking slaveId' res' temperature' =>
    slaveId = slaveId' ∧ res = res' ∧ temperature = temperature'
  | _, _ => False

/-- What the thread makes of a stage. -/
inductive Follows : Stage → Stage → Prop
  | same (stage : Stage) : Follows stage stage
  | accepted (slaveId : UInt64) : Follows (queued slaveId) (active slaveId)
  | refused (slaveId : UInt64) (res : ℤ) (temperature : Option ℤ) :
      Follows (queued slaveId) (answered slaveId res temperature)
  | served (slaveId : UInt64) (res : ℤ) (temperature : Option ℤ) :
      Follows (active slaveId) (answered slaveId res temperature)

theorem Follows.agrees {stage stage' : Stage} (h : stage.Follows stage') {pc : CallerPc} (hpc : stage.Agrees pc) :
    stage'.Agrees pc := by
  cases h with
  | same => exact hpc
  | accepted | refused | served => cases pc <;> exact hpc

theorem Follows.eq_free {stage' : Stage} (h : free.Follows stage') : stage' = free := by
  cases h
  rfl

end Stage

/-- It holds the mutex. -/
def CallerPc.Holding : CallerPc → Prop
  | .idle | .locking _ => False
  | _ => True

/-- The queues and the thread are at a stage. -/
structure Readers.At (shared : κ) (s : Readers ι κ) (stage : Stage) : Prop where
  requests : s.queue.filterMap (·.request? shared) = stage.requests
  active : s.thread.self.responseQueue = some shared ↔ stage.pending.isSome
  answers : answers shared s.thread.self.calls = (stage.pending, s.returned.map Prod.snd ++ stage.unreturned)
  responses : s.responseQueue = stage.responses

/-- **What holds in every state**. -/
structure Readers.Inv (shared : κ) (s : Readers ι κ) : Prop where
  holding : ∀ i, (s.caller i).Holding → s.mutex = some i
  stage : ∃ stage, s.At shared stage ∧ match s.mutex with
    | none => stage = .free
    | some i => stage.Agrees (s.caller i)

variable {shared : κ}

/-- Nothing else is put on a queue. -/
theorem Answers.answers_eq {m m' : OneWire κ} (h : Answers m m') :
    (answers shared m'.calls = answers shared m.calls ∧ m'.responseQueue = m.responseQueue ∧
      responsesOf shared (m'.calls.drop m.calls.length) = []) ∨
    ∃ queue res temperature, m.responseQueue = some queue ∧ m'.responseQueue = none ∧
      answers shared m'.calls = (if queue = shared then
        (none, (answers shared m.calls).2 ++ [⟨(answers shared m.calls).1, res, temperature⟩]) else answers shared m.calls) ∧
      responsesOf shared (m'.calls.drop m.calls.length) = if queue = shared then [(res, temperature)] else [] := by
  unfold answers
  cases h with
  | nothing new hcalls hnew hqueue =>
    left
    rw [hcalls, List.foldl_append, foldl_answer_other hnew, List.drop_left]
    exact ⟨rfl, hqueue, responsesOf_other hnew⟩
  | response front back queue res temperature hcalls hfront hback hq hq' =>
    right
    refine ⟨queue, res, temperature, hq, hq', ?_, ?_⟩
    · rw [hcalls, List.foldl_append, List.foldl_append, foldl_answer_other hfront, List.foldl_cons, foldl_answer_other hback]
      unfold answer
      dsimp only
      simp only [Option.some_inj]
    · rw [hcalls, List.drop_left, responsesOf_append, responsesOf_other hfront, responsesOf_put, responsesOf_other hback,
        List.nil_append, List.append_nil]

/-- A request for another queue. -/
theorem handleQueue_other (m : OneWire κ) {request : ReadTemperatureReq κ} (hother : request.responseQueue ≠ shared)
    (errno : Option ℕ+) :
    answers shared (m.handleQueue (.readTemperature request) errno).calls = answers shared m.calls ∧
      ((m.handleQueue (.readTemperature request) errno).responseQueue = some shared ↔ m.responseQueue = some shared) ∧
      responsesOf shared ((m.handleQueue (.readTemperature request) errno).calls.drop m.calls.length) = [] := by
  obtain ⟨new, hcalls, hnew⟩ := OneWire.handleQueue_request m request errno
  have hget (served : Option UInt64 × List Answer) : answer shared served (.get (.readTemperature request)) = served :=
    if_neg hother
  have hput (served : Option UInt64 × List Answer) (res : ℤ) (temperature : Option ℤ) :
      answer shared served (.put (some request.responseQueue) res temperature) = served :=
    if_neg fun heq => hother (Option.some_inj.mp heq)
  have hresponses (calls : List (OneWireCall κ)) : responsesOf shared (.get (.readTemperature request) :: calls) =
      responsesOf shared calls := rfl
  have hsome : some request.responseQueue ≠ some shared := fun heq => hother (Option.some_inj.mp heq)
  unfold answers
  rw [hcalls, List.foldl_append, List.foldl_cons, hget, List.drop_left, hresponses]
  rcases hnew with ⟨-, hqueue, rfl⟩ | ⟨hnone, hqueue, hnew⟩ | ⟨hnone, hqueue, front, res, temperature, rfl, hfront⟩
  · refine ⟨hput _ _ _, by rw [hqueue], ?_⟩
    rw [responsesOf_put, if_neg hother]
    rfl
  · refine ⟨foldl_answer_other hnew _, ?_, responsesOf_other hnew⟩
    rw [hqueue, hnone]
    exact iff_of_false hsome (by simp)
  · refine ⟨?_, by rw [hqueue, hnone], ?_⟩
    · rw [List.foldl_append, foldl_answer_other hfront]
      exact hput _ _ _
    · rw [responsesOf_append, responsesOf_other hfront, responsesOf_put, if_neg hother]
      rfl

/-- A request for this one is accepted, or answered at once. -/
theorem handleQueue_shared (m : OneWire κ) {request : ReadTemperatureReq κ} (hshared : request.responseQueue = shared)
    (hfree : m.responseQueue ≠ some shared) (errno : Option ℕ+) :
    (answers shared (m.handleQueue (.readTemperature request) errno).calls = (some request.slaveId, (answers shared m.calls).2) ∧
      (m.handleQueue (.readTemperature request) errno).responseQueue = some shared ∧
      responsesOf shared ((m.handleQueue (.readTemperature request) errno).calls.drop m.calls.length) = []) ∨
    ∃ res temperature, answers shared (m.handleQueue (.readTemperature request) errno).calls =
        (none, (answers shared m.calls).2 ++ [⟨some request.slaveId, res, temperature⟩]) ∧
      (m.handleQueue (.readTemperature request) errno).responseQueue ≠ some shared ∧
      responsesOf shared ((m.handleQueue (.readTemperature request) errno).calls.drop m.calls.length) = [(res, temperature)] := by
  obtain ⟨new, hcalls, hnew⟩ := OneWire.handleQueue_request m request errno
  have hget (served : Option UInt64 × List Answer) : answer shared served (.get (.readTemperature request)) =
      (some request.slaveId, served.2) := if_pos hshared
  have hput (served : Option UInt64 × List Answer) (res : ℤ) (temperature : Option ℤ) :
      answer shared served (.put (some request.responseQueue) res temperature) =
        (none, served.2 ++ [⟨served.1, res, temperature⟩]) := if_pos (congrArg some hshared)
  have hresponses (calls : List (OneWireCall κ)) : responsesOf shared (.get (.readTemperature request) :: calls) =
      responsesOf shared calls := rfl
  unfold answers
  rw [hcalls, List.foldl_append, List.foldl_cons, hget, List.drop_left, hresponses]
  rcases hnew with ⟨-, hqueue, rfl⟩ | ⟨-, hqueue, hnew⟩ | ⟨-, hqueue, front, res, temperature, rfl, hfront⟩
  · right
    refine ⟨-16, none, hput _ _ _, by rwa [hqueue], ?_⟩
    rw [responsesOf_put, if_pos hshared]
    rfl
  · left
    exact ⟨foldl_answer_other hnew _, by rw [hqueue, hshared], responsesOf_other hnew⟩
  · right
    refine ⟨res, temperature, ?_, by rw [hqueue]; simp, ?_⟩
    · rw [List.foldl_append, foldl_answer_other hfront]
      exact hput _ _ _
    · rw [responsesOf_append, responsesOf_other hfront, responsesOf_put, if_pos hshared]
      rfl

/-! ## The stages -/

section
variable {s : Readers ι κ} {stage : Stage}

omit [DecidableEq ι] in
/-- **A step of the thread** that takes no request for the queue. -/
theorem Readers.At.moved (h : s.At shared stage) {thread : OneWireState κ} (hmoves : Answers s.thread.self thread.self)
    {queue : List (OneWireMessage κ)} (hqueue : queue.filterMap (·.request? shared) = s.queue.filterMap (·.request? shared)) :
    ∃ stage', Readers.At shared { s with
        thread, queue
        responseQueue := s.responseQueue ++ responsesOf shared (thread.self.calls.drop s.thread.self.calls.length) } stage' ∧
      stage.Follows stage' := by
  have hanswers := h.answers
  rcases @Answers.answers_eq _ _ shared _ _ hmoves with ⟨hcalls, hresponseQueue, hnew⟩ |
    ⟨other, res, temperature, hresponseQueue, hnone, hcalls, hnew⟩
  · refine ⟨stage, ⟨hqueue.trans h.requests, ?_, hcalls.trans hanswers, ?_⟩, .same stage⟩
    · rw [← h.active, hresponseQueue]
    · show s.responseQueue ++ _ = _
      rw [hnew, List.append_nil, h.responses]
  by_cases hother : other = shared
  · subst hother
    have hactive := h.active.mp hresponseQueue
    rw [if_pos rfl] at hcalls hnew
    cases stage with
    | active slaveId =>
      refine ⟨.answered slaveId res temperature, ⟨hqueue.trans h.requests, ?_, ?_, ?_⟩, .served slaveId res temperature⟩
      · rw [hnone]
        exact iff_of_false (by simp) (by simp [Stage.pending])
      · rw [hcalls, hanswers]
        simp [Stage.pending, Stage.unreturned]
      · show s.responseQueue ++ _ = _
        rw [hnew, h.responses]
        rfl
    | free | queued | answered | taken => cases hactive
  · rw [if_neg hother] at hcalls hnew
    refine ⟨stage, ⟨hqueue.trans h.requests, ?_, hcalls.trans hanswers, ?_⟩, .same stage⟩
    · rw [← h.active, hnone, hresponseQueue]
      exact iff_of_false (by simp) fun heq => hother (Option.some_inj.mp heq)
    · show s.responseQueue ++ _ = _
      rw [hnew, List.append_nil, h.responses]

omit [DecidableEq κ] in
theorem moves_handleQueue (m : OneWire κ) {message : OneWireMessage κ} (h : ∀ request, message ≠ .readTemperature request)
    (errno : Option ℕ+) : Moves m (m.handleQueue message errno) := by
  have hget : Moves m (m.call (.get message)) := by
    refine .inl (OneWire.answers_call ?_)
    cases message with
    | readTemperature request => exact absurd rfl (h request)
    | timeout | other => rfl
  cases message with
  | readTemperature request => exact absurd rfl (h request)
  | timeout =>
    exact hget.trans (OneWire.moves_handleTimeout _ errno) fun hcrashed =>
      OneWire.crashed_sent (OneWire.crashed_sendNlMessage hcrashed _ errno) _ _
  | other => exact hget

variable [Host] {id : RegNum}

/-- **A step of the thread.** -/
theorem Readers.At.thread_step (h : s.At shared stage) {l : OneWireLabel κ} (hhead : ∀ message ∈ l.message?, s.queue.head? = some message)
    (hcrashed : ((oneWire id).next s.thread l).self.crashed = false) :
    ∃ stage', ((temperatureReaders shared id).next s (.thread l)).At shared stage' ∧ stage.Follows stage' := by
  have hanswers {m : OneWire κ} (hmoves : Moves s.thread.self m) (hm : m.crashed = false) : Answers s.thread.self m :=
    hmoves.resolve_right (by rw [hm]; simp)
  cases l with
  | queue message errno =>
    obtain ⟨rest, hqueue⟩ : ∃ rest, s.queue = message :: rest := by
      have := hhead message rfl
      cases hq : s.queue with
      | nil => rw [hq] at this; cases this
      | cons first rest =>
        rw [hq] at this
        obtain rfl := Option.some_inj.mp this
        exact ⟨rest, rfl⟩
    have htail : ((temperatureReaders shared id).next s (.thread (.queue message errno))).queue = rest := by
      show s.queue.tail = rest
      rw [hqueue]
      rfl
    have hrequests := h.requests
    rw [hqueue] at hrequests
    by_cases hrequest : ∀ request, message ≠ .readTemperature request
    · have hnone : message.request? shared = none := by
        cases message with
        | readTemperature request => exact absurd rfl (hrequest request)
        | timeout | other => rfl
      refine h.moved (hanswers (moves_handleQueue _ hrequest errno) hcrashed) ?_
      rw [hqueue, List.filterMap_cons_none hnone]
      rfl
    push Not at hrequest
    obtain ⟨request, rfl⟩ := hrequest
    by_cases hshared : request.responseQueue = shared
    · have hsome : (OneWireMessage.readTemperature request).request? shared = some request.slaveId := if_pos hshared
      rw [List.filterMap_cons_some hsome] at hrequests
      cases stage with
      | queued slaveId =>
        obtain ⟨rfl, hrest⟩ := List.cons.inj hrequests
        have hfree : s.thread.self.responseQueue ≠ some shared := fun heq => by cases h.active.mp heq
        have hserved := h.answers
        rcases handleQueue_shared s.thread.self hshared hfree errno with ⟨hcalls, hactive, hnew⟩ | ⟨res, temperature, hcalls, hactive, hnew⟩
        · refine ⟨.active request.slaveId, ⟨?_, iff_of_true hactive rfl, ?_, ?_⟩, .accepted _⟩
          · rw [htail]
            exact hrest
          · exact hcalls.trans (by rw [hserved]; rfl)
          · show s.responseQueue ++ _ = _
            exact (congrArg _ hnew).trans (by rw [h.responses]; rfl)
        · refine ⟨.answered request.slaveId res temperature, ⟨?_, iff_of_false hactive (by simp [Stage.pending]), ?_, ?_⟩, .refused _ _ _⟩
          · rw [htail]
            exact hrest
          · refine hcalls.trans ?_
            rw [hserved]
            show (none, s.returned.map Prod.snd ++ [] ++ _) = (none, s.returned.map Prod.snd ++ _)
            rw [List.append_nil]
            rfl
          · show s.responseQueue ++ _ = _
            exact (congrArg _ hnew).trans (by rw [h.responses]; rfl)
      | free | active | answered | taken => cases hrequests
    · have hnone : (OneWireMessage.readTemperature request).request? shared = none := if_neg hshared
      rw [List.filterMap_cons_none hnone] at hrequests
      obtain ⟨hcalls, hactive, hnew⟩ := handleQueue_other s.thread.self hshared errno
      refine ⟨stage, ⟨?_, hactive.trans h.active, hcalls.trans h.answers, ?_⟩, .same stage⟩
      · rw [htail]
        exact hrequests
      · show s.responseQueue ++ _ = _
        exact (congrArg _ hnew).trans (by rw [List.append_nil, h.responses])
  | datagram cnMsg => exact h.moved (hanswers (OneWire.moves_handleMessageDone _ cnMsg) hcrashed) rfl
  | ignored => exact h.moved (.refl _) rfl
  | readFails => exact @Readers.At.moved _ _ _ _ _ _ h { s.thread with running := false } (.refl _) _ rfl

end

/-! ## Runs -/

section
variable [Host] {id : RegNum} {s : Readers ι κ}

theorem readers_start : ((temperatureReaders shared id).start : Readers ι κ).Inv shared where
  holding _ h := h.elim
  stage := ⟨.free, ⟨rfl, iff_of_false (by simp [temperatureReaders, mlOneWireInit]) (by simp [Stage.pending]), rfl, rfl⟩, rfl⟩

omit [Host] in
/-- The callers other than one that does not take the mutex. -/
theorem Readers.Inv.holding_update (h : s.Inv shared) (i : ι) {pc : CallerPc} (hpc : pc.Holding → (s.caller i).Holding) :
    ∀ j, (Function.update s.caller i pc j).Holding → s.mutex = some j := by
  intro j hj
  rcases eq_or_ne j i with rfl | hne
  · rw [Function.update_self] at hj
    exact h.holding j (hpc hj)
  · rw [Function.update_of_ne hne] at hj
    exact h.holding j hj

omit [Host] in
/-- The owner of the mutex makes a step. -/
theorem Readers.Inv.owner_step (h : s.Inv shared) {i : ι} (hi : (s.caller i).Holding) (pc : CallerPc) :
    (∃ stage, s.At shared stage ∧ stage.Agrees (s.caller i)) ∧ s.mutex = some i ∧
      ∀ j, (Function.update s.caller i pc j).Holding → s.mutex = some j := by
  have hmutex := h.holding i hi
  obtain ⟨stage, hat, hagrees⟩ := h.stage
  rw [hmutex] at hagrees
  refine ⟨⟨stage, hat, hagrees⟩, hmutex, h.holding_update i fun _ => hi⟩

/-- **A step keeps each request with its caller.** -/
theorem Readers.Inv.step (h : s.Inv shared) {l : ReaderLabel ι κ} (he : (temperatureReaders shared id).enabled s l)
    (hcrashed : ((temperatureReaders shared id).next s l).thread.self.crashed = false) :
    ((temperatureReaders shared id).next s l).Inv shared := by
  obtain ⟨-, he⟩ := he
  cases l with
  | call i slaveId =>
    obtain ⟨stage, hat, hagrees⟩ := h.stage
    refine ⟨h.holding_update i fun hpc => hpc.elim, stage, ⟨hat.requests, hat.active, hat.answers, hat.responses⟩, ?_⟩
    show match s.mutex with | none => _ | some j => stage.Agrees (Function.update s.caller i _ j)
    cases hmutex : s.mutex with
    | none =>
      rw [hmutex] at hagrees
      exact hagrees
    | some j =>
      rw [hmutex] at hagrees
      dsimp only at hagrees ⊢
      rcases eq_or_ne j i with rfl | hne
      · rw [show s.caller j = .idle from he] at hagrees
        cases stage <;> exact hagrees.elim
      · rwa [Function.update_of_ne hne]
  | lock i =>
    obtain ⟨hfree, slaveId, hcaller⟩ := he
    obtain ⟨stage, hat, hagrees⟩ := h.stage
    rw [hfree] at hagrees
    obtain rfl : stage = .free := hagrees
    have hnext : (temperatureReaders shared id).next s (.lock i) =
        { s with mutex := some i, caller := Function.update s.caller i (.putting slaveId) } := by
      show (match s.caller i with | .locking slaveId => _ | _ => s) = _
      rw [hcaller]
    rw [hnext]
    refine ⟨fun j hj => ?_, .free, ⟨hat.requests, hat.active, hat.answers, hat.responses⟩, ?_⟩
    · rcases eq_or_ne j i with rfl | hne
      · rfl
      · have hholding := h.holding j (by simpa [Function.update_of_ne hne] using hj)
        rw [hfree] at hholding
        cases hholding
    · show Stage.free.Agrees (Function.update s.caller i _ i)
      rw [Function.update_self]
      trivial
  | put i =>
    obtain ⟨-, slaveId, hcaller⟩ := he
    obtain ⟨⟨stage, hat, hagrees⟩, hmutex, hholding⟩ := h.owner_step (i := i) (by rw [hcaller]; trivial) (.getting slaveId)
    have hnext : (temperatureReaders shared id).next s (.put i) = { s with
        queue := s.queue ++ [.readTemperature ⟨slaveId, shared⟩], caller := Function.update s.caller i (.getting slaveId) } := by
      show (match s.caller i with | .putting slaveId => _ | _ => s) = _
      rw [hcaller]
    rw [hcaller] at hagrees
    cases stage with
    | free =>
      have hsome : (OneWireMessage.readTemperature ⟨slaveId, shared⟩).request? shared = some slaveId := if_pos rfl
      have hrequests := hat.requests
      rw [hnext]
      refine ⟨hholding, .queued slaveId, ⟨?_, hat.active, hat.answers, hat.responses⟩, ?_⟩
      · show (s.queue ++ [_]).filterMap _ = _
        rw [List.filterMap_append, hrequests, List.filterMap_cons_some hsome]
        rfl
      · show match s.mutex with | none => _ | some j => (Stage.queued slaveId).Agrees (Function.update s.caller i _ j)
        rw [hmutex]
        dsimp only
        rw [Function.update_self]
        rfl
    | queued | active | answered | taken => exact hagrees.elim
  | get i =>
    obtain ⟨hnonempty, slaveId, hcaller⟩ := he
    obtain ⟨⟨res, temperature⟩, responses, hresponses⟩ := List.exists_cons_of_ne_nil hnonempty
    obtain ⟨⟨stage, hat, hagrees⟩, hmutex, hholding⟩ := h.owner_step (i := i) (by rw [hcaller]; trivial)
      (.unlocking slaveId res temperature)
    have hnext : (temperatureReaders shared id).next s (.get i) = { s with
        responseQueue := responses, caller := Function.update s.caller i (.unlocking slaveId res temperature) } := by
      show (match s.caller i, s.responseQueue with | .getting slaveId, (res, temperature) :: responses => _ | _, _ => s) = _
      rw [hcaller, hresponses]
    have hstage := hat.responses
    rw [hresponses] at hstage
    rw [hcaller] at hagrees
    cases stage with
    | answered slaveId' res' temperature' =>
      obtain rfl : slaveId' = slaveId := hagrees
      obtain ⟨hpair, rfl⟩ := List.cons.inj hstage
      obtain ⟨rfl, rfl⟩ := Prod.mk.inj hpair
      rw [hnext]
      refine ⟨hholding, .taken slaveId' res temperature, ⟨hat.requests, hat.active, hat.answers, rfl⟩, ?_⟩
      show match s.mutex with | none => _ | some j => (Stage.taken ..).Agrees (Function.update s.caller i _ j)
      rw [hmutex]
      dsimp only
      rw [Function.update_self]
      exact ⟨rfl, rfl, rfl⟩
    | free | queued | active | taken => cases hstage
  | unlock i =>
    obtain ⟨slaveId, res, temperature, hcaller⟩ := he
    obtain ⟨⟨stage, hat, hagrees⟩, hmutex, -⟩ := h.owner_step (i := i) (by rw [hcaller]; trivial) .idle
    have hnext : (temperatureReaders shared id).next s (.unlock i) = { s with
        mutex := none, caller := Function.update s.caller i .idle
        returned := s.returned ++ [(i, ⟨some slaveId, res, temperature⟩)] } := by
      show (match s.caller i with | .unlocking slaveId res temperature => _ | _ => s) = _
      rw [hcaller]
    rw [hcaller] at hagrees
    cases stage with
    | taken slaveId' res' temperature' =>
      obtain ⟨rfl, rfl, rfl⟩ := hagrees
      have hanswers := hat.answers
      rw [hnext]
      refine ⟨fun j hj => ?_, .free, ⟨hat.requests, hat.active, ?_, hat.responses⟩, rfl⟩
      · rcases eq_or_ne j i with rfl | hne
        · have hidle : Function.update s.caller j CallerPc.idle j = .idle := Function.update_self ..
          exact (hidle ▸ (hj : (Function.update s.caller j CallerPc.idle j).Holding) : CallerPc.idle.Holding).elim
        · have hj' := h.holding j (by simpa [Function.update_of_ne hne] using hj)
          exact absurd (Option.some_inj.mp (hj'.symm.trans hmutex)) hne
      · rw [hanswers]
        simp [Stage.pending, Stage.unreturned]
    | free | queued | active | answered => exact hagrees.elim
  | post message =>
    obtain ⟨stage, hat, hagrees⟩ := h.stage
    refine ⟨h.holding, stage, ⟨?_, hat.active, hat.answers, hat.responses⟩, hagrees⟩
    show (s.queue ++ [message]).filterMap _ = _
    rw [List.filterMap_append, List.filterMap_cons_none he.2, hat.requests]
    exact List.append_nil _
  | thread l =>
    obtain ⟨stage, hat, hagrees⟩ := h.stage
    obtain ⟨stage', hat', hfollows⟩ := hat.thread_step he.2 hcrashed
    refine ⟨h.holding, stage', hat', ?_⟩
    show match s.mutex with | none => _ | some j => stage'.Agrees (s.caller j)
    cases hmutex : s.mutex with
    | none =>
      rw [hmutex] at hagrees
      obtain rfl : stage = .free := hagrees
      exact hfollows.eq_free
    | some j =>
      rw [hmutex] at hagrees
      exact hfollows.agrees hagrees

theorem readers_inv {tr : List (ReaderLabel ι κ)} (hr : (temperatureReaders shared id).Run tr s)
    (hcrashed : s.thread.self.crashed = false) : s.Inv shared := by
  induction hr with
  | nil => exact readers_start
  | snoc l hr he ih => exact (ih he.1).step he hcrashed

/-- **Each caller returns the answer to its own request**: what was returned is what was answered, in order, except for
the answer that the owner of the mutex has yet to return. -/
theorem own_response {tr : List (ReaderLabel ι κ)} (hr : (temperatureReaders shared id).Run tr s)
    (hcrashed : s.thread.self.crashed = false) :
    (∃ unreturned, (answers shared s.thread.self.calls).2 = s.returned.map Prod.snd ++ unreturned ∧ unreturned.length ≤ 1 ∧
      (s.mutex = none → unreturned = [] ∧ (answers shared s.thread.self.calls).1 = none ∧ s.responseQueue = [])) ∧
    s.responseQueue.length ≤ 1 ∧ ∀ i j, (s.caller i).Holding → (s.caller j).Holding → i = j := by
  have hinv := readers_inv hr hcrashed
  obtain ⟨stage, hat, hagrees⟩ := hinv.stage
  refine ⟨⟨stage.unreturned, congrArg Prod.snd hat.answers, ?_, fun hfree => ?_⟩, ?_, fun i j hi hj => ?_⟩
  · cases stage <;> simp [Stage.unreturned]
  · rw [hfree] at hagrees
    obtain rfl : stage = .free := hagrees
    exact ⟨rfl, congrArg Prod.fst hat.answers, hat.responses⟩
  · rw [hat.responses]
    cases stage <;> simp [Stage.responses]
  · exact Option.some_inj.mp ((hinv.holding i hi).symm.trans (hinv.holding j hj))

end

end

/-! ## An example -/

section

local instance clientsHost : Host := ⟨true⟩

namespace CallerPc

instance (pc : CallerPc) : Decidable (∃ slaveId, pc = .locking slaveId) :=
  match pc with
  | .locking slaveId => isTrue ⟨slaveId, rfl⟩
  | .idle | .putting _ | .getting _ | .unlocking .. => isFalse (by rintro ⟨_, h⟩; cases h)

instance (pc : CallerPc) : Decidable (∃ slaveId, pc = .putting slaveId) :=
  match pc with
  | .putting slaveId => isTrue ⟨slaveId, rfl⟩
  | .idle | .locking _ | .getting _ | .unlocking .. => isFalse (by rintro ⟨_, h⟩; cases h)

instance (pc : CallerPc) : Decidable (∃ slaveId, pc = .getting slaveId) :=
  match pc with
  | .getting slaveId => isTrue ⟨slaveId, rfl⟩
  | .idle | .locking _ | .putting _ | .unlocking .. => isFalse (by rintro ⟨_, h⟩; cases h)

instance (pc : CallerPc) : Decidable (∃ slaveId res temperature, pc = .unlocking slaveId res temperature) :=
  match pc with
  | .unlocking slaveId res temperature => isTrue ⟨slaveId, res, temperature, rfl⟩
  | .idle | .locking _ | .putting _ | .getting _ => isFalse (by rintro ⟨_, _, _, h⟩; cases h)

end CallerPc

/-- The callers share the queue 0. -/
abbrev twoReaders : System (Readers Bool ℕ) (ReaderLabel Bool ℕ) := temperatureReaders 0 ⟨0, 0, 0⟩

instance (s : Readers Bool ℕ) (l : ReaderLabel Bool ℕ) : Decidable (twoReaders.enabled s l) := by
  unfold twoReaders temperatureReaders
  cases l <;> infer_instance

/-- A thread with the queue 7 is served while both call: the first of them is refused. -/
def readersTurns : List (ReaderLabel Bool ℕ) :=
  [.post (.readTemperature ⟨0x280000055d329533, 7⟩), .thread (readTemperature 7), .call true 1, .call false 2, .lock false,
    .put false, .thread (.queue (.readTemperature ⟨2, 0⟩) none), .get false, .unlock false, .lock true]

theorem own_response_refused : ∃ s : Readers Bool ℕ, s.returned = [(false, ⟨some 2, -16, none⟩)] ∧ s.mutex = some true ∧
    ∃ unreturned, (answers 0 s.thread.self.calls).2 = s.returned.map Prod.snd ++ unreturned ∧ unreturned.length ≤ 1 := by
  have hreached : ∃ s, twoReaders.Run readersTurns s ∧ s.thread.self.crashed = false ∧
      s.returned = [(false, ⟨some 2, -16, none⟩)] ∧ s.mutex = some true :=
    ⟨_, (System.path_of_runs (by decide +kernel)).run, by decide +kernel⟩
  obtain ⟨s, hrun, hcrashed, hreturned, hmutex⟩ := hreached
  obtain ⟨⟨unreturned, hanswers, hlength, -⟩, -⟩ := own_response hrun hcrashed
  exact ⟨s, hreturned, hmutex, unreturned, hanswers, hlength⟩

end

end Monolinux
