import Monolinux.Lib.Linux
import Monolinux.Errors
import Monolinux.Ntp.Time

/-!
# Synchronisation with an NTP server

`mlNtpClientSync` tries the servers that `getaddrinfo()` returned, one after the other,
until one of them answers and the clock is set.  A `Server` is an address with all that
the calls made for it return, so that any list of servers is any behaviour of them.

An attempt either sets the clock to the transmit time of the reply or ends with a
negative value (`Server.outcome`, `trySyncWithServer_spec`).  Over the whole list the
first server that can be synchronised with decides (`mlNtpClientSync_first`); if there is
none, the clock stays (`mlNtpClientSync_none`).  Every socket is closed, and the list is
freed once.

A `write()` of a part of the request does not set `errno`.  If it is 0, the request counts as
sent, and a reply sets the clock; that is all that goes wrong (`mlNtpClientSync_iff`).
-/

namespace Monolinux

def NTP_VERSION : UInt8 := 4

def NTP_MODE_CLIENT : UInt8 := 3

def NTP_MODE_SERVER : UInt8 := 4

def NTP_PACKET_MIN : ℕ := 48

def NTP_PACKET_MAX : ℕ := 68

/-! ## Servers -/

/-- What is used of `struct addrinfo`. -/
structure AddrInfo where
  family : ℤ
  socktype : ℤ
  protocol : ℤ
  addr : List UInt8
  deriving DecidableEq

inductive WriteOutcome
  | failed (errno : ℕ+)
  /-- this many bytes were written, and `errno` is what it is then -/
  | wrote (count errno : ℕ)

/-- An address, and how the calls go that are made for it.  A call that fails sets `errno`. -/
structure Server where
  info : AddrInfo
  /-- the number of the descriptor -/
  socket : Except ℕ+ ℕ
  connect : Bool
  write : WriteOutcome
  /-- the number of descriptors that are ready -/
  poll : Except ℕ+ ℕ
  /-- the datagram, of which as much is read as there is room for -/
  read : Except ℕ+ (List UInt8)
  clockSettime : Bool

/-- The process and its machine. -/
structure NtpWorld where
  sockets : Descriptors AddrInfo
  /-- what the clock was set to, in order -/
  clock : List Timespec
  /-- the addresses that were tried -/
  contacted : List AddrInfo
  /-- the requests that were handed to `write()` -/
  requests : List (List UInt8)
  /-- calls of `freeaddrinfo()` -/
  freed : ℕ

/-! ## The code -/

/-- The buffer of `send_request()`. -/
def ntpRequest : List UInt8 := (List.replicate NTP_PACKET_MIN 0).set 0 (NTP_VERSION <<< 3 ||| NTP_MODE_CLIENT)

/-- `&buf[32]`, the transmit time. -/
def transmitTime (buf : List UInt8) (h : NTP_PACKET_MIN ≤ buf.length) : Vector UInt8 8 :=
  Vector.ofFn fun i => buf.get ⟨32 + i, by unfold NTP_PACKET_MIN at h; omega⟩

/-- `receive_response()`: the time, or the value that is returned. -/
def receiveResponse (s : Server) : Except ℤ Timespec :=
  match s.poll with
  | .error errno => .error (-errno)
  | .ok ready =>
    if ready ≠ 1 then .error (-ETIMEDOUT)
    else
      match s.read with
      | .error errno => .error (-errno)
      | .ok datagram =>
        let buf := datagram.take NTP_PACKET_MAX
        if h : buf.length < NTP_PACKET_MIN then .error (-EPROTO)
        else if (buf.headD 0) &&& 0x07 ≠ NTP_MODE_SERVER then .error (-EPROTO)
        else if (buf.headD 0 >>> 3) &&& 0x07 ≠ NTP_VERSION then .error (-EPROTO)
        else .ok (ntpTimeToTimespec (transmitTime buf (Nat.not_lt.mp h)))

namespace NtpWorld

variable (w : NtpWorld)

def sendRequest (s : Server) : ℤ × NtpWorld :=
  let w := { w with requests := w.requests ++ [ntpRequest] }
  match s.write with
  | .failed errno => (-errno, w)
  | .wrote count errno => if count ≠ NTP_PACKET_MIN then (-errno, w) else (0, w)

def setClock (s : Server) (ts : Timespec) : ℤ × NtpWorld :=
  if s.clockSettime then (0, { w with clock := w.clock ++ [ts] }) else (-1, w)

def trySync (s : Server) : ℤ × NtpWorld :=
  let (res, w) := w.sendRequest s
  if res ≠ 0 then (res, w)
  else
    match receiveResponse s with
    | .error res => (res, w)
    | .ok ts => w.setClock s ts

def close (sock : ℕ) : NtpWorld := { w with sockets := w.sockets.close sock }

def trySyncWithServer (s : Server) : ℤ × NtpWorld :=
  let w := { w with contacted := w.contacted ++ [s.info] }
  match s.socket with
  | .error errno => (-errno, w)
  | .ok n =>
    let sock := w.sockets.pick n
    let w := { w with sockets := w.sockets.create s.info n }
    let (res, w) := if s.connect then w.trySync s else (-1, w)
    (res, w.close sock)

end NtpWorld

/-- The loop of `ml_ntp_client_sync()`. -/
def trySyncWithServers : NtpWorld → ℤ → List Server → ℤ × NtpWorld
  | w, res, [] => (res, w)
  | w, _, s :: servers =>
    let (res, w) := w.trySyncWithServer s
    if res = 0 then (res, w) else trySyncWithServers w res servers

/-- `infolist` is what `getaddrinfo()` returned, `none` if it failed. -/
def mlNtpClientSync (w : NtpWorld) (infolist : Option (List Server)) : ℤ × NtpWorld :=
  match infolist with
  | none => (-EGENERAL, w)
  | some servers =>
    let (res, w) := trySyncWithServers w (-EGENERAL) servers
    (res, { w with freed := w.freed + 1 })

/-! ## One attempt -/

/-- Only a part of the request was written, and `errno` is 0. -/
def WriteOutcome.Silent : WriteOutcome → Prop
  | .failed _ => False
  | .wrote count errno => count ≠ NTP_PACKET_MIN ∧ errno = 0

/-- All steps but that of the request succeed, and this is the reply: long enough, of a server, of version 4. -/
structure Server.Answers (s : Server) (reply : List UInt8) : Prop where
  socket : ∃ n, s.socket = .ok n
  connect : s.connect = true
  poll : s.poll = .ok 1
  read : s.read = .ok reply
  size : NTP_PACKET_MIN ≤ reply.length
  mode : reply.headD 0 &&& 0x07 = NTP_MODE_SERVER
  version : (reply.headD 0 >>> 3) &&& 0x07 = NTP_VERSION
  clockSettime : s.clockSettime = true

/-- All steps succeed. -/
structure Server.Succeeds (s : Server) (reply : List UInt8) : Prop extends s.Answers reply where
  write : ∃ errno, s.write = .wrote NTP_PACKET_MIN errno

/-- The steps that are looked at succeed. -/
structure Server.Passes (s : Server) (reply : List UInt8) : Prop extends s.Answers reply where
  write : (∃ errno, s.write = .wrote NTP_PACKET_MIN errno) ∨ s.write.Silent

/-- The request went out as far as is looked at. -/
structure Server.Sent (s : Server) : Prop where
  socket : ∃ n, s.socket = .ok n
  connect : s.connect = true
  write : (∃ errno, s.write = .wrote NTP_PACKET_MIN errno) ∨ s.write.Silent

/-- A reply that is taken. -/
def Server.GoodReply (reply : List UInt8) : Prop :=
  NTP_PACKET_MIN ≤ reply.length ∧ reply.headD 0 &&& 0x07 = NTP_MODE_SERVER ∧ (reply.headD 0 >>> 3) &&& 0x07 = NTP_VERSION

/-- The first step that fails has this value. -/
inductive Server.FailsWith (s : Server) : ℤ → Prop
  | socket {errno : ℕ+} (h : s.socket = .error errno) : FailsWith s (-errno)
  | connect {n : ℕ} (hsocket : s.socket = .ok n) (h : s.connect = false) : FailsWith s (-1)
  | write {n : ℕ} {errno : ℕ+} (hsocket : s.socket = .ok n) (hconnect : s.connect = true) (h : s.write = .failed errno) :
      FailsWith s (-errno)
  | part {n count errno : ℕ} (hsocket : s.socket = .ok n) (hconnect : s.connect = true) (h : s.write = .wrote count errno)
      (hcount : count ≠ NTP_PACKET_MIN) (herrno : errno ≠ 0) : FailsWith s (-errno)
  | poll {errno : ℕ+} (hsent : s.Sent) (h : s.poll = .error errno) : FailsWith s (-errno)
  | timeout {ready : ℕ} (hsent : s.Sent) (h : s.poll = .ok ready) (hready : ready ≠ 1) : FailsWith s (-ETIMEDOUT)
  | read {errno : ℕ+} (hsent : s.Sent) (hpoll : s.poll = .ok 1) (h : s.read = .error errno) : FailsWith s (-errno)
  | reply {reply : List UInt8} (hsent : s.Sent) (hpoll : s.poll = .ok 1) (hread : s.read = .ok reply)
      (h : ¬GoodReply reply) : FailsWith s (-EPROTO)
  | clock {reply : List UInt8} (hsent : s.Sent) (hpoll : s.poll = .ok 1) (hread : s.read = .ok reply)
      (hreply : GoodReply reply) (h : s.clockSettime = false) : FailsWith s (-1)

/-- `ts` is the time in the bytes 32 to 39 of the reply. -/
def IsTransmitTime (reply : List UInt8) (ts : Timespec) : Prop :=
  ∃ time : Vector UInt8 8, time.toList = (reply.drop 32).take 8 ∧
    ts.sec.toInt = (eraSeconds time : ℤ) - 2208988800 ∧ ts.nsec.toInt = (ntpFraction time * 10 ^ 9 / 2 ^ 32 : ℕ)

/-- What `send_request()` returns. -/
def WriteOutcome.value : WriteOutcome → ℤ
  | .failed errno => -errno
  | .wrote count errno => if count ≠ NTP_PACKET_MIN then -errno else 0

/-- What the exchange of packets comes to: the time the clock is set to, or the negative value of the step that
fails. -/
def Server.exchange (s : Server) : Except ℤ Timespec :=
  if s.write.value ≠ 0 then .error s.write.value
  else
    match receiveResponse s with
    | .error res => .error res
    | .ok ts => if s.clockSettime then .ok ts else .error (-1)

/-- What an attempt comes to. -/
def Server.outcome (s : Server) : Except ℤ Timespec :=
  match s.socket with
  | .error errno => .error (-errno)
  | .ok _ => if s.connect then s.exchange else .error (-1)

/-- The value of an attempt. -/
def attemptValue : Except ℤ Timespec → ℤ
  | .error res => res
  | .ok _ => 0

/-- The times an attempt sets the clock to. -/
def attemptTimes : Except ℤ Timespec → List Timespec
  | .error _ => []
  | .ok ts => [ts]

section
variable {s : Server} {ts : Timespec} {res : ℤ}

theorem receiveResponse_neg (h : receiveResponse s = .error res) : res < 0 := by
  unfold receiveResponse at h
  split at h
  · obtain rfl := Except.error.inj h
    exact neg_errno_neg _
  · split at h
    · obtain rfl := Except.error.inj h
      decide
    · split at h
      · obtain rfl := Except.error.inj h
        exact neg_errno_neg _
      · -- the datagram is too short, of a wrong mode or of a wrong version
        simp only at h
        repeat' split at h
        all_goals cases h
        all_goals decide

/-- What is cut off a datagram lies behind its transmit time. -/
theorem transmitTime_take {reply : List UInt8} (h : NTP_PACKET_MIN ≤ (reply.take NTP_PACKET_MAX).length)
    (h' : NTP_PACKET_MIN ≤ reply.length) : transmitTime (reply.take NTP_PACKET_MAX) h = transmitTime reply h' := by
  unfold transmitTime
  refine congrArg Vector.ofFn (funext fun i => ?_)
  simp only [List.get_eq_getElem, List.getElem_take]

theorem length_take_max (reply : List UInt8) :
    (reply.take NTP_PACKET_MAX).length < NTP_PACKET_MIN ↔ reply.length < NTP_PACKET_MIN := by
  rw [List.length_take]
  unfold NTP_PACKET_MAX NTP_PACKET_MIN
  omega

theorem headD_take_max (reply : List UInt8) : (reply.take NTP_PACKET_MAX).headD 0 = reply.headD 0 := by
  cases reply <;> rfl

/-- The replies that are taken. -/
theorem receiveResponse_ok : receiveResponse s = .ok ts ↔ s.poll = .ok 1 ∧ ∃ reply, s.read = .ok reply ∧
    ∃ h : NTP_PACKET_MIN ≤ reply.length, reply.headD 0 &&& 0x07 = NTP_MODE_SERVER ∧
      (reply.headD 0 >>> 3) &&& 0x07 = NTP_VERSION ∧ ts = ntpTimeToTimespec (transmitTime reply h) := by
  unfold receiveResponse
  cases hpoll : s.poll with
  | error errno => simp
  | ok ready =>
    by_cases hready : ready = 1
    · subst hready
      cases hread : s.read with
      | error errno => simp
      | ok reply =>
        simp only [ne_eq, not_true_eq_false, if_false, true_and, Except.ok.injEq, exists_eq_left', headD_take_max]
        by_cases hsize : reply.length < NTP_PACKET_MIN
        · rw [dif_pos ((length_take_max reply).mpr hsize)]
          simp [Nat.not_le.mpr hsize]
        · rw [dif_neg (fun hlt => hsize ((length_take_max reply).mp hlt)), transmitTime_take _ (Nat.not_lt.mp hsize)]
          generalize reply.headD 0 = b
          by_cases hmode : b &&& 0x07 = NTP_MODE_SERVER
          · by_cases hversion : (b >>> 3) &&& 0x07 = NTP_VERSION
            · rw [if_neg (not_not.mpr hmode), if_neg (not_not.mpr hversion), Except.ok.injEq, eq_comm]
              exact ⟨fun h => ⟨Nat.not_lt.mp hsize, hmode, hversion, h⟩, fun ⟨_, _, _, h⟩ => h⟩
            · simp [hmode, hversion]
          · simp [hmode]
    · simp [hready]

theorem WriteOutcome.value_nonpos (write : WriteOutcome) : write.value ≤ 0 := by
  cases write with
  | failed errno => exact (neg_errno_neg errno).le
  | wrote count errno =>
    unfold value
    dsimp only
    split <;> omega

theorem WriteOutcome.value_eq_zero {write : WriteOutcome} :
    write.value = 0 ↔ (∃ errno, write = .wrote NTP_PACKET_MIN errno) ∨ write.Silent := by
  cases write with
  | failed errno => exact iff_of_false (neg_errno_neg errno).ne (by simp [Silent])
  | wrote count errno =>
    unfold value Silent
    dsimp only
    by_cases hcount : count = NTP_PACKET_MIN
    · simp [hcount]
    · simp [hcount]

theorem Server.exchange_neg (h : s.exchange = .error res) : res < 0 := by
  unfold Server.exchange at h
  split at h
  · next hne =>
    obtain rfl := Except.error.inj h
    have := s.write.value_nonpos
    omega
  · split at h
    · next hres =>
      obtain rfl := Except.error.inj h
      exact receiveResponse_neg hres
    · split at h
      · cases h
      · obtain rfl := Except.error.inj h
        decide

theorem Server.exchange_ok : s.exchange = .ok ts ↔
    s.write.value = 0 ∧ receiveResponse s = .ok ts ∧ s.clockSettime = true := by
  unfold Server.exchange
  by_cases hwrite : s.write.value = 0
  · cases hres : receiveResponse s with
    | error res => simp [hwrite]
    | ok time => cases hsettime : s.clockSettime <;> simp [hwrite]
  · simp [hwrite]

/-- An attempt that does not pass ends with a negative value. -/
theorem Server.outcome_neg (h : s.outcome = .error res) : res < 0 := by
  unfold Server.outcome at h
  split at h
  · obtain rfl := Except.error.inj h
    exact neg_errno_neg _
  · split at h
    · exact exchange_neg h
    · obtain rfl := Except.error.inj h
      decide

/-- An attempt sets the clock where all steps that are looked at succeed. -/
theorem Server.outcome_ok : s.outcome = .ok ts ↔
    ∃ reply, ∃ h : s.Passes reply, ts = ntpTimeToTimespec (transmitTime reply h.size) := by
  constructor
  · intro h
    unfold Server.outcome at h
    split at h
    · cases h
    · next n hsocket =>
      split at h
      · next hconnect =>
        obtain ⟨hwrite, hres, hsettime⟩ := exchange_ok.mp h
        obtain ⟨hpoll, reply, hread, hsize, hmode, hversion, hts⟩ := receiveResponse_ok.mp hres
        exact ⟨reply, ⟨⟨⟨n, hsocket⟩, hconnect, hpoll, hread, hsize, hmode, hversion, hsettime⟩,
          WriteOutcome.value_eq_zero.mp hwrite⟩, hts⟩
      · cases h
  · rintro ⟨reply, hs, rfl⟩
    obtain ⟨n, hsocket⟩ := hs.socket
    have hres := receiveResponse_ok.mpr ⟨hs.poll, reply, hs.read, hs.size, hs.mode, hs.version, rfl⟩
    unfold Server.outcome
    rw [hsocket]
    simp only [hs.connect, if_true]
    exact exchange_ok.mpr ⟨WriteOutcome.value_eq_zero.mpr hs.write, hres, hs.clockSettime⟩

/-- The values of the replies that are not taken. -/
theorem Server.Sent.fails (hsent : s.Sent) (h : receiveResponse s = .error res) : s.FailsWith res := by
  unfold receiveResponse at h
  split at h
  · next errno hpoll =>
    obtain rfl := Except.error.inj h
    exact .poll hsent hpoll
  · next ready hpoll =>
    split at h
    · next hready =>
      obtain rfl := Except.error.inj h
      exact .timeout hsent hpoll hready
    · next hready =>
      rw [not_not.mp hready] at hpoll
      split at h
      · next errno hread =>
        obtain rfl := Except.error.inj h
        exact .read hsent hpoll hread
      · next reply hread =>
        simp only [headD_take_max] at h
        -- too short, of a wrong mode or of a wrong version
        split at h
        · next hsize =>
          obtain rfl := Except.error.inj h
          exact .reply hsent hpoll hread fun hgood => absurd hgood.1 (Nat.not_le.mpr ((length_take_max reply).mp hsize))
        · split at h
          · next hmode =>
            obtain rfl := Except.error.inj h
            exact .reply hsent hpoll hread fun hgood => hmode hgood.2.1
          · split at h
            · next hversion =>
              obtain rfl := Except.error.inj h
              exact .reply hsent hpoll hread fun hgood => hversion hgood.2.2
            · cases h

/-- The value of an attempt is that of the first step that fails. -/
theorem Server.outcome_fails (h : s.outcome = .error res) : s.FailsWith res := by
  unfold Server.outcome at h
  split at h
  · next errno hsocket =>
    obtain rfl := Except.error.inj h
    exact .socket hsocket
  · next n hsocket =>
    split at h
    · next hconnect =>
      unfold Server.exchange at h
      by_cases hvalue : s.write.value = 0
      · have hsent : s.Sent := ⟨⟨n, hsocket⟩, hconnect, WriteOutcome.value_eq_zero.mp hvalue⟩
        rw [if_neg (not_not.mpr hvalue)] at h
        split at h
        · next hres =>
          obtain rfl := Except.error.inj h
          exact hsent.fails hres
        · next hres =>
          split at h
          · cases h
          · next hclock =>
            obtain rfl := Except.error.inj h
            obtain ⟨hpoll, reply, hread, hsize, hmode, hversion, -⟩ := receiveResponse_ok.mp hres
            exact .clock hsent hpoll hread ⟨hsize, hmode, hversion⟩ (Bool.eq_false_iff.mpr hclock)
      · rw [if_pos hvalue] at h
        obtain rfl := Except.error.inj h
        cases hwrite : s.write with
        | failed errno => exact .write hsocket hconnect hwrite
        | wrote count errno =>
          rw [hwrite] at hvalue
          unfold WriteOutcome.value at hvalue ⊢
          dsimp only at hvalue ⊢
          split at hvalue
          · next hcount =>
            rw [if_pos hcount]
            exact .part hsocket hconnect hwrite hcount (by omega)
          · exact absurd rfl hvalue
    · next hconnect =>
      obtain rfl := Except.error.inj h
      exact .connect hsocket (Bool.eq_false_iff.mpr hconnect)

theorem Server.Succeeds.passes {reply : List UInt8} (h : s.Succeeds reply) : s.Passes reply := ⟨h.toAnswers, .inl h.write⟩

theorem Server.Passes.succeeds {reply : List UInt8} (h : s.Passes reply) (hwrite : ¬s.write.Silent) : s.Succeeds reply :=
  ⟨h.toAnswers, h.write.resolve_right hwrite⟩

/-- The bytes that are taken are those of the transmit time. -/
theorem toList_transmitTime {reply : List UInt8} (h : NTP_PACKET_MIN ≤ reply.length) :
    (transmitTime reply h).toList = (reply.drop 32).take 8 := by
  unfold NTP_PACKET_MIN at h
  apply List.ext_getElem
  · rw [Vector.length_toList, List.length_take, List.length_drop]
    omega
  · intro i hi _
    simp [transmitTime]

theorem isTransmitTime_of_reply {reply : List UInt8} (h : NTP_PACKET_MIN ≤ reply.length) :
    IsTransmitTime reply (ntpTimeToTimespec (transmitTime reply h)) :=
  ⟨_, toList_transmitTime h, sec_ntpTimeToTimespec _, nsec_ntpTimeToTimespec _⟩

end

/-- From `w` to `w'` these addresses were tried and the clock was set to these times.  The sockets
in `l`, which are other users', are the open ones again. -/
structure Synced (l : List (ℕ × AddrInfo)) (w w' : NtpWorld) (tried : List AddrInfo) (times : List Timespec) : Prop where
  clock : w'.clock = w.clock ++ times
  contacted : w'.contacted = w.contacted ++ tried
  freed : w'.freed = w.freed
  sockets : w'.sockets.Owns l

section
variable {l : List (ℕ × AddrInfo)} {w w' w'' : NtpWorld} {tried tried' : List AddrInfo} {times times' : List Timespec}
  {s : Server}

theorem Synced.trans (h : Synced l w w' tried times) (h' : Synced l w' w'' tried' times') :
    Synced l w w'' (tried ++ tried') (times ++ times') where
  clock := by rw [h'.clock, h.clock, List.append_assoc]
  contacted := by rw [h'.contacted, h.contacted, List.append_assoc]
  freed := h'.freed.trans h.freed
  sockets := h'.sockets

/-- A request is sent, and the clock set if the exchange succeeds. -/
theorem trySync_eq (w : NtpWorld) (s : Server) : w.trySync s = (attemptValue s.exchange,
    { w with clock := w.clock ++ attemptTimes s.exchange, requests := w.requests ++ [ntpRequest] }) := by
  have hsend : w.sendRequest s = (s.write.value, { w with requests := w.requests ++ [ntpRequest] }) := by
    unfold NtpWorld.sendRequest WriteOutcome.value
    cases s.write with
    | failed errno => rfl
    | wrote count errno =>
      dsimp only
      split <;> rfl
  unfold NtpWorld.trySync Server.exchange
  rw [hsend]
  by_cases hwrite : s.write.value = 0
  · cases hres : receiveResponse s with
    | error res => simp [hwrite, attemptValue, attemptTimes]
    | ok ts => cases hsettime : s.clockSettime <;> simp [hwrite, NtpWorld.setClock, hsettime, attemptValue, attemptTimes]
  · simp [hwrite, attemptValue, attemptTimes]

/-- **One attempt.**  Its socket is closed whatever happens. -/
theorem trySyncWithServer_spec (s : Server) (hl : w.sockets.Owns l) :
    (w.trySyncWithServer s).1 = attemptValue s.outcome ∧
      Synced l w (w.trySyncWithServer s).2 [s.info] (attemptTimes s.outcome) := by
  unfold NtpWorld.trySyncWithServer Server.outcome
  cases hsocket : s.socket with
  | error errno => exact ⟨rfl, by simp [attemptTimes], rfl, rfl, hl⟩
  | ok n =>
    cases hconnect : s.connect with
    | false => exact ⟨rfl, by simp [attemptTimes, NtpWorld.close], rfl, rfl, close_create hl _ n⟩
    | true =>
      simp only [if_true]
      rw [trySync_eq]
      exact ⟨rfl, rfl, rfl, rfl, close_create hl _ n⟩

/-! ## All servers -/

theorem Synced.refl (hl : w.sockets.Owns l) : Synced l w w [] [] :=
  ⟨(List.append_nil _).symm, (List.append_nil _).symm, rfl, hl⟩

theorem trySyncWithServers_cons (w : NtpWorld) (res : ℤ) (s : Server) (servers : List Server) :
    trySyncWithServers w res (s :: servers) = if (w.trySyncWithServer s).1 = 0 then w.trySyncWithServer s
      else trySyncWithServers (w.trySyncWithServer s).2 (w.trySyncWithServer s).1 servers := rfl

/-- Servers that fail are passed over; what the last of them returned is kept. -/
theorem trySyncWithServers_front {front : List Server} (res : ℤ) (rest : List Server)
    (hfail : ∀ s ∈ front, ∀ reply, ¬s.Passes reply) (hl : w.sockets.Owns l) :
    ∃ w' res', trySyncWithServers w res (front ++ rest) = trySyncWithServers w' res' rest ∧
      Synced l w w' (front.map Server.info) [] ∧ (front = [] → res' = res) ∧
      ∀ before s, front = before ++ [s] → s.outcome = .error res' := by
  induction front generalizing w res with
  | nil => exact ⟨w, res, rfl, .refl hl, fun _ => rfl, fun before s h => absurd h.symm (by simp)⟩
  | cons s front ih =>
    obtain ⟨res₁, hres₁⟩ : ∃ res₁, s.outcome = .error res₁ := by
      cases ho : s.outcome with
      | error res₁ => exact ⟨res₁, rfl⟩
      | ok ts =>
        obtain ⟨reply, hs, -⟩ := Server.outcome_ok.mp ho
        exact absurd hs (hfail s List.mem_cons_self reply)
    obtain ⟨hvalue, hsynced⟩ := trySyncWithServer_spec (w := w) s hl
    rw [hres₁] at hvalue hsynced
    obtain ⟨w', res', hrun, hsynced', hnil, hlast⟩ := ih (w := (w.trySyncWithServer s).2) res₁
      (fun u hu => hfail u (List.mem_cons_of_mem _ hu)) hsynced.sockets
    refine ⟨w', res', ?_, hsynced.trans hsynced', fun h => absurd h (List.cons_ne_nil s front),
      fun before u hu => ?_⟩
    · have hne : (w.trySyncWithServer s).1 ≠ 0 := by
        rw [hvalue]
        exact (Server.outcome_neg hres₁).ne
      rw [List.cons_append, trySyncWithServers_cons, if_neg hne, hvalue]
      exact hrun
    · cases before with
      | nil =>
        obtain ⟨rfl, hfront⟩ := List.cons.inj hu
        rw [hnil hfront]
        exact hres₁
      | cons b before => exact hlast before u (List.cons.inj hu).2

/-- The first server that passes ends the loop. -/
theorem trySyncWithServers_success {reply : List UInt8} (hs : s.Passes reply) (res : ℤ) (rest : List Server)
    (hl : w.sockets.Owns l) : ∃ w', trySyncWithServers w res (s :: rest) = (0, w') ∧
      Synced l w w' [s.info] [ntpTimeToTimespec (transmitTime reply hs.size)] := by
  have houtcome := Server.outcome_ok.mpr ⟨reply, hs, rfl⟩
  obtain ⟨hvalue, hsynced⟩ := trySyncWithServer_spec (w := w) s hl
  rw [houtcome] at hvalue hsynced
  refine ⟨(w.trySyncWithServer s).2, ?_, hsynced⟩
  have hzero : (w.trySyncWithServer s).1 = 0 := hvalue
  rw [trySyncWithServers_cons, if_pos hzero]
  exact Prod.ext hzero rfl

/-- The first of the servers of a kind. -/
theorem exists_first {P : Server → Prop} {servers : List Server} (h : ∃ s ∈ servers, P s) :
    ∃ front s rest, servers = front ++ s :: rest ∧ (∀ u ∈ front, ¬P u) ∧ P s := by
  induction servers with
  | nil =>
    obtain ⟨s, hmem, -⟩ := h
    cases hmem
  | cons u servers ih =>
    by_cases hu : P u
    · exact ⟨[], u, servers, rfl, fun _ hmem => (by cases hmem), hu⟩
    · have hlater : ∃ s ∈ servers, P s := by
        obtain ⟨s, hmem, hs⟩ := h
        rcases List.mem_cons.mp hmem with rfl | hmem
        · exact absurd hs hu
        · exact ⟨s, hmem, hs⟩
      obtain ⟨front, s, rest, rfl, hfail, hs⟩ := ih hlater
      refine ⟨u :: front, s, rest, rfl, fun v hv => ?_, hs⟩
      rcases List.mem_cons.mp hv with rfl | hv
      · exact hu
      · exact hfail v hv

/-! ## Main results -/

/-- The sockets in `l` are other users'.  Zero is returned exactly if some server can be synchronised with; then the
clock was set once, to the transmit time of the first such server, and no later server was contacted.  Otherwise the
clock was not set, and the value of the first failing step of the last server is returned.  All sockets are closed
again, and the list is freed once. -/
structure SyncsOnce (l : List (ℕ × AddrInfo)) (w : NtpWorld) (servers : List Server) : Prop where
  zero : (mlNtpClientSync w (some servers)).1 = 0 ↔ ∃ s ∈ servers, ∃ reply, s.Succeeds reply
  first : ∀ front s rest reply, servers = front ++ s :: rest → (∀ u ∈ front, ∀ reply, ¬u.Succeeds reply) →
    s.Succeeds reply → (∃ ts, IsTransmitTime reply ts ∧ (mlNtpClientSync w (some servers)).2.clock = w.clock ++ [ts]) ∧
      (mlNtpClientSync w (some servers)).2.contacted = w.contacted ++ (front ++ [s]).map Server.info
  none : (∀ s ∈ servers, ∀ reply, ¬s.Succeeds reply) →
    (mlNtpClientSync w (some servers)).2.clock = w.clock ∧ (mlNtpClientSync w (some servers)).1 < 0 ∧
      (servers = [] → (mlNtpClientSync w (some servers)).1 = -EGENERAL) ∧
      ∀ front s, servers = front ++ [s] → s.FailsWith (mlNtpClientSync w (some servers)).1
  sockets : (mlNtpClientSync w (some servers)).2.sockets.Owns l
  freed : (mlNtpClientSync w (some servers)).2.freed = w.freed + 1

/-- No server answers a request of which only a part was sent, with `errno` 0, before one succeeds. -/
def NoSilentAnswer (servers : List Server) : Prop :=
  ∀ front s rest, servers = front ++ s :: rest → (∀ u ∈ front, ∀ reply, ¬u.Succeeds reply) → s.write.Silent →
    ∀ reply, ¬s.Answers reply

section
variable {servers front rest : List Server} {reply : List UInt8}

/-- The first server that passes sets the clock. -/
theorem mlNtpClientSync_first (hservers : servers = front ++ s :: rest) (hfail : ∀ s ∈ front, ∀ reply, ¬s.Passes reply)
    (hs : s.Passes reply) (hl : w.sockets.Owns l) :
    ∃ w', mlNtpClientSync w (some servers) = (0, { w' with freed := w'.freed + 1 }) ∧
      Synced l w w' ((front ++ [s]).map Server.info) [ntpTimeToTimespec (transmitTime reply hs.size)] := by
  subst hservers
  obtain ⟨w₁, res₁, hrun, hsynced, -⟩ := trySyncWithServers_front (-EGENERAL) (s :: rest) hfail hl
  obtain ⟨w', hrun', hsynced'⟩ := trySyncWithServers_success hs res₁ rest hsynced.sockets
  refine ⟨w', ?_, ?_⟩
  · unfold mlNtpClientSync
    simp only [hrun, hrun']
  · rw [List.map_append]
    exact hsynced.trans hsynced'

/-- No server passes. -/
theorem mlNtpClientSync_none (hfail : ∀ s ∈ servers, ∀ reply, ¬s.Passes reply) (hl : w.sockets.Owns l) :
    ∃ w' res, mlNtpClientSync w (some servers) = (res, { w' with freed := w'.freed + 1 }) ∧
      Synced l w w' (servers.map Server.info) [] ∧ res < 0 ∧ (servers = [] → res = -EGENERAL) ∧
      ∀ front s, servers = front ++ [s] → s.outcome = .error res := by
  obtain ⟨w', res, hrun, hsynced, hnil, hlast⟩ := trySyncWithServers_front (-EGENERAL) [] hfail hl
  refine ⟨w', res, ?_, hsynced, ?_, hnil, hlast⟩
  · rw [List.append_nil] at hrun
    unfold mlNtpClientSync
    simp only [hrun, trySyncWithServers]
  · rcases List.eq_nil_or_concat servers with hservers | ⟨front, s, hservers⟩
    · rw [hnil hservers]
      decide
    · rw [List.concat_eq_append] at hservers
      exact Server.outcome_neg (hlast front s hservers)

/-- Servers that do not succeed do not pass either. -/
theorem NoSilentAnswer.not_passes (h : NoSilentAnswer servers) (hservers : servers = front ++ rest)
    (hfail : ∀ u ∈ front, ∀ reply, ¬u.Succeeds reply) : ∀ u ∈ front, ∀ reply, ¬u.Passes reply := by
  intro u hu reply hpass
  obtain ⟨before, after, rfl⟩ := List.append_of_mem hu
  rw [List.append_assoc, List.cons_append] at hservers
  by_cases hsilent : u.write.Silent
  · exact h before u _ hservers (fun v hv => hfail v (List.mem_append_left _ hv)) hsilent reply hpass.toAnswers
  · exact hfail u hu reply (hpass.succeeds hsilent)

/-- Where a request of which only a part was sent is not answered, all is well. -/
theorem NoSilentAnswer.syncsOnce (h : NoSilentAnswer servers) (hl : w.sockets.Owns l) : SyncsOnce l w servers := by
  have hfirst {front rest : List Server} {s : Server} {reply : List UInt8} (hservers : servers = front ++ s :: rest)
      (hfail : ∀ u ∈ front, ∀ reply, ¬u.Succeeds reply) (hs : s.Succeeds reply) :=
    mlNtpClientSync_first hservers (h.not_passes hservers hfail) hs.passes hl
  have hset {front rest : List Server} {s : Server} {reply : List UInt8} (hservers : servers = front ++ s :: rest)
      (hfail : ∀ u ∈ front, ∀ reply, ¬u.Succeeds reply) (hs : s.Succeeds reply) :
      (∃ ts, IsTransmitTime reply ts ∧ (mlNtpClientSync w (some servers)).2.clock = w.clock ++ [ts]) ∧
        (mlNtpClientSync w (some servers)).2.contacted = w.contacted ++ (front ++ [s]).map Server.info := by
    obtain ⟨w', hrun, hsynced⟩ := hfirst hservers hfail hs
    rw [hrun]
    exact ⟨⟨_, isTransmitTime_of_reply hs.size, hsynced.clock⟩, hsynced.contacted⟩
  by_cases hsome : ∃ s ∈ servers, ∃ reply, s.Succeeds reply
  · obtain ⟨front, s, rest, hservers, hfail, reply, hs⟩ := exists_first hsome
    obtain ⟨w', hrun, hsynced⟩ := hfirst hservers (fun u hu reply hr => hfail u hu ⟨reply, hr⟩) hs
    refine ⟨?_, fun _ _ _ _ => hset, fun hnone => ?_, ?_, ?_⟩
    · rw [hrun]
      exact iff_of_true rfl hsome
    · obtain ⟨s', hmem, reply', hs'⟩ := hsome
      exact absurd hs' (hnone s' hmem reply')
    · rw [hrun]
      exact hsynced.sockets
    · rw [hrun]
      exact congrArg (· + 1) hsynced.freed
  · have hfail : ∀ s ∈ servers, ∀ reply, ¬s.Succeeds reply := fun s hmem reply hs => hsome ⟨s, hmem, reply, hs⟩
    obtain ⟨w', res, hrun, hsynced, hneg, hnil, hlast⟩ :=
      mlNtpClientSync_none (h.not_passes (List.append_nil _).symm hfail) hl
    refine ⟨?_, fun _ _ _ _ => hset, fun _ => ?_, ?_, ?_⟩
    · rw [hrun]
      exact iff_of_false hneg.ne hsome
    · rw [hrun]
      exact ⟨hsynced.clock.trans (List.append_nil _), hneg, hnil, fun front s hs => Server.outcome_fails (hlast front s hs)⟩
    · rw [hrun]
      exact hsynced.sockets
    · rw [hrun]
      exact congrArg (· + 1) hsynced.freed

/-- Where it is answered, the clock is set though no server tried has succeeded. -/
theorem SyncsOnce.noSilentAnswer (h : SyncsOnce l w servers) (hl : w.sockets.Owns l) : NoSilentAnswer servers := by
  intro front s rest hservers hfail hsilent reply hanswers
  -- the first server that passes is not behind `s`, and it does not succeed
  obtain ⟨before, p, after, hfront, hbefore, reply', hp⟩ : ∃ before p after, front ++ [s] = before ++ p :: after ∧
      (∀ u ∈ before, ¬∃ reply, u.Passes reply) ∧ ∃ reply, p.Passes reply :=
    exists_first ⟨s, List.mem_append_right _ List.mem_cons_self, reply, hanswers, .inr hsilent⟩
  have hfails : ∀ u ∈ front ++ [s], ∀ reply, ¬u.Succeeds reply := by
    intro u hu reply hs
    rcases List.mem_append.mp hu with hu | hu
    · exact hfail u hu reply hs
    · obtain rfl := List.mem_singleton.mp hu
      obtain ⟨errno, hwrite⟩ := hs.write
      rw [hwrite] at hsilent
      exact hsilent.1 rfl
  have hsplit : servers = before ++ p :: (after ++ rest) := by
    rw [hservers, List.append_cons, hfront, List.append_assoc, List.cons_append]
  obtain ⟨w', hrun, hsynced⟩ := mlNtpClientSync_first hsplit (fun u hu reply hr => hbefore u hu ⟨reply, hr⟩) hp hl
  obtain ⟨front', s', rest', hservers', hfail', reply'', hs'⟩ := exists_first (h.zero.mp (by rw [hrun]))
  have hcontacted := (h.first front' s' rest' reply'' hservers' (fun u hu reply hr => hfail' u hu ⟨reply, hr⟩) hs').2
  rw [hrun] at hcontacted
  have hsame := congrArg List.length (List.append_cancel_left (hsynced.contacted.symm.trans hcontacted))
  rw [List.length_map, List.length_map, List.length_append, List.length_append] at hsame
  obtain ⟨-, hcons⟩ := List.append_inj (hsplit.symm.trans hservers') (by simpa using hsame)
  obtain ⟨rfl, -⟩ := List.cons.inj hcons
  exact hfails p (by rw [hfront]; simp) reply'' hs'

/-- **At most one setting of the clock**, exactly where no server answers a part of a request. -/
theorem mlNtpClientSync_iff (w : NtpWorld) (servers : List Server) (hl : w.sockets.Owns l) :
    SyncsOnce l w servers ↔ NoSilentAnswer servers := ⟨fun h => h.noSilentAnswer hl, fun h => h.syncsOnce hl⟩

end

end

/-! ## One server of two does not answer in time -/

/-- A reply of a server of version 4, of the start of 1970. -/
def replyOf1970 : List UInt8 := 0x24 :: List.replicate 31 0 ++ [0x83, 0xaa, 0x7e, 0x80] ++ List.replicate 12 0

/-- A server to which `count` bytes can be written, and that answers if `answers`. -/
def serverOf1970 (count : ℕ) (answers : Bool) : Server where
  info := ⟨2, 2, 17, []⟩
  socket := .ok 3
  connect := true
  write := .wrote count 0
  poll := .ok (if answers then 1 else 0)
  read := .ok replyOf1970
  clockSettime := true

theorem serverOf1970_answers (count : ℕ) : (serverOf1970 count true).Answers replyOf1970 :=
  ⟨⟨3, rfl⟩, rfl, rfl, rfl, by decide, by decide, by decide, rfl⟩

theorem serverOf1970_silent (count : ℕ) (reply : List UInt8) : ¬(serverOf1970 count false).Answers reply :=
  fun hs => absurd hs.poll (by simp [serverOf1970])

/-- Nothing is open, and nothing was done. -/
def NtpWorld.start : NtpWorld := ⟨⟨[], []⟩, [], [], [], 0⟩

/-- The second of three servers, of which the first one does not answer. -/
theorem mlNtpClientSync_second :
    (mlNtpClientSync .start (some [serverOf1970 20 false, serverOf1970 48 true, serverOf1970 48 true])).1 = 0 ∧
    (∃ ts, IsTransmitTime replyOf1970 ts ∧
      (mlNtpClientSync .start (some [serverOf1970 20 false, serverOf1970 48 true, serverOf1970 48 true])).2.clock = [ts]) ∧
    (mlNtpClientSync .start (some [serverOf1970 20 false, serverOf1970 48 true, serverOf1970 48 true])).2.contacted.length =
      2 := by
  have hsucceeds : (serverOf1970 48 true).Succeeds replyOf1970 := ⟨serverOf1970_answers 48, 0, rfl⟩
  have hno : NoSilentAnswer [serverOf1970 20 false, serverOf1970 48 true, serverOf1970 48 true] := by
    rintro front s rest hservers hfail hsilent reply hanswers
    have hs : s ∈ [serverOf1970 20 false, serverOf1970 48 true, serverOf1970 48 true] := by rw [hservers]; simp
    simp only [List.mem_cons, List.not_mem_nil, or_false] at hs
    rcases hs with rfl | rfl | rfl
    · exact serverOf1970_silent 20 reply hanswers
    · exact hsilent.1 rfl
    · exact hsilent.1 rfl
  have hsyncs := (mlNtpClientSync_iff .start _ owns_nil).mpr hno
  obtain ⟨hclock, hcontacted⟩ := hsyncs.first [serverOf1970 20 false] (serverOf1970 48 true) [serverOf1970 48 true]
    replyOf1970 rfl (fun u hu reply hs => by
      rw [List.mem_singleton.mp hu] at hs
      exact serverOf1970_silent 20 reply hs.toAnswers) hsucceeds
  refine ⟨hsyncs.zero.mpr ⟨serverOf1970 48 true, by simp, replyOf1970, hsucceeds⟩, hclock, ?_⟩
  rw [hcontacted]
  rfl

/-- 20 bytes of the request were sent, and `errno` is 0: the clock is set. -/
theorem mlNtpClientSync_silent :
    (mlNtpClientSync .start (some [serverOf1970 20 true])).1 = 0 ∧
    (mlNtpClientSync .start (some [serverOf1970 20 true])).2.clock = [⟨0, 0⟩] ∧
    (∀ reply, ¬(serverOf1970 20 true).Succeeds reply) ∧ ¬SyncsOnce [] .start [serverOf1970 20 true] := by
  have hzero : (mlNtpClientSync .start (some [serverOf1970 20 true])).1 = 0 := by decide +kernel
  have hfails (reply : List UInt8) : ¬(serverOf1970 20 true).Succeeds reply := by
    intro hs
    obtain ⟨errno, hwrite⟩ := hs.write
    injection hwrite with hcount
    exact absurd hcount (by decide)
  refine ⟨hzero, by decide +kernel, hfails, fun h => ?_⟩
  obtain ⟨s, hmem, reply, hs⟩ := h.zero.mp hzero
  rw [List.mem_singleton.mp hmem] at hs
  exact hfails reply hs

end Monolinux
