import Mathlib.Tactic.Common
import Monolinux.Network.Interfaces

/-!
# Network interfaces of several callers

Threads that call the functions of the network module at the same time, each `ioctl()` in turn.

* `sockets_closed`: no socket is left open, and none is used that is not the caller's own;
* `flags_kept`: whoever else is at it, the flags that are written are those that are there, with
  the interface up or down;
* `settings_merged`: so it is with the link settings, if no two callers configure the link of an
  interface at the same time;
* `changes_made`: what returns zero has made all its changes, in order, and what fails the first
  part of them.

What is written is in `withUp_bit`, bit by bit, and in `EthtoolCmd.overwrite_settings`.
-/

namespace Monolinux

/-! ## All callers -/

section
variable {ι : Type} [DecidableEq ι] {inetAddr : List UInt8 → UInt32} {allowed : (ι → Option NetRequest) → NetRequest → Prop}
  {interface : List UInt8 → NetInterface} {tr : List (CallersLabel ι NetRequest NetOutcome)}
  {s : Callers ι NetKernel NetCall NetRequest (ℤ × List UInt8) NetCall.Response}

/-- How far the callers are. -/
abbrev NetCallers (ι : Type) := ι → Option (NetRequest × NetCaller)

/-- What a request does, in a run. -/
abbrev NetPost : NetRequest → NetCaller → ℤ × List UInt8 → Prop := fun _ g a => g.Returns a.1

/-- The socket of each caller. -/
def netfdOf (g : NetCallers ι) (i : ι) : Option ℕ := (g i).bind fun h => h.2.netfd

omit [DecidableEq ι] in
theorem netfdOf_some {g : NetCallers ι} {i : ι} {request : NetRequest} {h : NetCaller} (hi : g i = some (request, h)) :
    netfdOf g i = h.netfd := by
  unfold netfdOf
  rw [hi]
  rfl

/-- An answer to an `ioctl()` is kept in the flags or the settings that have been read. -/
theorem read_ioctl (h : NetCaller) (netfd : ℕ) (request : NetIoctl) (r : Except ℕ+ request.Value) :
    ∃ flags settings, h.read (.ioctl netfd request) r = { h with flags := flags, settings := settings } := by
  cases r with
  | error errno => cases request <;> exact ⟨h.flags, h.settings, rfl⟩
  | ok value =>
    cases request with
    | getFlags name =>
      simp only [NetCaller.read]
      split
      · split
        · exact ⟨some value, h.settings, rfl⟩
        · exact ⟨h.flags, h.settings, rfl⟩
      · exact ⟨h.flags, h.settings, rfl⟩
    | getSettings name =>
      simp only [NetCaller.read]
      split
      · split
        · exact ⟨h.flags, some value, rfl⟩
        · exact ⟨h.flags, h.settings, rfl⟩
      · exact ⟨h.flags, h.settings, rfl⟩
    | _ => exact ⟨h.flags, h.settings, rfl⟩

theorem netfd_after (h : NetCaller) (netfd : ℕ) (request : NetIoctl) (r : Except ℕ+ request.Value) :
    (netDiscipline.after h (.ioctl netfd request) r).netfd = h.netfd := by
  obtain ⟨flags, settings, hread⟩ := read_ioctl h netfd request r
  show (h.read (.ioctl netfd request) r).netfd = h.netfd
  rw [hread]

/-- An `ioctl()` opens and closes nothing. -/
theorem handle_descriptors (k : NetKernel) (netfd : ℕ) (request : NetIoctl) (o : NetOutcome) :
    (k.handle (.ioctl netfd request) o).1.descriptors = k.descriptors := by
  simp only [NetKernel.handle]
  split
  · rfl
  · cases request <;> rfl

theorem sockets_keeps (inetAddr : List UInt8 → UInt32) (allowed : (ι → Option NetRequest) → NetRequest → Prop) :
    Callers.Keeps NetKernel.handle allowed netDiscipline (NetRequest.first inetAddr) NetPost
      fun k (g : NetCallers ι) _ _ => k.descriptors.OwnedBy (netfdOf g) := by
  refine descriptors_keeps NetKernel.descriptors NetCaller.netfd allowed (fun _ => rfl) (fun k g c o hmay => ?_)
    fun _ _ _ hpost => hpost.netfd
  cases c with
  | socket =>
    replace hmay : g.netfd = none := hmay
    simp only [NetKernel.handle]
    cases o.errno with
    | some errno =>
      rw [after_no_socket]
      exact .keep rfl
    | none =>
      rw [after_open, hmay]
      exact .create () o.fd rfl
  | close netfd =>
    replace hmay : g.netfd = some netfd := hmay
    rw [after_close, hmay]
    exact .close netfd rfl
  | ioctl netfd request =>
    rw [netfd_after]
    exact .keep (handle_descriptors k netfd request o)

/-- **Sockets.**  At every time each caller has one socket at most, which is its own, and no other socket is open: so
none is left when nobody calls, and none was closed that was not open.  What a caller uses or closes is its own. -/
theorem sockets_closed (hr : (networkCalls inetAddr allowed interface).Run tr s) :
    ∃ netfd : ι → Option ℕ, s.kernel.descriptors.OwnedBy netfd ∧ (∀ i, s.running i = none → netfd i = none) ∧
      ∀ i request fd, (s.about i = some (request, .close fd) → netfd i = some fd) ∧
        ∀ ioctl, s.about i = some (request, .ioctl fd ioctl) → netfd i = some fd := by
  have hinit : (⟨[], []⟩ : Descriptors Unit).OwnedBy (netfdOf (fun _ : ι => none)) :=
    ⟨⟨List.nodup_nil, rfl⟩, fun fd => ⟨nofun, fun ⟨_, h⟩ => by cases h⟩, nofun⟩
  obtain ⟨g, hI, hagrees⟩ := callers_invariant (code_follows inetAddr) (sockets_keeps inetAddr allowed) hinit hr
  refine ⟨netfdOf g, hI, fun i hi => (hagrees i).fdOf_none hi, fun i request fd => ⟨fun hi => ?_, fun ioctl hi => ?_⟩⟩
  · obtain ⟨h, hg, hmay⟩ := (hagrees i).may hi
    exact (netfdOf_some hg).trans hmay
  · obtain ⟨h, hg, hmay⟩ := (hagrees i).may hi
    exact (netfdOf_some hg).trans hmay.1

/-! ## Flags and link settings -/

/-- **`IFF_UP`** is set or cleared, and the other flags stay. -/
theorem withUp_bit (up : Bool) (flags : UInt16) (n : ℕ) :
    (withUp up flags).toBitVec.getLsbD n = if n = 0 then up else flags.toBitVec.getLsbD n := by
  have hbit : (1#16).getLsbD n = decide (n = 0) := by simp
  cases up with
  | false =>
    have hwidth : flags.toBitVec.getLsbD n = true → n < 16 := BitVec.lt_of_getLsbD
    show (flags.toBitVec &&& ~~~(1#16)).getLsbD n = _
    rw [BitVec.getLsbD_and, BitVec.getLsbD_not, hbit]
    by_cases hn : n = 0
    · simp [hn]
    · simpa [hn] using hwidth
  | true =>
    show (flags.toBitVec ||| 1#16).getLsbD n = _
    rw [BitVec.getLsbD_or, hbit]
    by_cases hn : n = 0 <;> simp [hn]

theorem withUp_withUp (up : Bool) (flags : UInt16) : withUp true (withUp up flags) = withUp true flags := by
  apply UInt16.toBitVec_inj.mp
  apply BitVec.eq_of_getLsbD_eq
  intro n _
  rw [withUp_bit, withUp_bit, withUp_bit]
  by_cases hn : n = 0 <;> simp [hn]

/-- Flags that agree but for `IFF_UP` are the same when it is set or cleared. -/
theorem withUp_congr {flags flags' : UInt16} (h : withUp true flags = withUp true flags') (up : Bool) :
    withUp up flags = withUp up flags' := by
  apply UInt16.toBitVec_inj.mp
  apply BitVec.eq_of_getLsbD_eq
  intro n _
  have hn := congrArg (fun flags => flags.toBitVec.getLsbD n) h
  rw [withUp_bit, withUp_bit] at hn ⊢
  by_cases hzero : n = 0
  · simp [hzero]
  · simpa [hzero] using hn

theorem getSpeed_setSpeed (settings : EthtoolCmd) (speed : ℤ) : (settings.setSpeed speed).getSpeed = UInt32.ofInt speed := by
  unfold EthtoolCmd.getSpeed EthtoolCmd.setSpeed
  generalize UInt32.ofInt speed = v
  apply UInt32.toBitVec_inj.mp
  apply BitVec.eq_of_getLsbD_eq
  intro n hn
  simp only [UInt32.toBitVec_or, UInt32.toBitVec_shiftLeft, UInt32.toBitVec_shiftRight, UInt16.toBitVec_toUInt32,
    UInt32.toBitVec_toUInt16, BitVec.getLsbD_or]
  by_cases hlow : n < 16
  · simp [hlow, hn]
  · have hindex : 16 + (n - 16) = n := by omega
    have hhigh : n - 16 < 16 := by omega
    simp [hlow, hindex, hhigh, hn]

/-- **The link settings** that are asked for, those that are not -1, are set, and the others stay. -/
theorem EthtoolCmd.overwrite_settings (settings : EthtoolCmd) (speed duplex autoneg : ℤ) :
    (settings.overwrite speed duplex autoneg).getSpeed = (if speed = -1 then settings.getSpeed else UInt32.ofInt speed) ∧
    (settings.overwrite speed duplex autoneg).duplex = (if duplex = -1 then settings.duplex else UInt8.ofInt duplex) ∧
    (settings.overwrite speed duplex autoneg).autoneg = (if autoneg = -1 then settings.autoneg else UInt8.ofInt autoneg) ∧
    (settings.overwrite speed duplex autoneg).rest = settings.rest := by
  have hspeed := getSpeed_setSpeed settings speed
  unfold EthtoolCmd.overwrite
  simp only [ne_eq, ite_not]
  refine ⟨?_, ?_, ?_, ?_⟩
  · split_ifs
    all_goals first | rfl | exact hspeed
  all_goals split_ifs <;> rfl

theorem change_after (h : NetCaller) (c : NetCall) (r : c.Response) : (netDiscipline.after h c r).change = h.change := by
  cases c with
  | socket => cases r <;> simp
  | close => simp
  | ioctl netfd request =>
    obtain ⟨flags, settings, hread⟩ := read_ioctl h netfd request r
    show (h.read (.ioctl netfd request) r).change = h.change
    rw [hread]

/-- **What a caller has read** is what it had read before, or what it reads now for its change. -/
theorem after_seen (h : NetCaller) (c : NetCall) (r : c.Response) :
    ((netDiscipline.after h c r).flags = h.flags ∧ (netDiscipline.after h c r).settings = h.settings) ∨
    (∃ netfd up name flags, h.change = some (.up up name) ∧ (netDiscipline.after h c r).flags = some flags ∧
      (⟨c, r⟩ : (c : NetCall) × c.Response) = ⟨.ioctl netfd (.getFlags name), .ok flags⟩) ∨
    ∃ netfd name speed duplex autoneg settings, h.change = some (.link name speed duplex autoneg) ∧
      (netDiscipline.after h c r).settings = some settings ∧
      (⟨c, r⟩ : (c : NetCall) × c.Response) = ⟨.ioctl netfd (.getSettings name), .ok settings⟩ := by
  cases c with
  | socket => cases r <;> exact .inl ⟨rfl, rfl⟩
  | close => exact .inl ⟨rfl, rfl⟩
  | ioctl netfd request =>
    cases r with
    | error errno => cases request <;> exact .inl ⟨rfl, rfl⟩
    | ok value =>
      cases request with
      | getFlags name' =>
        simp only [netDiscipline, NetCaller.read]
        split
        · next up name hchange =>
          split
          · next hname =>
            subst hname
            exact .inr (.inl ⟨netfd, up, name', value, hchange, rfl, rfl⟩)
          · exact .inl ⟨rfl, rfl⟩
        · exact .inl ⟨rfl, rfl⟩
      | getSettings name' =>
        simp only [netDiscipline, NetCaller.read]
        split
        · next name speed duplex autoneg hchange =>
          split
          · next hname =>
            subst hname
            exact .inr (.inr ⟨netfd, name', speed, duplex, autoneg, value, hchange, rfl, rfl⟩)
          · exact .inl ⟨rfl, rfl⟩
        · exact .inl ⟨rfl, rfl⟩
      | _ => exact .inl ⟨rfl, rfl⟩

/-- **What the kernel does**: it opens or closes a socket, or refuses, or does what it is told. -/
theorem handle_cases (k : NetKernel) (c : NetCall) (o : NetOutcome) :
    ((∀ netfd request, c ≠ .ioctl netfd request) ∧ (k.handle c o).1.interface = k.interface ∧
      (k.handle c o).1.routes = k.routes) ∨
    ∃ netfd request, c = .ioctl netfd request ∧
      ((∃ errno, k.handle (.ioctl netfd request) o = (k, .error errno) ∧
        (errno = 17 → ∃ gateway, request = .addRoute gateway ∧ gateway ∈ k.routes)) ∨
      (k.handle (.ioctl netfd request) o = ((k.ioctl request).1, .ok (k.ioctl request).2) ∧
        ∀ gateway, request = .addRoute gateway → gateway ∉ k.routes)) := by
  cases c with
  | socket =>
    refine .inl ⟨by simp, ?_⟩
    simp only [NetKernel.handle]
    split <;> exact ⟨rfl, rfl⟩
  | close => exact .inl ⟨by simp, rfl, rfl⟩
  | ioctl netfd request =>
    refine .inr ⟨netfd, request, rfl, ?_⟩
    have hexists {errno : ℕ+} (herrno : o.errno = some errno) (h : errno = 17) : False :=
      o.notExists (herrno.trans (congrArg some h))
    simp only [NetKernel.handle]
    split
    · next errno hrefuses =>
      refine .inl ⟨errno, rfl, fun h => ?_⟩
      subst h
      unfold NetKernel.refuses at hrefuses
      split at hrefuses
      · exact absurd hrefuses (by decide)
      · split at hrefuses
        · next gateway =>
          split at hrefuses
          · next hmem => exact ⟨gateway, rfl, hmem⟩
          · exact (hexists hrefuses rfl).elim
        · exact (hexists hrefuses rfl).elim
    · next hrefuses =>
      refine .inr ⟨rfl, ?_⟩
      rintro gateway rfl hmem
      unfold NetKernel.refuses at hrefuses
      split at hrefuses
      · cases hrefuses
      · simp [hmem] at hrefuses

/-- Flags and settings are changed by those who write them. -/
theorem ioctl_interface (k : NetKernel) (request : NetIoctl) (name : List UInt8) :
    (((k.ioctl request).1.interface name).flags = (k.interface name).flags ∨
      ∃ flags, request = .setFlags name flags ∧ ((k.ioctl request).1.interface name).flags = flags) ∧
    (((k.ioctl request).1.interface name).settings = (k.interface name).settings ∨
      ∃ settings, request = .setSettings name settings) := by
  cases request with
  | setFlags name' | setAddr name' | setNetmask name' | setMtu name' | setSettings name' =>
    by_cases hname : name = name'
    · subst hname
      simp [NetKernel.ioctl, NetKernel.setInterface]
    · simp [NetKernel.ioctl, NetKernel.setInterface, hname]
  | _ => exact ⟨.inl rfl, .inl rfl⟩

theorem handle_settings (k : NetKernel) (c : NetCall) (o : NetOutcome) (name : List UInt8) :
    ((k.handle c o).1.interface name).settings = (k.interface name).settings ∨
      ∃ netfd settings, c = .ioctl netfd (.setSettings name settings) := by
  rcases handle_cases k c o with ⟨-, hsame, -⟩ | ⟨netfd, request, rfl, ⟨errno, heq, -⟩ | ⟨heq, -⟩⟩
  · exact .inl (by rw [hsame])
  · exact .inl (by rw [heq])
  · rw [heq]
    rcases (ioctl_interface k request name).2 with hsame | ⟨settings, rfl⟩
    · exact .inl hsame
    · exact .inr ⟨netfd, settings, rfl⟩

/-- What is read is what is there. -/
theorem value_of_handle {k : NetKernel} {netfd : ℕ} {request : NetIoctl} {o : NetOutcome} {value : request.Value}
    (h : (k.handle (.ioctl netfd request) o).2 = .ok value) : value = (k.ioctl request).2 := by
  simp only [NetKernel.handle] at h
  split at h
  · cases h
  · exact (Except.ok.inj h).symm

theorem mem_changes {h : NetCaller} {netfd : ℕ} {request : NetIoctl} (hmay : netDiscipline.may h (.ioctl netfd request))
    (hchange : request.isChange = true) : request ∈ h.changes := (hmay.2.1 hchange).subset (by simp)

/-- Whoever writes flags writes those it has read. -/
theorem of_may_setFlags {h : NetCaller} {netfd : ℕ} {name : List UInt8} {flags : UInt16}
    (hmay : netDiscipline.may h (.ioctl netfd (.setFlags name flags))) :
    ∃ up flags', h.change = some (.up up name) ∧ h.flags = some flags' ∧ flags = withUp up flags' := by
  have hmem := mem_changes hmay rfl
  unfold NetCaller.changes at hmem
  split at hmem
  · cases hmem
  · next up name' hchange =>
    obtain ⟨flags', hflags, heq⟩ := List.mem_map.mp hmem
    obtain ⟨rfl, rfl⟩ := NetIoctl.setFlags.inj heq
    exact ⟨up, flags', hchange, Option.mem_toList.mp hflags, rfl⟩
  · simp at hmem
  · simp at hmem
  · simp at hmem

/-- What is read or in the kernel differs from the first flags in `IFF_UP` only. -/
structure FlagsInv (inetAddr : List UInt8 → UInt32) (interface : List UInt8 → NetInterface) (k : NetKernel) (g : NetCallers ι) :
    Prop where
  change : ∀ i request h, g i = some (request, h) → h.change = request.change inetAddr
  kernel : ∀ name, withUp true (k.interface name).flags = withUp true (interface name).flags
  read : ∀ i request h up name flags, g i = some (request, h) → h.change = some (.up up name) → h.flags = some flags →
    withUp true flags = withUp true (interface name).flags

theorem flags_keeps (inetAddr : List UInt8 → UInt32) (allowed : (ι → Option NetRequest) → NetRequest → Prop)
    (interface : List UInt8 → NetInterface) :
    Callers.Keeps NetKernel.handle allowed netDiscipline (NetRequest.first inetAddr) NetPost
      fun k (g : NetCallers ι) _ _ => FlagsInv inetAddr interface k g where
  start k g calls returned i request hI hi _ := by
    refine ⟨of_update_pair hI.change rfl, hI.kernel, fun j request' h up name flags hj hchange hflags => ?_⟩
    · rcases of_update_some hj with ⟨-, heq⟩ | ⟨-, hj⟩
      · cases heq
        cases hflags
      · exact hI.read j request' h up name flags hj hchange hflags
  call k g calls returned i request h c o hI hi hmay := by
    refine ⟨of_update_pair hI.change ((change_after h c _).trans (hI.change i request h hi)), fun name => ?_,
      fun j request' h' up name flags hj hchange hflags => ?_⟩
    · rcases handle_cases k c o with ⟨-, hsame, -⟩ | ⟨netfd, request', rfl, ⟨errno, heq, -⟩ | ⟨heq, -⟩⟩
      · rw [hsame]
        exact hI.kernel name
      · rw [heq]
        exact hI.kernel name
      · rw [heq]
        rcases (ioctl_interface k request' name).1 with hsame | ⟨flags, rfl, hset⟩
        · rw [hsame]
          exact hI.kernel name
        · obtain ⟨up, flags', hchange, hflags, rfl⟩ := of_may_setFlags hmay
          rw [hset, withUp_withUp]
          exact hI.read i request h up name flags' hi hchange hflags
    · rcases of_update_some hj with ⟨-, heq⟩ | ⟨-, hj⟩
      · cases heq
        rw [change_after] at hchange
        rcases after_seen h c (k.handle c o).2 with ⟨hsame, -⟩ | ⟨netfd, up', name', flags', hchange', hread, heq⟩ |
          ⟨netfd, name', speed, duplex, autoneg, settings, hchange', -⟩
        · exact hI.read i request h up name flags hi hchange (hsame.symm.trans hflags)
        · rw [hchange] at hchange'
          cases hchange'
          obtain rfl := Option.some_inj.mp (hflags.symm.trans hread)
          obtain ⟨rfl, hr⟩ := Sigma.mk.inj heq
          rw [value_of_handle (eq_of_heq hr)]
          exact hI.kernel name
        · rw [hchange] at hchange'
          cases hchange'
      · exact hI.read j request' h' up name flags hj hchange hflags
  done k g calls returned i request h a hI hi _ :=
    ⟨fun j request' h' hj => hI.change j request' h' (of_update_none hj), hI.kernel,
      fun j request' h' up name flags hj => hI.read j request' h' up name flags (of_update_none hj)⟩

/-- Whoever writes settings writes those it has read with what it was asked for, once. -/
theorem of_may_setSettings {h : NetCaller} {netfd : ℕ} {name : List UInt8} {settings : EthtoolCmd}
    (hmay : netDiscipline.may h (.ioctl netfd (.setSettings name settings))) :
    h.made = [] ∧ ∃ speed duplex autoneg settings', h.change = some (.link name speed duplex autoneg) ∧
      h.settings = some settings' ∧ settings = settings'.overwrite speed duplex autoneg := by
  have hmem := mem_changes hmay rfl
  have hpart := hmay.2.1 rfl
  unfold NetCaller.changes at hmem hpart
  split at hmem
  · cases hmem
  · simp at hmem
  · simp at hmem
  · simp at hmem
  · next name' speed duplex autoneg hchange =>
    obtain ⟨settings', hsettings, heq⟩ := List.mem_map.mp hmem
    obtain ⟨rfl, rfl⟩ := NetIoctl.setSettings.inj heq
    refine ⟨?_, speed, duplex, autoneg, settings', hchange, Option.mem_toList.mp hsettings, rfl⟩
    rw [hchange] at hpart
    have hlen := hpart.length_le
    rw [Option.mem_toList.mp hsettings] at hlen
    simpa using hlen

/-- The interface whose link is to be configured. -/
def NetRequest.linkName (inetAddr : List UInt8 → UInt32) (request : NetRequest) : Option (List UInt8) :=
  match request.change inetAddr with
  | some (.link name _ _ _) => some name
  | _ => none

/-- Nobody else is about to configure the link of the interface. -/
def LinksApart (inetAddr : List UInt8 → UInt32) (asked : ι → Option NetRequest) (request : NetRequest) : Prop :=
  ∀ name, request.linkName inetAddr = some name → ∀ j request', asked j = some request' → request'.linkName inetAddr ≠ some name

/-- Who configures a link is alone, and has read the settings that are there. -/
structure SettingsInv (inetAddr : List UInt8 → UInt32) (k : NetKernel) (g : NetCallers ι) : Prop where
  change : ∀ i request h, g i = some (request, h) → h.change = request.change inetAddr
  apart : ∀ i j request request' h h' name, g i = some (request, h) → g j = some (request', h') →
    request.linkName inetAddr = some name → request'.linkName inetAddr = some name → i = j
  read : ∀ i request h name speed duplex autoneg settings, g i = some (request, h) →
    h.change = some (.link name speed duplex autoneg) → h.settings = some settings → h.made = [] →
      settings = (k.interface name).settings

theorem linkName_of_change {request : NetRequest} {name : List UInt8} {speed duplex autoneg : ℤ}
    (h : request.change inetAddr = some (.link name speed duplex autoneg)) : request.linkName inetAddr = some name := by
  unfold NetRequest.linkName
  rw [h]

theorem settings_keeps (hapart : ∀ asked request, allowed asked request → LinksApart inetAddr asked request) :
    Callers.Keeps NetKernel.handle allowed netDiscipline (NetRequest.first inetAddr) NetPost
      fun k (g : NetCallers ι) _ _ => SettingsInv inetAddr k g where
  start k g calls returned i request hI hi hallowed := by
    have halone {j : ι} {request' : NetRequest} {h : NetCaller} {name : List UInt8} (hj : g j = some (request', h))
        (hname : request.linkName inetAddr = some name) (hname' : request'.linkName inetAddr = some name) : False :=
      hapart _ _ hallowed name hname j request' (by rw [hj]; rfl) hname'
    refine ⟨of_update_pair hI.change rfl, fun j j' request₁ request₂ h₁ h₂ name hj hj' hname hname' => ?_,
      fun j request' h name speed duplex autoneg settings hj hchange hsettings hmade => ?_⟩
    · rcases of_update_some hj with ⟨h₁i, heq⟩ | ⟨-, hjg⟩ <;> rcases of_update_some hj' with ⟨h₂i, heq'⟩ | ⟨-, hjg'⟩
      · exact h₁i.trans h₂i.symm
      · cases heq
        exact (halone hjg' hname hname').elim
      · cases heq'
        exact (halone hjg hname' hname).elim
      · exact hI.apart j j' request₁ request₂ h₁ h₂ name hjg hjg' hname hname'
    · rcases of_update_some hj with ⟨-, heq⟩ | ⟨-, hj⟩
      · cases heq
        cases hsettings
      · exact hI.read j request' h name speed duplex autoneg settings hj hchange hsettings hmade
  call k g calls returned i request h c o hI hi hmay := by
    refine ⟨of_update_pair hI.change ((change_after h c _).trans (hI.change i request h hi)),
      fun j j' request₁ request₂ h₁ h₂ name hj hj' hname hname' => ?_,
      fun j request' h' name speed duplex autoneg settings hj hchange hsettings hmade => ?_⟩
    · rcases of_update_some hj with ⟨h₁i, heq⟩ | ⟨-, hjg⟩ <;> rcases of_update_some hj' with ⟨h₂i, heq'⟩ | ⟨-, hjg'⟩
      · exact h₁i.trans h₂i.symm
      · cases heq
        exact h₁i.trans (hI.apart i j' request request₂ h h₂ name hi hjg' hname hname')
      · cases heq'
        exact (hI.apart j i request₁ request h₁ h name hjg hi hname hname').trans h₂i.symm
      · exact hI.apart j j' request₁ request₂ h₁ h₂ name hjg hjg' hname hname'
    · rcases of_update_some hj with ⟨-, heq⟩ | ⟨hne, hjg⟩
      · cases heq
        obtain ⟨hbefore, hnone⟩ := List.append_eq_nil_iff.mp hmade
        rw [change_after] at hchange
        have hread : settings = (k.interface name).settings := by
          rcases after_seen h c (k.handle c o).2 with ⟨-, hsame⟩ | ⟨netfd, up, name', flags, hchange', -⟩ |
            ⟨netfd, name', speed', duplex', autoneg', settings', hchange', hread, heq⟩
          · exact hI.read i request h name speed duplex autoneg settings hi hchange (hsame.symm.trans hsettings) hbefore
          · rw [hchange] at hchange'
            cases hchange'
          · rw [hchange] at hchange'
            cases hchange'
            obtain rfl := Option.some_inj.mp (hsettings.symm.trans hread)
            obtain ⟨rfl, hr⟩ := Sigma.mk.inj heq
            exact value_of_handle (eq_of_heq hr)
        rw [hread]
        by_cases hkeep : ∃ netfd settings', c = .ioctl netfd (.setSettings name settings')
        · obtain ⟨netfd, settings', rfl⟩ := hkeep
          rcases handle_cases k (.ioctl netfd (.setSettings name settings')) o with ⟨hno, -⟩ |
            ⟨_, _, ⟨⟩, ⟨errno, heq, -⟩ | ⟨heq, -⟩⟩
          · exact absurd rfl (hno _ _)
          · rw [heq]
          · rw [heq] at hnone
            cases hnone
        · exact ((handle_settings k c o name).resolve_right hkeep).symm
      · rcases handle_settings k c o name with hsame | ⟨netfd, settings', rfl⟩
        · rw [hsame]
          exact hI.read j request' h' name speed duplex autoneg settings hjg hchange hsettings hmade
        · -- whoever writes them is alone
          obtain ⟨-, speed', duplex', autoneg', -, hchange', -⟩ := of_may_setSettings hmay
          exact absurd (hI.apart j i request' request h' h name hjg hi
            (linkName_of_change ((hI.change j request' h' hjg).symm.trans hchange))
            (linkName_of_change ((hI.change i request h hi).symm.trans hchange'))) hne
  done k g calls returned i request h a hI hi _ :=
    ⟨fun j request' h' hj => hI.change j request' h' (of_update_none hj),
      fun j j' request₁ request₂ h₁ h₂ name hj hj' =>
        hI.apart j j' request₁ request₂ h₁ h₂ name (of_update_none hj) (of_update_none hj'),
      fun j request' h' name speed duplex autoneg settings hj =>
        hI.read j request' h' name speed duplex autoneg settings (of_update_none hj)⟩

/-- The changes of one caller. -/
def madeOf (i : ι) (calls : List (ι × (c : NetCall) × c.Response)) : List NetIoctl :=
  calls.flatMap fun call => if call.1 = i then madeBy call.2.1 call.2.2 else []

omit [DecidableEq ι] in
/-- The changes of all callers, in order. -/
def madeAll (calls : List (ι × (c : NetCall) × c.Response)) : List NetIoctl := calls.flatMap fun call => madeBy call.2.1 call.2.2

/-- What a call that returns `res` has changed: everything it was asked for, or the first part of it. -/
def NetRequest.Made (inetAddr : List UInt8 → UInt32) (request : NetRequest) (res : ℤ) (made : List NetIoctl) : Prop :=
  ∃ flags settings, (⟨none, request.change inetAddr, flags, settings, made⟩ : NetCaller).Returns res

/-- A route is added once. -/
def NetKernel.make (k : NetKernel) (request : NetIoctl) : NetKernel :=
  if ∃ gateway ∈ k.routes, request = .addRoute gateway then k else (k.ioctl request).1

/-- The interfaces and the routes after the changes. -/
def makeAll (interface : List UInt8 → NetInterface) (made : List NetIoctl) : NetKernel :=
  made.foldl NetKernel.make ⟨⟨[], []⟩, interface, []⟩

/-- A call that has returned, and what it has changed. -/
structure BookEntry (ι : Type) where
  i : ι
  request : NetRequest
  result : ℤ × List UInt8
  made : List NetIoctl

/-- The books of a run; `now` is what the calls that have not returned have changed. -/
structure Booked (inetAddr : List UInt8 → UInt32) (book : List (BookEntry ι)) (now : ι → List NetIoctl)
    (calls : List (ι × (c : NetCall) × c.Response)) (returned : List (ι × NetRequest × (ℤ × List UInt8))) : Prop where
  returned : book.map (fun e => (e.i, e.request, e.result)) = returned
  made : ∀ e ∈ book, e.request.Made inetAddr e.result.1 e.made
  calls : ∀ i, madeOf i calls = (book.filter fun e => e.i = i).flatMap BookEntry.made ++ now i

/-- What a caller has changed since it began. -/
def madeNow (g : NetCallers ι) (i : ι) : List NetIoctl := ((g i).map fun h => h.2.made).getD []

theorem madeNow_update (g : NetCallers ι) (i j : ι) (x : Option (NetRequest × NetCaller)) :
    madeNow (Function.update g i x) j = if j = i then (x.map fun h => h.2.made).getD [] else madeNow g j := by
  unfold madeNow
  by_cases hj : j = i
  · subst hj
    simp
  · simp [hj]

omit [DecidableEq ι] in
theorem madeNow_some {g : NetCallers ι} {i : ι} {request : NetRequest} {h : NetCaller} (hi : g i = some (request, h)) :
    madeNow g i = h.made := by
  unfold madeNow
  rw [hi]
  rfl

theorem madeBy_read {netfd : ℕ} {request : NetIoctl} (hchange : request.isChange = false) (r : Except ℕ+ request.Value) :
    madeBy (.ioctl netfd request) r = [] := by
  cases r with
  | ok value => simp [madeBy, hchange]
  | error errno =>
    cases request with
    | addRoute gateway => cases hchange
    | _ => simp [madeBy]

/-- What has been done stays the first part of what is to be done. -/
theorem part_after {h : NetCaller} {c : NetCall} (hmay : netDiscipline.may h c) (hpart : h.made <+: h.changes) (r : c.Response) :
    (netDiscipline.after h c r).made <+: (netDiscipline.after h c r).changes := by
  cases c with
  | socket =>
    cases r with
    | error errno =>
      rw [after_no_socket]
      exact hpart
    | ok netfd =>
      rw [after_open]
      exact hpart
  | close netfd =>
    rw [after_close]
    exact hpart
  | ioctl netfd request =>
    cases hchange : request.isChange with
    | true =>
      have hnext := hmay.2.1 hchange
      cases r with
      | ok value =>
        rw [after_change _ _ hchange]
        exact hnext
      | error errno =>
        by_cases hroute : ∃ gateway, request = .addRoute gateway
        · obtain ⟨gateway, rfl⟩ := hroute
          by_cases hexists : errno = 17
          · subst hexists
            exact hnext
          · have hafter : netDiscipline.after h (.ioctl netfd (.addRoute gateway)) (.error errno) = h := by
              simp [netDiscipline, NetCaller.read, madeBy, hexists]
            rw [hafter]
            exact hpart
        · rw [after_error _ _ (fun gateway hgateway => hroute ⟨gateway, hgateway⟩)]
          exact hpart
    | false =>
      have hnone : (netDiscipline.after h (.ioctl netfd request) r).made = [] := by
        show h.made ++ madeBy (.ioctl netfd request) r = []
        rw [hmay.2.2 hchange, madeBy_read hchange, List.append_nil]
      rw [hnone]
      exact List.nil_prefix

theorem make_congr {k k' : NetKernel} (h : k.interface = k'.interface ∧ k.routes = k'.routes) (request : NetIoctl) :
    (k.make request).interface = (k'.make request).interface ∧ (k.make request).routes = (k'.make request).routes := by
  obtain ⟨descriptors, interface, routes⟩ := k
  obtain ⟨descriptors', interface', routes'⟩ := k'
  obtain ⟨rfl, rfl⟩ := h
  unfold NetKernel.make
  dsimp only
  split
  · exact ⟨rfl, rfl⟩
  · cases request <;> exact ⟨rfl, rfl⟩

/-- **The kernel after a call** is the one before it with what the call has changed. -/
theorem handle_make (k : NetKernel) (c : NetCall) (o : NetOutcome) :
    (k.handle c o).1.interface = ((madeBy c (k.handle c o).2).foldl NetKernel.make k).interface ∧
      (k.handle c o).1.routes = ((madeBy c (k.handle c o).2).foldl NetKernel.make k).routes := by
  rcases handle_cases k c o with ⟨hno, hsame⟩ | ⟨netfd, request, rfl, ⟨errno, heq, hexists⟩ | ⟨heq, hnew⟩⟩
  · have hnone : madeBy c (k.handle c o).2 = [] := by
      cases c with
      | ioctl netfd request => exact absurd rfl (hno netfd request)
      | _ => simp [madeBy]
    rw [hnone]
    exact hsame
  · rw [heq]
    by_cases h17 : errno = 17
    · obtain ⟨gateway, rfl, hmem⟩ := hexists h17
      subst h17
      have hmake : k.make (.addRoute gateway) = k := if_pos ⟨gateway, hmem, rfl⟩
      show k.interface = (k.make (.addRoute gateway)).interface ∧ k.routes = (k.make (.addRoute gateway)).routes
      rw [hmake]
      exact ⟨rfl, rfl⟩
    · have hnone : madeBy (.ioctl netfd request) (.error errno) = [] := by
        cases request <;> simp [madeBy, h17]
      rw [hnone]
      exact ⟨rfl, rfl⟩
  · rw [heq]
    have hmake : k.make request = (k.ioctl request).1 := by
      refine if_neg ?_
      rintro ⟨gateway, hmem, rfl⟩
      exact hnew gateway rfl hmem
    cases hchange : request.isChange with
    | true =>
      have hmade : madeBy (.ioctl netfd request) (.ok (k.ioctl request).2) = [request] := by simp [madeBy, hchange]
      rw [hmade, List.foldl_cons, List.foldl_nil, hmake]
      exact ⟨rfl, rfl⟩
    | false =>
      rw [madeBy_read hchange]
      cases request <;> first | exact ⟨rfl, rfl⟩ | cases hchange

structure BooksInv (inetAddr : List UInt8 → UInt32) (interface : List UInt8 → NetInterface) (k : NetKernel) (g : NetCallers ι)
    (calls : List (ι × (c : NetCall) × c.Response)) (returned : List (ι × NetRequest × (ℤ × List UInt8))) : Prop where
  change : ∀ i request h, g i = some (request, h) → h.change = request.change inetAddr
  part : ∀ i request h, g i = some (request, h) → h.made <+: h.changes
  booked : ∃ book, Booked inetAddr book (madeNow g) calls returned
  kernel : k.interface = (makeAll interface (madeAll calls)).interface ∧ k.routes = (makeAll interface (madeAll calls)).routes

theorem books_keeps (inetAddr : List UInt8 → UInt32) (allowed : (ι → Option NetRequest) → NetRequest → Prop)
    (interface : List UInt8 → NetInterface) :
    Callers.Keeps NetKernel.handle allowed netDiscipline (NetRequest.first inetAddr) NetPost
      fun k (g : NetCallers ι) calls returned => BooksInv inetAddr interface k g calls returned where
  start k g calls returned i request hI hi _ := by
    refine ⟨of_update_pair hI.change rfl, of_update_pair hI.part List.nil_prefix, ?_, hI.kernel⟩
    · obtain ⟨book, hbook⟩ := hI.booked
      have hnow : madeNow (Function.update g i (some (request, request.first inetAddr))) = madeNow g := by
        funext j
        rw [madeNow_update]
        split
        · next hj =>
          subst hj
          unfold madeNow
          rw [hi]
          rfl
        · rfl
      rw [hnow]
      exact ⟨book, hbook⟩
  call k g calls returned i request h c o hI hi hmay := by
    refine ⟨of_update_pair hI.change ((change_after h c _).trans (hI.change i request h hi)),
      of_update_pair hI.part (part_after hmay (hI.part i request h hi) _), ?_, ?_⟩
    · obtain ⟨book, hbook⟩ := hI.booked
      refine ⟨book, hbook.returned, hbook.made, fun j => ?_⟩
      have hcalls : madeOf j (calls ++ [(i, ⟨c, (k.handle c o).2⟩)]) =
          madeOf j calls ++ if i = j then madeBy c (k.handle c o).2 else [] := by simp [madeOf]
      rw [hcalls, hbook.calls, madeNow_update]
      by_cases hj : j = i
      · subst hj
        rw [madeNow_some hi, if_pos rfl, if_pos rfl, List.append_assoc]
        rfl
      · rw [if_neg hj, if_neg (Ne.symm hj), List.append_nil]
    · have hcalls : madeAll (calls ++ [(i, ⟨c, (k.handle c o).2⟩)]) = madeAll calls ++ madeBy c (k.handle c o).2 := by
        simp [madeAll]
      rw [hcalls]
      unfold makeAll
      rw [List.foldl_append]
      have hmake := handle_make k c o
      rw [hmake.1, hmake.2]
      generalize madeBy c (k.handle c o).2 = made
      have hkernel := hI.kernel
      unfold makeAll at hkernel
      generalize (madeAll calls).foldl NetKernel.make ⟨⟨[], []⟩, interface, []⟩ = k' at hkernel ⊢
      clear hmake hI hcalls hi hmay
      induction made generalizing k k' with
      | nil => exact hkernel
      | cons r made ih => exact ih _ _ (make_congr hkernel r)
  done k g calls returned i request h a hI hi hpost := by
    refine ⟨fun j request' h' hj => hI.change j request' h' (of_update_none hj),
      fun j request' h' hj => hI.part j request' h' (of_update_none hj), ?_, hI.kernel⟩
    obtain ⟨book, hbook⟩ := hI.booked
    refine ⟨book ++ [⟨i, request, a, h.made⟩], by simp [hbook.returned], fun e he => ?_, fun j => ?_⟩
    · rcases List.mem_append.mp he with he | he
      · exact hbook.made e he
      · obtain rfl := List.mem_singleton.mp he
        have heq : (⟨none, request.change inetAddr, h.flags, h.settings, h.made⟩ : NetCaller) = h := by
          rw [← hI.change i request h hi, ← hpost.netfd]
        exact ⟨h.flags, h.settings, by rw [heq]; exact hpost⟩
    · rw [hbook.calls, madeNow_update, List.filter_append, List.flatMap_append]
      by_cases hj : j = i
      · subst hj
        simp [madeNow_some hi]
      · simp [hj, Ne.symm hj]

end

/-! ## Two callers -/

section

/-- An interface that is down, with the speed 100 and half duplex. -/
def oneInterface (_name : List UInt8) : NetInterface :=
  ⟨2, [2, 0, 0, 0, 0, 1], 0x1002, 0, 0, 1500, ⟨100, 0, 0, 1, []⟩⟩

def anyRequest (_asked : Bool → Option NetRequest) (_request : NetRequest) : Prop := True

/-- One after the other. -/
def oneByOne (asked : Bool → Option NetRequest) (_request : NetRequest) : Prop := asked false = none ∧ asked true = none

instance : DecidableRel anyRequest := fun _ _ => .isTrue trivial

instance : DecidableRel oneByOne := fun _ _ => inferInstanceAs (Decidable (_ ∧ _))

/-- Addresses are not looked at. -/
def noAddr (_text : List UInt8) : UInt32 := 0

instance (allowed : (Bool → Option NetRequest) → NetRequest → Prop) [DecidableRel allowed] (interface : List UInt8 → NetInterface)
    (s : Callers Bool NetKernel NetCall NetRequest (ℤ × List UInt8) NetCall.Response) :
    ∀ l, Decidable ((networkCalls noAddr allowed interface).enabled s l)
  | .start _ _ => inferInstanceAs (Decidable (_ ∧ _))
  | .step _ _ => inferInstanceAs (Decidable (¬_))

theorem none_ne_exists : (none : Option ℕ+) ≠ some 17 := fun h => by cases h

theorem one_ne_exists : some (Nat.toPNat' 1) ≠ some 17 := by decide

/-- A call that succeeds. -/
def succeeds : NetOutcome := ⟨none, 3, none_ne_exists⟩

/-- A call that is not permitted. -/
def notPermitted : NetOutcome := ⟨some (Nat.toPNat' 1), 3, one_ne_exists⟩

def upEth0 : NetRequest := .up (bytesOf "eth0")

def downEth0 : NetRequest := .ifconfig (["ifconfig", "eth0", "down"].map bytesOf)

/-- Both have read the flags before one of them writes them. -/
def bothRead : List (CallersLabel Bool NetRequest NetOutcome) :=
  [.start true upEth0, .step true succeeds, .step true succeeds, .start false downEth0, .step false succeeds, .step false succeeds,
    .step true succeeds]

/-- Two sockets are open, the number 3 and another one. -/
theorem sockets_closed_two : ∃ s : Callers Bool NetKernel NetCall NetRequest (ℤ × List UInt8) NetCall.Response,
    s.kernel.descriptors.numbers = [3, 4] ∧ s.about true = some (upEth0, .close 3) ∧
    ∃ netfd : Bool → Option ℕ, s.kernel.descriptors.OwnedBy netfd ∧ netfd true = some 3 := by
  have hreached : ∃ s, (networkCalls noAddr anyRequest oneInterface).Run bothRead s ∧ s.kernel.descriptors.numbers = [3, 4] ∧
      s.about true = some (upEth0, .close 3) := ⟨_, (System.path_of_runs (by decide +kernel)).run, by decide +kernel⟩
  obtain ⟨s, hrun, hnumbers, habout⟩ := hreached
  obtain ⟨netfd, hown, -, huse⟩ := sockets_closed hrun
  exact ⟨s, hnumbers, habout, netfd, hown, (huse true upEth0 3).1 habout⟩

def fullEth0 : NetRequest := .ethtool (["ethtool", "eth0", "-", "full", "-"].map bytesOf)

/-- Both have read the settings before one of them writes them. -/
def bothReadSettings : List (CallersLabel Bool NetRequest NetOutcome) :=
  [.start true fullEth0, .start false (.linkConfigure (bytesOf "eth0") 10 (-1) (-1)), .step true succeeds, .step true succeeds,
    .step false succeeds, .step false succeeds, .step true succeeds, .step false succeeds]

/-- What the first one has changed is lost. -/
example : ((bothReadSettings.foldl (networkCalls noAddr anyRequest oneInterface).next
    (networkCalls noAddr anyRequest oneInterface).start).kernel.interface (bytesOf "eth0")).settings = ⟨10, 0, 0, 1, []⟩ := by
  decide +kernel

end

end Monolinux
