import Monolinux.Lib.CString
import Monolinux.Lib.Linux
import Monolinux.Lib.Routine
import Monolinux.Lib.Scanf

/-!
# Verity devices

`ml_device_mapper_verity_create()` opens the control device, creates a mapping device and
its node, loads the table of the device and activates it, and leaves at the first call
that fails.  Nothing is undone then.  Any number of threads call it at the same time
(`verityCalls`):

* `verity_created`: what a call that returns zero has asked for is active, with its own table
  and node, and no two of them have made one device;
* `verity_arguments`: the table says what was asked for, if it fits into the buffer for it;
* `control_closed`: the control device is closed on every way out;
* `half_created_stays`: a device that a failed call has left behind is never activated, and no
  later call for its name succeeds.
-/

namespace Monolinux

/-! ## The kernel -/

/-- A table of one target that begins at sector 0. -/
structure DmTable where
  sectors : UInt64
  targetType : List UInt8
  parameters : List UInt8
  deriving DecidableEq

/-- A mapping device; a loaded table is used once the device is resumed. -/
structure DmDevice where
  uuid : List UInt8
  dev : ℕ
  loaded : Option DmTable
  active : Option DmTable
  deriving DecidableEq

inductive DmCall
  | openControl
  | create (fd : ℕ) (name uuid : List UInt8)
  | mknod (path : List UInt8) (dev : ℕ)
  | load (fd : ℕ) (name : List UInt8) (table : DmTable)
  | suspend (fd : ℕ) (name : List UInt8)
  | close (fd : ℕ)
  deriving DecidableEq

/-- The descriptor that is used or closed. -/
def DmCall.fd? : DmCall → Option ℕ
  | openControl | mknod _ _ => none
  | create fd _ _ | load fd _ _ | suspend fd _ | close fd => some fd

/-- An error is `errno`; what is created has a number. -/
abbrev DmCall.Response : DmCall → Type
  | openControl => Except ℕ+ ℕ
  | create _ _ _ => Except ℕ+ ℕ
  | mknod _ _ => Except ℕ+ Unit
  | load _ _ _ => Except ℕ+ Unit
  | suspend _ _ => Except ℕ+ Unit
  | close _ => Unit

structure DmKernel where
  descriptors : Descriptors Unit
  device : List UInt8 → Option DmDevice
  uuids : List (List UInt8)
  node : List UInt8 → Option ℕ

/-- What a call comes to if nothing is wrong with it: it fails, or what it creates gets the number. -/
structure DmOutcome where
  errno : Option ℕ+
  number : ℕ

/-- A device is resumed with the table that was loaded, or with the one it has. -/
def DmDevice.resume (d : DmDevice) : DmDevice := { d with loaded := none, active := d.loaded <|> d.active }

namespace DmKernel

/-- Why it cannot be done: `EBADF`, `EBUSY`, `EEXIST`, `ENXIO`, or another reason. -/
def refuses (k : DmKernel) (c : DmCall) (o : DmOutcome) : Option ℕ+ :=
  match c with
  | .openControl | .close _ => o.errno
  | .create fd name uuid =>
    if fd ∉ k.descriptors.numbers then some (Nat.toPNat' 9)
    else if (k.device name).isSome ∨ uuid ≠ [] ∧ uuid ∈ k.uuids then some (Nat.toPNat' 16)
    else o.errno
  | .mknod path _ => if (k.node path).isSome then some (Nat.toPNat' 17) else o.errno
  | .load fd name _ | .suspend fd name =>
    if fd ∉ k.descriptors.numbers then some (Nat.toPNat' 9)
    else if (k.device name).isNone then some (Nat.toPNat' 6)
    else o.errno

def setDevice (k : DmKernel) (name : List UInt8) (f : DmDevice → DmDevice) : DmKernel :=
  { k with device := Function.update k.device name ((k.device name).map f) }

def handle (k : DmKernel) (c : DmCall) (o : DmOutcome) : DmKernel × c.Response :=
  match c with
  | .openControl =>
    match k.refuses .openControl o with
    | some errno => (k, .error errno)
    | none => ({ k with descriptors := k.descriptors.create () o.number }, .ok (k.descriptors.pick o.number))
  | .create fd name uuid =>
    match k.refuses (.create fd name uuid) o with
    | some errno => (k, .error errno)
    | none =>
      ({ k with device := Function.update k.device name (some ⟨uuid, o.number, none, none⟩), uuids := uuid :: k.uuids },
        .ok o.number)
  | .mknod path dev =>
    match k.refuses (.mknod path dev) o with
    | some errno => (k, .error errno)
    | none => ({ k with node := Function.update k.node path (some dev) }, .ok ())
  | .load fd name table =>
    match k.refuses (.load fd name table) o with
    | some errno => (k, .error errno)
    | none => (k.setDevice name ({ · with loaded := some table }), .ok ())
  | .suspend fd name =>
    match k.refuses (.suspend fd name) o with
    | some errno => (k, .error errno)
    | none => (k.setDevice name DmDevice.resume, .ok ())
  | .close fd => ({ k with descriptors := k.descriptors.close fd }, ())

end DmKernel

/-! ## The code -/

/-- What `ml_device_mapper_verity_create()` is called with. -/
structure VerityRequest where
  name : List UInt8
  uuid : List UInt8
  dataDev : List UInt8
  dataSize : UInt64
  hashTreeDev : List UInt8
  hashOffset : UInt64
  rootHash : List UInt8
  salt : List UInt8
  deriving DecidableEq

namespace VerityRequest

/-- The kernel ends `ctl.name` at its last character. -/
def deviceName (r : VerityRequest) : List UInt8 := r.name.take 127

def deviceUuid (r : VerityRequest) : List UInt8 := r.uuid.take 128

/-- `buf` of `create_device()`. -/
def path (r : VerityRequest) : List UInt8 := (bytesOf "/dev/mapper/" ++ r.uuid).take 255

/-- `"1 %s %s 4096 4096 %lu %lu sha256 %s %s"`. -/
def parameters (r : VerityRequest) : List UInt8 :=
  [0x20].intercalate [bytesOf "1", r.dataDev, r.hashTreeDev, bytesOf "4096", bytesOf "4096", decimal (r.dataSize / 4096).toNat,
    decimal (r.hashOffset / 4096).toNat, bytesOf "sha256", r.rootHash, r.salt]

/-- What `load_table()` loads. -/
def table (r : VerityRequest) : DmTable := ⟨r.dataSize / 512, bytesOf "verity", r.parameters.take 511⟩

end VerityRequest

abbrev DmRoutine := Routine DmCall DmCall.Response

/-- What `ioctl()` and `mknod()` return. -/
def dmResult {β : Type} : Except ℕ+ β → ℤ
  | .ok _ => 0
  | .error _ => -1

def createDevice (controlFd : ℕ) (r : VerityRequest) : DmRoutine ℤ := do
  match ← Routine.perform (DmCall.create controlFd r.deviceName r.deviceUuid) with
  | .error _ => pure (-1)
  | .ok dev => do
    let res ← Routine.perform (DmCall.mknod r.path dev)
    pure (dmResult res)

def loadTable (controlFd : ℕ) (r : VerityRequest) : DmRoutine ℤ := do
  let res ← Routine.perform (DmCall.load controlFd r.deviceName r.table)
  pure (dmResult res)

/-- No flag is set: the device is resumed. -/
def suspendDevice (controlFd : ℕ) (r : VerityRequest) : DmRoutine ℤ := do
  let res ← Routine.perform (DmCall.suspend controlFd r.deviceName)
  pure (dmResult res)

/-- What comes behind a function that fails is left out. -/
def dmThen (p q : DmRoutine ℤ) : DmRoutine ℤ := do
  let res ← p
  if res ≠ 0 then pure res else q

def mlDeviceMapperVerityCreate (r : VerityRequest) : DmRoutine ℤ := do
  match ← Routine.perform DmCall.openControl with
  | .error errno => pure (-errno)
  | .ok controlFd => do
    let res ← dmThen (createDevice controlFd r) (dmThen (loadTable controlFd r) (suspendDevice controlFd r))
    Routine.perform (DmCall.close controlFd)
    pure res

/-- Any number of callers `ι`. -/
def verityCalls (ι : Type) [DecidableEq ι] :
    System (Callers ι DmKernel DmCall VerityRequest ℤ DmCall.Response) (CallersLabel ι VerityRequest DmOutcome) :=
  callers DmKernel.handle mlDeviceMapperVerityCreate (fun _ _ => True) ⟨⟨[], []⟩, fun _ => none, [], fun _ => none⟩

/-- The arguments of a target are what is between the spaces. -/
def dmArguments (parameters : List UInt8) : List (List UInt8) := (parameters.splitOn 0x20).filter (· ≠ [])

theorem decimal_word (n : ℕ) : decimal n ≠ [] ∧ 0x20 ∉ decimal n := by
  refine ⟨?_, fun hspace => ?_⟩
  · show (Nat.toDigits 10 n).map _ ≠ []
    simp
  · have hdigit : isdigit 0x20 = true := isdigit_decimal n _ hspace
    cases hdigit

/-- **The arguments of a table** that fits are those that it was made of. -/
theorem verity_arguments (r : VerityRequest) (hfits : r.parameters.length ≤ 511)
    (hwords : ∀ w ∈ [r.dataDev, r.hashTreeDev, r.rootHash, r.salt], w ≠ [] ∧ 0x20 ∉ w) :
    dmArguments r.table.parameters = [bytesOf "1", r.dataDev, r.hashTreeDev, bytesOf "4096", bytesOf "4096",
      decimal (r.dataSize / 4096).toNat, decimal (r.hashOffset / 4096).toNat, bytesOf "sha256", r.rootHash, r.salt] := by
  have htable : r.table.parameters = r.parameters := List.take_of_length_le hfits
  have hall : ∀ w ∈ [bytesOf "1", r.dataDev, r.hashTreeDev, bytesOf "4096", bytesOf "4096",
      decimal (r.dataSize / 4096).toNat, decimal (r.hashOffset / 4096).toNat, bytesOf "sha256", r.rootHash, r.salt],
      w ≠ [] ∧ 0x20 ∉ w := by
    have hone : bytesOf "1" ≠ [] ∧ 0x20 ∉ bytesOf "1" := by decide
    have hblock : bytesOf "4096" ≠ [] ∧ 0x20 ∉ bytesOf "4096" := by decide
    have hsha : bytesOf "sha256" ≠ [] ∧ 0x20 ∉ bytesOf "sha256" := by decide
    simp only [List.forall_mem_cons] at hwords ⊢
    obtain ⟨hdata, htree, hroot, hsalt, hnone⟩ := hwords
    exact ⟨hone, hdata, htree, hblock, hblock, decimal_word _, decimal_word _, hsha, hroot, hsalt, hnone⟩
  rw [htable]
  unfold dmArguments VerityRequest.parameters
  rw [List.splitOn_intercalate _ (fun w hw => (hall w hw).2) (List.cons_ne_nil _ _)]
  exact List.filter_eq_self.mpr fun w hw => decide_eq_true (hall w hw).1

/-! ## What a caller may do -/

/-- How far a call is. -/
inductive DmStage
  | asked
  | created
  | noded
  | loaded
  | active
  deriving DecidableEq

structure DmCaller where
  request : VerityRequest
  controlFd : Option ℕ
  stage : DmStage
  /-- the number of the device, from `created` on -/
  dev : ℕ

/-- One stage after the other, each with what the caller was asked for. -/
def dmDiscipline : Discipline DmCall DmCall.Response DmCaller where
  may g c :=
    match c with
    | .openControl => g.controlFd = none
    | .create fd name uuid =>
      g.controlFd = some fd ∧ g.stage = .asked ∧ name = g.request.deviceName ∧ uuid = g.request.deviceUuid
    | .mknod path dev => g.stage = .created ∧ path = g.request.path ∧ dev = g.dev
    | .load fd name table =>
      g.controlFd = some fd ∧ g.stage = .noded ∧ name = g.request.deviceName ∧ table = g.request.table
    | .suspend fd name => g.controlFd = some fd ∧ g.stage = .loaded ∧ name = g.request.deviceName
    | .close fd => g.controlFd = some fd
  after g c r :=
    match c, r with
    | .openControl, .ok fd => { g with controlFd := some fd }
    | .create _ _ _, .ok dev => { g with stage := .created, dev }
    | .mknod _ _, .ok _ => { g with stage := .noded }
    | .load _ _ _, .ok _ => { g with stage := .loaded }
    | .suspend _ _, .ok _ => { g with stage := .active }
    | .close _, _ => { g with controlFd := none }
    | _, _ => g

def VerityRequest.first (r : VerityRequest) : DmCaller := ⟨r, none, .asked, 0⟩

/-- A call returns zero if the device is active. -/
structure DmCaller.Returns (g : DmCaller) (res : ℤ) : Prop where
  closed : g.controlFd = none
  active : res = 0 ↔ g.stage = .active

/-- With the control device open. -/
structure DmCaller.ReturnsOpen (r : VerityRequest) (fd : ℕ) (stage : DmStage) (g : DmCaller) (res : ℤ) : Prop where
  request : g.request = r
  opened : g.controlFd = some fd
  reached : res = 0 → g.stage = stage
  failed : res ≠ 0 → g.stage ≠ .active

section
variable {r : VerityRequest} {fd dev : ℕ}

theorem returnsOpen_error {stage stage' : DmStage} (h : stage' ≠ .active) :
    DmCaller.ReturnsOpen r fd stage ⟨r, some fd, stage', dev⟩ (-1) :=
  ⟨rfl, rfl, fun h0 => absurd h0 (by decide), fun _ => h⟩

theorem returnsOpen_ok {stage : DmStage} : DmCaller.ReturnsOpen r fd stage ⟨r, some fd, stage, dev⟩ 0 :=
  ⟨rfl, rfl, fun _ => rfl, fun h => absurd rfl h⟩

theorem follows_createDevice :
    dmDiscipline.Follows (DmCaller.ReturnsOpen r fd .noded) ⟨r, some fd, .asked, dev⟩ (createDevice fd r) := by
  refine ⟨⟨rfl, rfl, rfl, rfl⟩, fun res => ?_⟩
  cases res with
  | error errno => exact returnsOpen_error (by decide)
  | ok dev' =>
    refine ⟨⟨rfl, rfl, rfl⟩, fun res => ?_⟩
    cases res with
    | error errno => exact returnsOpen_error (by decide)
    | ok value => exact returnsOpen_ok

theorem follows_loadTable :
    dmDiscipline.Follows (DmCaller.ReturnsOpen r fd .loaded) ⟨r, some fd, .noded, dev⟩ (loadTable fd r) := by
  refine ⟨⟨rfl, rfl, rfl, rfl⟩, fun res => ?_⟩
  cases res with
  | error errno => exact returnsOpen_error (by decide)
  | ok value => exact returnsOpen_ok

theorem follows_suspendDevice :
    dmDiscipline.Follows (DmCaller.ReturnsOpen r fd .active) ⟨r, some fd, .loaded, dev⟩ (suspendDevice fd r) := by
  refine ⟨⟨rfl, rfl, rfl⟩, fun res => ?_⟩
  cases res with
  | error errno => exact returnsOpen_error (by decide)
  | ok value => exact returnsOpen_ok

/-- A function behind another one, which takes the caller as far as `stage`. -/
theorem follows_dmThen {stage : DmStage} {g : DmCaller} {p q : DmRoutine ℤ}
    (hp : dmDiscipline.Follows (DmCaller.ReturnsOpen r fd stage) g p)
    (hq : ∀ dev, dmDiscipline.Follows (DmCaller.ReturnsOpen r fd .active) ⟨r, some fd, stage, dev⟩ q) :
    dmDiscipline.Follows (DmCaller.ReturnsOpen r fd .active) g (dmThen p q) := by
  refine follows_bind hp fun g res h => ?_
  split
  · next hres => exact ⟨h.request, h.opened, fun h0 => absurd h0 hres, h.failed⟩
  · next hres =>
    obtain ⟨request, controlFd, stage', dev⟩ := g
    obtain ⟨rfl, rfl, hreached, -⟩ := h
    obtain rfl := hreached (not_not.mp hres)
    exact hq dev

/-- **What every caller does.** -/
theorem verity_follows (r : VerityRequest) :
    dmDiscipline.Follows DmCaller.Returns r.first (mlDeviceMapperVerityCreate r) := by
  refine ⟨rfl, fun res => ?_⟩
  cases res with
  | error errno =>
    refine ⟨rfl, fun h => ?_, fun h => by cases h⟩
    have hpos := errno.pos
    exact absurd h (by omega)
  | ok fd =>
    have hall : dmDiscipline.Follows (DmCaller.ReturnsOpen r fd .active) ⟨r, some fd, .asked, 0⟩
        (dmThen (createDevice fd r) (dmThen (loadTable fd r) (suspendDevice fd r))) :=
      follows_dmThen follows_createDevice fun _ => follows_dmThen follows_loadTable fun _ => follows_suspendDevice
    show dmDiscipline.Follows DmCaller.Returns ⟨r, some fd, .asked, 0⟩
      (dmThen (createDevice fd r) (dmThen (loadTable fd r) (suspendDevice fd r)) >>= fun res =>
        Routine.perform (DmCall.close fd) >>= fun _ => pure res)
    refine follows_bind hall fun g res h => ⟨h.opened, fun _ => ⟨rfl, h.reached, fun hactive => ?_⟩⟩
    exact not_not.mp fun hres => h.failed hres hactive

end

/-! ## Who made a device -/

/-- The device of a caller. -/
def DmCaller.device (g : DmCaller) : DmDevice :=
  ⟨g.request.deviceUuid, g.dev, if g.stage = .loaded then some g.request.table else none,
    if g.stage = .active then some g.request.table else none⟩

/-- The device is there as far as the caller has come. -/
structure DmKernel.Holds (k : DmKernel) (g : DmCaller) : Prop where
  device : k.device g.request.deviceName = some g.device
  node : g.stage ≠ .created → k.node g.request.path = some g.dev

/-- Every device was made by one of the callers, and no two of them have made one. -/
structure DmKernel.Made {χ : Type} (k : DmKernel) (H : χ → Option DmCaller) : Prop where
  holds : ∀ x g, H x = some g → g.stage ≠ .asked → k.Holds g
  unique : ∀ x y g g', H x = some g → H y = some g' → g.stage ≠ .asked → g'.stage ≠ .asked →
    g.request.deviceName = g'.request.deviceName → x = y
  made : ∀ name d, k.device name = some d → ∃ x g, H x = some g ∧ g.stage ≠ .asked ∧ g.request.deviceName = name

section
variable {χ : Type} [DecidableEq χ] {k k' : DmKernel} {H : χ → Option DmCaller} {x : χ} {g g' : DmCaller}

/-- One caller takes a step. -/
theorem DmKernel.Made.step (h : k.Made H) (hx : H x = some g) (hrequest : g'.request = g.request)
    (hstage : g'.stage = .asked → g.stage = .asked)
    (hnew : g.stage = .asked → g'.stage ≠ .asked → k.device g.request.deviceName = none)
    (hothers : ∀ y g₁, y ≠ x → H y = some g₁ → g₁.stage ≠ .asked → k.Holds g₁ → k'.Holds g₁)
    (hself : g'.stage ≠ .asked → k'.Holds g')
    (hdevices : ∀ name, k'.device name ≠ none → k.device name ≠ none ∨ g'.stage ≠ .asked ∧ g.request.deviceName = name) :
    k'.Made (Function.update H x (some g')) := by
  -- a device of the same name is the caller's own
  have hown {y : χ} {g₁ : DmCaller} (hy : H y = some g₁) (h₁ : g₁.stage ≠ .asked) (h' : g'.stage ≠ .asked)
      (hname : g₁.request.deviceName = g'.request.deviceName) : y = x := by
    rw [hrequest] at hname
    by_cases hasked : g.stage = .asked
    · have hnone := hnew hasked h'
      rw [← hname, (h.holds y g₁ hy h₁).device] at hnone
      cases hnone
    · exact h.unique y x g₁ g hy hx h₁ hasked hname
  refine ⟨fun y g₁ hy h₁ => ?_, fun y z g₁ g₂ hy hz h₁ h₂ hname => ?_, fun name d hd => ?_⟩
  · rcases of_update_some hy with ⟨-, rfl⟩ | ⟨hne, hy⟩
    · exact hself h₁
    · exact hothers y g₁ hne hy h₁ (h.holds y g₁ hy h₁)
  · rcases of_update_some hy with ⟨hyx, rfl⟩ | ⟨-, hyH⟩ <;> rcases of_update_some hz with ⟨hzx, rfl⟩ | ⟨-, hzH⟩
    · exact hyx.trans hzx.symm
    · exact hyx.trans (hown hzH h₂ h₁ hname.symm).symm
    · exact (hown hyH h₁ h₂ hname).trans hzx.symm
    · exact h.unique y z g₁ g₂ hyH hzH h₁ h₂ hname
  · rcases hdevices name (by simp [hd]) with hold | ⟨h', hname⟩
    · obtain ⟨d₀, hd₀⟩ := Option.ne_none_iff_exists'.mp hold
      obtain ⟨y, g₁, hy, h₁, hname⟩ := h.made name d₀ hd₀
      by_cases hyx : y = x
      · subst hyx
        obtain rfl := Option.some_inj.mp (hx.symm.trans hy)
        exact ⟨y, g', Function.update_self .., fun h' => h₁ (hstage h'), hrequest ▸ hname⟩
      · exact ⟨y, g₁, (Function.update_of_ne hyx ..).trans hy, h₁, hname⟩
    · exact ⟨x, g', Function.update_self .., h', hrequest ▸ hname⟩

/-- Nothing is done to devices and nodes. -/
theorem DmKernel.Made.same (h : k.Made H) (hx : H x = some g) (hdevice : k'.device = k.device) (hnode : k'.node = k.node)
    (controlFd : Option ℕ) : k'.Made (Function.update H x (some { g with controlFd })) := by
  have hheld {g₁ : DmCaller} (h₁ : k.Holds g₁) : k'.Holds g₁ := ⟨hdevice ▸ h₁.device, hnode ▸ h₁.node⟩
  refine h.step hx rfl id (fun h₀ h₁ => absurd h₀ h₁) (fun _ _ _ _ _ h₁ => hheld h₁) (fun h₁ => ?_) fun name hname => ?_
  · have hg := hheld (h.holds x g hx h₁)
    exact ⟨hg.device, hg.node⟩
  · exact .inl (hdevice ▸ hname)

/-- A caller changes its own device. -/
theorem DmKernel.Made.change (h : k.Made H) (hx : H x = some g) (hasked : g.stage ≠ .asked) (hrequest : g'.request = g.request)
    (hasked' : g'.stage ≠ .asked) {f : DmDevice → DmDevice} (hown : k.Holds g) (hdevice : f g.device = g'.device)
    (hnode : k.node g.request.path = some g'.dev) :
    (k.setDevice g.request.deviceName f).Made (Function.update H x (some g')) := by
  refine h.step hx hrequest (fun h' => absurd h' hasked') (fun h' => absurd h' hasked)
    (fun y g₁ hne hy h₁ hheld => ⟨?_, hheld.node⟩) (fun _ => ⟨?_, fun _ => hrequest ▸ hnode⟩)
    fun name hname => .inl fun hnone => hname ?_
  · have hname : g₁.request.deviceName ≠ g.request.deviceName := fun hname => hne (h.unique y x g₁ g hy hx h₁ hasked hname)
    exact (Function.update_of_ne hname ..).trans hheld.device
  · rw [hrequest]
    show Function.update k.device g.request.deviceName ((k.device g.request.deviceName).map f) g.request.deviceName = _
    rw [Function.update_self, hown.device, Option.map_some, hdevice]
  · by_cases hown' : name = g.request.deviceName
    · rw [hown', hown.device] at hnone
      cases hnone
    · exact (Function.update_of_ne hown' ..).trans hnone

omit [DecidableEq χ] in
theorem device_none_of_create {fd : ℕ} {name uuid : List UInt8} {o : DmOutcome}
    (h : k.refuses (.create fd name uuid) o = none) : k.device name = none := by
  unfold DmKernel.refuses at h
  dsimp only at h
  split_ifs at h with hfd hbusy
  exact Option.not_isSome_iff_eq_none.mp fun hsome => hbusy (.inl hsome)

omit [DecidableEq χ] in
theorem node_none_of_mknod {path : List UInt8} {dev : ℕ} {o : DmOutcome} (h : k.refuses (.mknod path dev) o = none) :
    k.node path = none := by
  unfold DmKernel.refuses at h
  dsimp only at h
  split_ifs at h with hexists
  exact Option.not_isSome_iff_eq_none.mp hexists

/-- A caller makes a device of a new name. -/
theorem DmKernel.Made.create (h : k.Made H) (hx : H x = some g) (hnone : k.device g.request.deviceName = none)
    (uuids : List (List UInt8)) (dev : ℕ) :
    { k with device := Function.update k.device g.request.deviceName (some ⟨g.request.deviceUuid, dev, none, none⟩)
             uuids }.Made (Function.update H x (some { g with stage := .created, dev })) := by
  refine h.step hx rfl (fun h' => by cases h') (fun _ _ => hnone) (fun y g₁ _ _ _ h₁ => ⟨?_, h₁.node⟩)
    (fun _ => ⟨Function.update_self .., fun h' => absurd rfl h'⟩) fun name hname => ?_
  · have hne : g₁.request.deviceName ≠ g.request.deviceName := fun hname => by
      have hdevice := h₁.device
      rw [hname, hnone] at hdevice
      cases hdevice
    exact (Function.update_of_ne hne ..).trans h₁.device
  · by_cases hown : name = g.request.deviceName
    · exact .inr ⟨by simp, hown.symm⟩
    · exact .inl fun hnone' => hname ((Function.update_of_ne hown ..).trans hnone')

/-- A caller makes the node of its device. -/
theorem DmKernel.Made.mknod (h : k.Made H) (hx : H x = some g) (hstage : g.stage = .created)
    (hnone : k.node g.request.path = none) :
    { k with node := Function.update k.node g.request.path (some g.dev) }.Made
      (Function.update H x (some { g with stage := .noded })) := by
  have hasked : g.stage ≠ .asked := by simp [hstage]
  refine h.step hx rfl (fun h' => by cases h') (fun h' => absurd h' hasked)
    (fun y g₁ _ _ _ h₁ => ⟨h₁.device, fun hnode => ?_⟩)
    (fun _ => ⟨?_, fun _ => Function.update_self ..⟩) fun name hname => .inl hname
  · have hne : g₁.request.path ≠ g.request.path := fun hpath => by
      have hold := h₁.node hnode
      rw [hpath, hnone] at hold
      cases hold
    exact (Function.update_of_ne hne ..).trans (h₁.node hnode)
  · have hdevice := (h.holds x g hx hasked).device
    simp only [DmCaller.device, hstage] at hdevice
    exact hdevice

/-- **One call of a caller**, whatever it comes to. -/
theorem DmKernel.Made.call {c : DmCall} (h : k.Made H) (hx : H x = some g) (hmay : dmDiscipline.may g c) (o : DmOutcome) :
    (k.handle c o).1.Made (Function.update H x (some (dmDiscipline.after g c (k.handle c o).2))) := by
  cases c with
  | openControl =>
    simp only [DmKernel.handle]
    split
    · exact h.same hx rfl rfl g.controlFd
    · refine h.same hx ?_ ?_ _ <;> rfl
  | close fd => refine h.same hx ?_ ?_ none <;> rfl
  | create fd name uuid =>
    obtain ⟨-, -, rfl, rfl⟩ := hmay
    simp only [DmKernel.handle]
    split
    · exact h.same hx rfl rfl g.controlFd
    · next hrefuses => exact h.create hx (device_none_of_create hrefuses) _ _
  | mknod path dev =>
    obtain ⟨hstage, rfl, rfl⟩ := hmay
    simp only [DmKernel.handle]
    split
    · exact h.same hx rfl rfl g.controlFd
    · next hrefuses => exact h.mknod hx hstage (node_none_of_mknod hrefuses)
  | load fd name table =>
    obtain ⟨-, hstage, rfl, rfl⟩ := hmay
    simp only [DmKernel.handle]
    split
    · exact h.same hx rfl rfl g.controlFd
    · have hasked : g.stage ≠ .asked := by simp [hstage]
      have hown := h.holds x g hx hasked
      refine h.change hx hasked ?_ ?_ hown ?_ (hown.node (by simp [hstage]))
      · rfl
      · simp [dmDiscipline]
      · simp [DmCaller.device, dmDiscipline, hstage]
  | suspend fd name =>
    obtain ⟨-, hstage, rfl⟩ := hmay
    simp only [DmKernel.handle]
    split
    · exact h.same hx rfl rfl g.controlFd
    · have hasked : g.stage ≠ .asked := by simp [hstage]
      have hown := h.holds x g hx hasked
      refine h.change hx hasked ?_ ?_ hown ?_ (hown.node (by simp [hstage]))
      · rfl
      · simp [dmDiscipline]
      · simp [DmCaller.device, DmDevice.resume, dmDiscipline, hstage]

/-- A caller that has no device begins. -/
theorem DmKernel.Made.begin (h : k.Made H) (hx : H x = none) (r : VerityRequest) : k.Made (Function.update H x (some r.first)) := by
  have hasked {y : χ} {g₁ : DmCaller} (hy : Function.update H x (some r.first) y = some g₁) (h₁ : g₁.stage ≠ .asked) :
      H y = some g₁ := by
    rcases of_update_some hy with ⟨-, rfl⟩ | ⟨-, hyH⟩
    · exact absurd rfl h₁
    · exact hyH
  refine ⟨fun y g₁ hy h₁ => h.holds y g₁ (hasked hy h₁) h₁,
    fun y z g₁ g₂ hy hz h₁ h₂ => h.unique y z g₁ g₂ (hasked hy h₁) (hasked hz h₂) h₁ h₂, fun name d hd => ?_⟩
  obtain ⟨y, g₁, hy, h₁, hname⟩ := h.made name d hd
  refine ⟨y, g₁, ?_, h₁, hname⟩
  rw [Function.update_of_ne, hy]
  rintro rfl
  rw [hx] at hy
  cases hy

/-- A caller becomes another one. -/
theorem DmKernel.Made.move (h : k.Made H) (hx : H x = some g) {z : χ} (hz : H z = none) :
    k.Made (Function.update (Function.update H x none) z (some g)) := by
  have hzx : z ≠ x := by
    rintro rfl
    rw [hz] at hx
    cases hx
  -- who had it before
  have hback {y : χ} {g₁ : DmCaller} (hy : Function.update (Function.update H x none) z (some g) y = some g₁) :
      y = z ∧ H x = some g₁ ∨ y ≠ z ∧ y ≠ x ∧ H y = some g₁ := by
    rcases of_update_some hy with ⟨hyz, rfl⟩ | ⟨hyz, hy⟩
    · exact .inl ⟨hyz, hx⟩
    · refine .inr ⟨hyz, fun hyx => ?_, of_update_none hy⟩
      rw [hyx, Function.update_self] at hy
      cases hy
  refine ⟨fun y g₁ hy h₁ => ?_, fun y y' g₁ g₂ hy hy' h₁ h₂ hname => ?_, fun name d hd => ?_⟩
  · rcases hback hy with ⟨-, hH⟩ | ⟨-, -, hH⟩ <;> exact h.holds _ g₁ hH h₁
  · rcases hback hy with ⟨hyz, hH⟩ | ⟨-, hyx, hH⟩ <;> rcases hback hy' with ⟨hyz', hH'⟩ | ⟨-, hyx', hH'⟩
    · exact hyz.trans hyz'.symm
    · exact absurd (h.unique _ _ g₁ g₂ hH hH' h₁ h₂ hname).symm hyx'
    · exact absurd (h.unique _ _ g₁ g₂ hH hH' h₁ h₂ hname) hyx
    · exact h.unique _ _ g₁ g₂ hH hH' h₁ h₂ hname
  · obtain ⟨y, g₁, hy, h₁, hname⟩ := h.made name d hd
    by_cases hyx : y = x
    · subst hyx
      obtain rfl := Option.some_inj.mp (hx.symm.trans hy)
      exact ⟨z, g, Function.update_self .., h₁, hname⟩
    · refine ⟨y, g₁, ?_, h₁, hname⟩
      rw [Function.update_of_ne, Function.update_of_ne hyx, hy]
      rintro rfl
      rw [hz] at hy
      cases hy

end

/-! ## Runs -/

section
variable {ι : Type} [DecidableEq ι] {s s' : Callers ι DmKernel DmCall VerityRequest ℤ DmCall.Response}
  {tr tr' : List (CallersLabel ι VerityRequest DmOutcome)}

/-- Those who call, and those whose call has returned. -/
def dmCallers (g : ι → Option (VerityRequest × DmCaller)) (book : List DmCaller) : ι ⊕ ℕ → Option DmCaller
  | .inl i => (g i).map Prod.snd
  | .inr n => book[n]?

theorem dmCallers_update (g : ι → Option (VerityRequest × DmCaller)) (book : List DmCaller) (i : ι)
    (x : Option (VerityRequest × DmCaller)) :
    dmCallers (Function.update g i x) book = Function.update (dmCallers g book) (.inl i) (x.map Prod.snd) := by
  funext y
  cases y with
  | inl j =>
    by_cases hj : j = i
    · subst hj
      simp [dmCallers]
    · simp [dmCallers, hj]
  | inr n => simp [dmCallers]

theorem dmCallers_snoc (g : ι → Option (VerityRequest × DmCaller)) (book : List DmCaller) (h : DmCaller) :
    dmCallers g (book ++ [h]) = Function.update (dmCallers g book) (.inr book.length) (some h) := by
  funext y
  cases y with
  | inl j => simp [dmCallers]
  | inr n =>
    by_cases hn : n = book.length
    · subst hn
      simp [dmCallers]
    · rw [Function.update_of_ne (by simpa using hn)]
      show (book ++ [h])[n]? = book[n]?
      rcases Nat.lt_or_gt_of_ne hn with hlt | hgt
      · exact List.getElem?_append_left hlt
      · rw [List.getElem?_eq_none (by simp; omega), List.getElem?_eq_none (by omega)]

/-- What a call has returned. -/
def DmCaller.Entered (h : DmCaller) (e : ι × VerityRequest × ℤ) : Prop := h.request = e.2.1 ∧ (e.2.2 = 0 ↔ h.stage = .active)

/-- The book of the calls that have returned; `front` is the first part of it. -/
structure DmInv (front : List DmCaller) (k : DmKernel) (g : ι → Option (VerityRequest × DmCaller))
    (returned : List (ι × VerityRequest × ℤ)) : Prop where
  requests : ∀ i request h, g i = some (request, h) → h.request = request
  booked : ∃ book, front <+: book ∧ k.Made (dmCallers g book) ∧ List.Forall₂ DmCaller.Entered book returned

theorem after_request (h : DmCaller) (c : DmCall) (res : c.Response) : (dmDiscipline.after h c res).request = h.request := by
  cases c <;> cases res <;> rfl

theorem verity_keeps (front : List DmCaller) :
    Callers.Keeps DmKernel.handle (fun _ _ => True) dmDiscipline VerityRequest.first (fun _ h res => h.Returns res)
      fun k (g : ι → Option (VerityRequest × DmCaller)) _ returned => DmInv front k g returned where
  start k g calls returned i request hI hi _ := by
    obtain ⟨book, hfront, hmade, hbook⟩ := hI.booked
    refine ⟨of_update_pair hI.requests rfl, book, hfront, ?_, hbook⟩
    rw [dmCallers_update]
    exact hmade.begin (by simp [dmCallers, hi]) request
  call k g calls returned i request h c o hI hi hmay := by
    obtain ⟨book, hfront, hmade, hbook⟩ := hI.booked
    refine ⟨of_update_pair hI.requests ((after_request h c _).trans (hI.requests i request h hi)), book, hfront, ?_, hbook⟩
    rw [dmCallers_update]
    exact hmade.call (by simp [dmCallers, hi]) hmay o
  done k g calls returned i request h res hI hi hpost := by
    obtain ⟨book, hfront, hmade, hbook⟩ := hI.booked
    refine ⟨fun j request' h' hj => hI.requests j request' h' (of_update_none hj), book ++ [h],
      hfront.trans (List.prefix_append ..), ?_, ?_⟩
    · rw [dmCallers_snoc, dmCallers_update]
      exact hmade.move (by simp [dmCallers, hi]) (by simp [dmCallers])
    · exact List.rel_append hbook (.cons ⟨hI.requests i request h hi, hpost.active⟩ .nil)

omit [DecidableEq ι] in
theorem dmInv_start : DmInv [] ⟨⟨[], []⟩, fun _ => none, [], fun _ => none⟩ (fun _ : ι => none) [] :=
  ⟨fun _ _ _ h => (by cases h), [], List.prefix_rfl,
    ⟨fun x _ h => (by cases x <;> cases h), fun x _ _ _ h => (by cases x <;> cases h), fun _ _ h => (by cases h)⟩, .nil⟩

omit [DecidableEq ι] in
/-- The entry of a call. -/
theorem exists_entry {book : List DmCaller} {returned : List (ι × VerityRequest × ℤ)}
    (h : List.Forall₂ DmCaller.Entered book returned) {n : ℕ} {e : ι × VerityRequest × ℤ} (he : returned[n]? = some e) :
    ∃ g, book[n]? = some g ∧ g.Entered e := by
  induction h generalizing n with
  | nil => cases he
  | cons hentered _ ih =>
    cases n with
    | zero =>
      obtain rfl := Option.some_inj.mp he
      exact ⟨_, rfl, hentered⟩
    | succ n => exact ih he

/-- The device and the node are there, and the device works with the table that was asked for. -/
def DmKernel.Active (k : DmKernel) (r : VerityRequest) : Prop :=
  ∃ dev, k.device r.deviceName = some ⟨r.deviceUuid, dev, none, some r.table⟩ ∧ k.node r.path = some dev

/-- It is or was called for. -/
def VerityAsked (s : Callers ι DmKernel DmCall VerityRequest ℤ DmCall.Response) (r : VerityRequest) : Prop :=
  ∃ i, s.asked i = some r ∨ ∃ res, (i, r, res) ∈ s.returned

omit [DecidableEq ι] in
theorem holds_active {k : DmKernel} {g : DmCaller} (h : k.Holds g) (hactive : g.stage = .active) : k.Active g.request := by
  refine ⟨g.dev, ?_, h.node (by simp [hactive])⟩
  rw [h.device]
  simp [DmCaller.device, hactive]

theorem control_keeps (ι : Type) [DecidableEq ι] :
    Callers.Keeps DmKernel.handle (fun _ _ => True) dmDiscipline VerityRequest.first (fun _ h res => h.Returns res)
      fun k (g : ι → Option (VerityRequest × DmCaller)) _ _ => k.descriptors.OwnedBy (fdOf DmCaller.controlFd g) := by
  refine descriptors_keeps DmKernel.descriptors DmCaller.controlFd _ (fun _ => rfl) (fun k g c o hmay => ?_)
    fun _ _ _ hpost => hpost.closed
  cases c with
  | openControl =>
    replace hmay : g.controlFd = none := hmay
    simp only [DmKernel.handle]
    split
    · exact .keep rfl
    · show FdStep _ _ g.controlFd _
      rw [hmay]
      exact .create () o.number rfl
  | close fd =>
    replace hmay : g.controlFd = some fd := hmay
    show FdStep _ _ g.controlFd _
    rw [hmay]
    exact .close fd rfl
  | create fd name uuid | mknod path dev | load fd name table | suspend fd name =>
    simp only [DmKernel.handle]
    split <;> exact .keep rfl

/-- It is used by who has opened it. -/
theorem may_fd {g : DmCaller} {c : DmCall} (hmay : dmDiscipline.may g c) {fd : ℕ} (hfd : c.fd? = some fd) :
    g.controlFd = some fd := by
  cases c with
  | openControl | mknod => cases hfd
  | create fd' name uuid =>
    obtain rfl := Option.some_inj.mp hfd
    exact hmay.1
  | load fd' name table =>
    obtain rfl := Option.some_inj.mp hfd
    exact hmay.1
  | suspend fd' name =>
    obtain rfl := Option.some_inj.mp hfd
    exact hmay.1
  | close fd' =>
    obtain rfl := Option.some_inj.mp hfd
    exact hmay

/-- **Control devices.**  At every time each caller has opened the control device once at most, and it is closed when nobody
calls; what a caller is about to close or to use is its own. -/
theorem control_closed (hr : (verityCalls ι).Run tr s) :
    ∃ controlFd : ι → Option ℕ, s.kernel.descriptors.OwnedBy controlFd ∧ (∀ i, s.running i = none → controlFd i = none) ∧
      ∀ i r c fd, s.about i = some (r, c) → c.fd? = some fd → controlFd i = some fd := by
  have hinit : (⟨[], []⟩ : Descriptors Unit).OwnedBy
      (fdOf DmCaller.controlFd fun _ : ι => (none : Option (VerityRequest × DmCaller))) :=
    ⟨⟨List.nodup_nil, rfl⟩, fun fd => ⟨fun h => (by cases h), fun ⟨_, h⟩ => (by cases h)⟩, fun _ _ _ h => (by cases h)⟩
  obtain ⟨g, hI, hagrees⟩ := callers_invariant verity_follows (control_keeps ι) hinit hr
  refine ⟨fdOf DmCaller.controlFd g, hI, fun i hi => (hagrees i).fdOf_none hi, fun i r c fd hi hfd => ?_⟩
  obtain ⟨h, hg, hmay⟩ := (hagrees i).may hi
  exact (fdOf_some hg).trans (may_fd hmay hfd)

/-- **Devices left behind.**  If nobody is called for the device any more, it stays as it is; if it is not active then, no
call for its name ever returns zero. -/
theorem half_created_stays (hr : (verityCalls ι).Run tr s) (p : (verityCalls ι).Path s tr' s') {name : List UInt8}
    {d : DmDevice} (hd : s.kernel.device name = some d) (hidle : ∀ i r, s.asked i = some r → r.deviceName ≠ name) :
    s'.kernel.device name = some d ∧
    (d.active = none → ∀ i r res, (i, r, res) ∈ s'.returned → r.deviceName = name → res ≠ 0) := by
  obtain ⟨g, hI, hagrees⟩ := callers_invariant verity_follows (verity_keeps []) dmInv_start hr
  obtain ⟨book, -, hmade, hbook⟩ := hI.booked
  obtain ⟨x, h, hx, hstage, rfl⟩ := hmade.made name d hd
  obtain rfl := Option.some_inj.mp ((hmade.holds x h hx hstage).device.symm.trans hd)
  cases x with
  | inl i =>
    obtain ⟨⟨request, h'⟩, hi, rfl⟩ := Option.map_eq_some_iff.mp hx
    have hasked := (hagrees i).map_fst
    rw [hi] at hasked
    exact absurd (congrArg VerityRequest.deviceName (hI.requests i request h' hi)) (Ne.symm (hidle i request hasked))
  | inr n =>
    -- the entry stays in the book
    obtain ⟨g', hI', -⟩ := callers_path verity_follows (verity_keeps book)
      ⟨g, ⟨hI.requests, book, List.prefix_rfl, hmade, hbook⟩, hagrees⟩ p
    obtain ⟨book', ⟨behind, rfl⟩, hmade', hbook'⟩ := hI'.booked
    have hentry : dmCallers g' (book ++ behind) (.inr n) = some h := by
      obtain ⟨hlt, -⟩ := List.getElem?_eq_some_iff.mp hx
      exact (List.getElem?_append_left hlt).trans hx
    refine ⟨(hmade'.holds (.inr n) h hentry hstage).device, fun hactive i r res hmem hname hres => ?_⟩
    obtain ⟨m, hm⟩ := List.mem_iff_getElem?.mp hmem
    obtain ⟨h₁, hh₁, hrequest, hzero⟩ := exists_entry hbook' hm
    have hactive₁ := hzero.mp hres
    obtain rfl : h₁.request = r := hrequest
    obtain rfl := Sum.inr.inj (hmade'.unique (.inr m) (.inr n) h₁ h hh₁ hentry (by simp [hactive₁]) hstage hname)
    obtain rfl := Option.some_inj.mp (hentry.symm.trans hh₁)
    simp [DmCaller.device, hactive₁] at hactive

end

/-! ## A root file system -/

section

/-- Its name, and the devices of its data and of its hash tree. -/
def rootRequest : VerityRequest :=
  ⟨bytesOf "root", bytesOf "00-11", bytesOf "/dev/loop0", 12582912, bytesOf "/dev/loop1", 4096, bytesOf "01", bytesOf "12"⟩

example : rootRequest.table = ⟨24576, bytesOf "verity", bytesOf "1 /dev/loop0 /dev/loop1 4096 4096 3072 1 sha256 01 12"⟩ := by
  decide +kernel

instance (s : Callers Bool DmKernel DmCall VerityRequest ℤ DmCall.Response) : ∀ l, Decidable ((verityCalls Bool).enabled s l)
  | .start _ _ => inferInstanceAs (Decidable (_ ∧ True))
  | .step _ _ => inferInstanceAs (Decidable (¬_))

/-- A call by a caller that is not stopped. -/
def dmStep (i : Bool) : CallersLabel Bool VerityRequest DmOutcome := .step i ⟨none, 5⟩

/-- Six calls and the return. -/
def rootCreated : List (CallersLabel Bool VerityRequest DmOutcome) := .start true rootRequest :: List.replicate 7 (dmStep true)

/-- One thread is about to activate its device, another one has opened the control device as well. -/
theorem control_closed_root : ∃ s : Callers Bool DmKernel DmCall VerityRequest ℤ DmCall.Response,
    s.kernel.descriptors.numbers = [5, 6] ∧ s.about true = some (rootRequest, .suspend 5 (bytesOf "root")) ∧
    ∃ controlFd : Bool → Option ℕ, s.kernel.descriptors.OwnedBy controlFd ∧ controlFd true = some 5 := by
  have hreached : ∃ s, (verityCalls Bool).Run (.start true rootRequest :: List.replicate 4 (dmStep true) ++
      [.start false rootRequest, dmStep false]) s ∧ s.kernel.descriptors.numbers = [5, 6] ∧
      s.about true = some (rootRequest, .suspend 5 (bytesOf "root")) :=
    ⟨_, (System.path_of_runs (by decide +kernel)).run, by decide +kernel⟩
  obtain ⟨s, hrun, hnumbers, habout⟩ := hreached
  obtain ⟨controlFd, hown, -, huse⟩ := control_closed hrun
  exact ⟨s, hnumbers, habout, controlFd, hown, huse true rootRequest _ 5 habout rfl⟩

/-- The table is refused, with `EINVAL`. -/
def rootRefused : List (CallersLabel Bool VerityRequest DmOutcome) :=
  .start true rootRequest :: List.replicate 3 (dmStep true) ++ [.step true ⟨some (Nat.toPNat' 22), 5⟩, dmStep true, dmStep true]

/-- The call is repeated by another thread. -/
def rootAgain : List (CallersLabel Bool VerityRequest DmOutcome) := .start false rootRequest :: List.replicate 4 (dmStep false)

theorem half_created_stays_root : ∃ s s' : Callers Bool DmKernel DmCall VerityRequest ℤ DmCall.Response,
    (verityCalls Bool).Path s rootAgain s' ∧ s'.returned = [(true, rootRequest, -1), (false, rootRequest, -1)] ∧
    s'.kernel.device (bytesOf "root") = some ⟨bytesOf "00-11", 5, none, none⟩ := by
  have hreached : ∃ s s', (verityCalls Bool).Run rootRefused s ∧ (verityCalls Bool).Path s rootAgain s' ∧
      s.kernel.device (bytesOf "root") = some ⟨bytesOf "00-11", 5, none, none⟩ ∧ (s.asked true = none ∧ s.asked false = none) ∧
      s'.returned = [(true, rootRequest, -1), (false, rootRequest, -1)] :=
    ⟨_, _, (System.path_of_runs (by decide +kernel)).run, System.path_of_runs (by decide +kernel), by decide +kernel,
      by decide +kernel, by decide +kernel⟩
  obtain ⟨s, s', hrun, hpath, hdevice, ⟨htrue, hfalse⟩, hreturned⟩ := hreached
  refine ⟨s, s', hpath, hreturned, (half_created_stays hrun hpath hdevice fun i r hi => ?_).1⟩
  cases i
  · rw [hfalse] at hi
    cases hi
  · rw [htrue] at hi
    cases hi

end

end Monolinux
