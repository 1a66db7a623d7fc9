import Monolinux.Lib.CString
import Monolinux.Lib.LinkedList

/-!
# Log objects

The log objects are in a linked list: `ml_log_object_register` puts one in front of it,
and nothing takes one out.  `ι` are the addresses of the objects, and a loop over the
list has no result if it is not over after `fuel` steps.

`m.Lists objects`: the list of the module is `objects`.

* `register_lists`: a new object is put in front;
* `add_again`, `add_returns`: with an object that is registered already the list has
  no end (`LogModule.Returns.not_lists`), and never has one again;
* `mlLogObjectGetByName_eq`: the look-up finds the first object of the name.
-/

namespace Monolinux

structure LogObject (ι : Type*) where
  name : List UInt8
  level : ℤ
  next : Option ι

structure LogModule (ι : Type*) where
  head : Option ι
  object : ι → LogObject ι

variable {ι : Type*} [DecidableEq ι]

/-! ## Operations -/

def mlLogObjectInit (self : ι) (name : List UInt8) (level : ℤ) (m : LogModule ι) : LogModule ι :=
  { m with object := Function.update m.object self { m.object self with name := name, level := level } }

def mlLogObjectRegister (self : ι) (m : LogModule ι) : LogModule ι :=
  { head := some self
    object := Function.update m.object self { m.object self with next := m.head } }

omit [DecidableEq ι] in
def mlLogObjectListNext (m : LogModule ι) : Option ι → Option ι
  | none => m.head
  | some logObject => (m.object logObject).next

omit [DecidableEq ι] in
/-- The loop of `ml_log_object_get_by_name`, which starts with `none`. -/
def mlLogObjectGetByName (m : LogModule ι) (name : List UInt8) : ℕ → Option ι → Option (Option ι)
  | 0, _ => none
  | fuel + 1, logObject =>
    match mlLogObjectListNext m logObject with
    | none => some none
    | some logObject =>
      if (m.object logObject).name = name then some (some logObject)
      else mlLogObjectGetByName m name fuel (some logObject)

def mlLogObjectSetLevel (self : ι) (level : ℤ) (m : LogModule ι) : LogModule ι :=
  { m with object := Function.update m.object self { m.object self with level := level } }

def mlLogObjectLevelToString (level : ℤ) : List UInt8 :=
  match level with
  | 0 => bytesOf "emergency"
  | 1 => bytesOf "alert"
  | 2 => bytesOf "critical"
  | 3 => bytesOf "error"
  | 4 => bytesOf "warning"
  | 5 => bytesOf "notice"
  | 6 => bytesOf "info"
  | 7 => bytesOf "debug"
  | _ => bytesOf "*** unknown ***"

def mlLogObjectLevelFromString (level : List UInt8) : ℤ :=
  if bytesOf "emergency" = level then 0
  else if bytesOf "alert" = level then 1
  else if bytesOf "critical" = level then 2
  else if bytesOf "error" = level then 3
  else if bytesOf "warning" = level then 4
  else if bytesOf "notice" = level then 5
  else if bytesOf "info" = level then 6
  else if bytesOf "debug" = level then 7
  else -1

/-! ## The list -/

omit [DecidableEq ι] in
def LogModule.Lists (m : LogModule ι) (objects : List ι) : Prop :=
  Linked (fun a => (m.object a).next) m.head objects

/-- The next pointers after a registration. -/
theorem register_next (self : ι) (m : LogModule ι) : (fun a => ((mlLogObjectRegister self m).object a).next) =
    Function.update (fun a => (m.object a).next) self m.head := by
  funext a
  by_cases h : a = self
  · subst h
    simp [mlLogObjectRegister]
  · simp [mlLogObjectRegister, h]

theorem register_lists {m : LogModule ι} {objects : List ι} (h : m.Lists objects) {self : ι} (hnew : self ∉ objects) :
    (mlLogObjectRegister self m).Lists (self :: objects) := by
  unfold LogModule.Lists
  rw [register_next]
  exact h.push hnew

/-- The next pointers after an initialisation. -/
theorem init_next (self : ι) (name : List UInt8) (level : ℤ) (m : LogModule ι) :
    (fun a => ((mlLogObjectInit self name level m).object a).next) = fun a => (m.object a).next := by
  funext b
  by_cases hb : b = self
  · subst hb
    simp [mlLogObjectInit]
  · simp [mlLogObjectInit, hb]

theorem init_lists {m : LogModule ι} {objects : List ι} (h : m.Lists objects) (self : ι) (name : List UInt8) (level : ℤ) :
    (mlLogObjectInit self name level m).Lists objects := by
  unfold LogModule.Lists
  rw [init_next]
  exact h

omit [DecidableEq ι] in
theorem getByName_linked {m : LogModule ι} (name : List UInt8) {p : Option ι} {objects : List ι} {fuel : ℕ}
    (hp : Linked (fun a => (m.object a).next) (mlLogObjectListNext m p) objects) (hfuel : objects.length < fuel) :
    mlLogObjectGetByName m name fuel p = some (objects.find? fun a => (m.object a).name = name) := by
  induction objects generalizing p fuel with
  | nil =>
    obtain ⟨fuel, rfl⟩ : ∃ k, fuel = k + 1 := ⟨fuel - 1, by omega⟩
    unfold mlLogObjectGetByName
    generalize mlLogObjectListNext m p = q at hp ⊢
    cases hp
    rfl
  | cons a objects ih =>
    rw [List.length_cons] at hfuel
    obtain ⟨fuel, rfl⟩ : ∃ k, fuel = k + 1 := ⟨fuel - 1, by omega⟩
    unfold mlLogObjectGetByName
    generalize hq : mlLogObjectListNext m p = q at hp ⊢
    cases hp with
    | cons hrest =>
      by_cases hname : (m.object a).name = name
      · simp [hname]
      · simp [hname, ih (p := some a) hrest (by omega : objects.length < fuel)]

omit [DecidableEq ι] in
/-- **Look-up by name.** -/
theorem mlLogObjectGetByName_eq {m : LogModule ι} {objects : List ι} (h : m.Lists objects) {fuel : ℕ}
    (hfuel : objects.length < fuel) (name : List UInt8) :
    mlLogObjectGetByName m name fuel none = some (objects.find? fun a => (m.object a).name = name) :=
  getByName_linked name h hfuel

/-! ## A list without an end -/

/-- How `ml_dhcp_client_init` and others put a log object in the list. -/
def addLogObject (self : ι) (name : List UInt8) (level : ℤ) (m : LogModule ι) : LogModule ι :=
  mlLogObjectRegister self (mlLogObjectInit self name level m)

section
variable {m : LogModule ι} {registered : List ι} {self other : ι}

omit [DecidableEq ι] in
/-- The list comes to `self`. -/
def LogModule.Visits (m : LogModule ι) (self : ι) : Prop := Reaches (fun a => (m.object a).next) m.head self

omit [DecidableEq ι] in
/-- The list comes to `self` after `self`. -/
def LogModule.Returns (m : LogModule ι) (self : ι) : Prop :=
  Reaches (fun a => (m.object a).next) (m.object self).next self

/-- Nothing but the objects that were registered is in the list. -/
structure LogModule.Within (m : LogModule ι) (registered : List ι) : Prop where
  head : ∀ a, m.head = some a → a ∈ registered
  next : ∀ a ∈ registered, ∀ b, (m.object a).next = some b → b ∈ registered

omit [DecidableEq ι] in
theorem LogModule.Returns.not_lists (hr : m.Returns self) (h : m.Visits self) (objects : List ι) : ¬m.Lists objects :=
  Reaches.not_linked h hr objects

omit [DecidableEq ι] in
theorem LogModule.Lists.visits (h : m.Lists registered) (hself : self ∈ registered) : m.Visits self :=
  Linked.reaches h hself

omit [DecidableEq ι] in
theorem LogModule.Lists.within (h : m.Lists registered) : m.Within registered where
  head a ha := Linked.mem_of_reaches h (ha ▸ Reaches.here a)
  next a ha b hb := by
    refine Linked.mem_of_reaches h ((Linked.reaches h ha).trans ?_)
    rw [hb]
    exact .here b

omit [DecidableEq ι] in
theorem LogModule.Within.not_visits (h : m.Within registered) (hother : other ∉ registered) : ¬m.Visits other := by
  intro hv
  exact hother (Reaches.mem_of_closed (s := {a | a ∈ registered}) hv h.head h.next)

theorem add_next (other : ι) (name : List UInt8) (level : ℤ) (m : LogModule ι) :
    (fun a => ((addLogObject other name level m).object a).next) =
      Function.update (fun a => (m.object a).next) other m.head := by
  unfold addLogObject
  rw [register_next, init_next]
  rfl

variable (name : List UInt8) (level : ℤ)

theorem add_lists (h : m.Lists registered) (hnew : other ∉ registered) :
    (addLogObject other name level m).Lists (other :: registered) :=
  register_lists (init_lists h other name level) hnew

theorem add_within (h : m.Within registered) : (addLogObject other name level m).Within (other :: registered) where
  head a ha := by
    obtain rfl := Option.some_inj.mp ha
    exact List.mem_cons_self
  next a ha b hb := by
    have hnext := congrFun (add_next other name level m) a
    rw [hb] at hnext
    by_cases hao : a = other
    · rw [hao, Function.update_self] at hnext
      exact List.mem_cons_of_mem _ (h.head b hnext.symm)
    · rw [Function.update_of_ne hao] at hnext
      exact List.mem_cons_of_mem _ (h.next a ((List.mem_cons.mp ha).resolve_left hao) b hnext.symm)

theorem add_visits_self (m : LogModule ι) : (addLogObject self name level m).Visits self := Reaches.here self

theorem add_visits (h : m.Visits self) (hnew : ¬m.Visits other) : (addLogObject other name level m).Visits self := by
  unfold LogModule.Visits
  rw [add_next]
  refine Reaches.further ?_
  rw [Function.update_self]
  exact Reaches.update h hnew m.head

/-- **Added again**, an object is followed by itself. -/
theorem add_again (h : m.Visits self) : (addLogObject self name level m).Returns self := by
  have hnext := congrFun (add_next self name level m) self
  unfold LogModule.Returns
  rw [add_next, hnext, Function.update_self]
  exact Reaches.update_self h m.head

theorem add_returns (hr : m.Returns self) (h : m.Visits self) (hnew : ¬m.Visits other) :
    (addLogObject other name level m).Returns self := by
  have hne : self ≠ other := by
    rintro rfl
    exact hnew h
  have hnext := congrFun (add_next other name level m) self
  unfold LogModule.Returns
  rw [add_next, hnext, Function.update_of_ne hne]
  exact Reaches.update hr (fun ho => hnew (Reaches.trans h ho)) m.head

end

/-! ## Levels -/

/-- `ML_LOG_EMERGENCY` to `ML_LOG_DEBUG`. -/
def ValidLevel (level : ℤ) : Prop := 0 ≤ level ∧ level ≤ 7

instance (level : ℤ) : Decidable (ValidLevel level) := inferInstanceAs (Decidable (0 ≤ level ∧ level ≤ 7))

theorem ValidLevel.cases {level : ℤ} (h : ValidLevel level) : level = 0 ∨ level = 1 ∨ level = 2 ∨ level = 3 ∨
    level = 4 ∨ level = 5 ∨ level = 6 ∨ level = 7 := by
  unfold ValidLevel at h
  omega

/-- The string of a level is a word, which names the level. -/
theorem levelToString_of_valid {level : ℤ} (h : ValidLevel level) :
    mlLogObjectLevelFromString (mlLogObjectLevelToString level) = level ∧ mlLogObjectLevelToString level ≠ [] ∧
      (∀ c ∈ mlLogObjectLevelToString level, isspace c = false) ∧ (mlLogObjectLevelToString level).length ≤ 15 := by
  rcases h.cases with rfl | rfl | rfl | rfl | rfl | rfl | rfl | rfl <;>
    exact ⟨by decide, by decide, forall_not_isspace (by decide), by decide⟩

theorem levelToString_of_invalid {level : ℤ} (h : ¬ValidLevel level) :
    mlLogObjectLevelToString level = bytesOf "*** unknown ***" := by
  unfold mlLogObjectLevelToString
  unfold ValidLevel at h
  split
  all_goals first | omega | rfl

end Monolinux
