import Mathlib.Algebra.BigOperators.Group.List.Basic
import Monolinux.Lib.Run
import Monolinux.Log.Print
import Monolinux.Log.Store

/-!
# Log levels in use

`logging` is the system of everything that reads or changes the log levels: objects are
registered, the program and the shell command `log` set levels, levels are stored in the
file and loaded from it, and the process starts again with what it registers then.

Its specification is a list of names with levels and a saved copy of it
(`LogLevels`).

* `logging_refines`: in every run the linked list and the file are those of the specification,
  and so is what `log` answers and what is written when something is printed;
* `levels_persist`: levels that were stored are there again after a load, in whatever order a
  process that was started since has registered its objects.

The names of the objects are words of at most 63 bytes, as a load can read them, and what
`log print` prints has no `%`, as it is taken for a format (`LogState.Enabled`).
-/

namespace Monolinux

variable {ι : Type} [DecidableEq ι]

/-! ## The shell command -/

omit [DecidableEq ι] in
/-- `"%-16s  %s\n"`. -/
def levelLine (name : List UInt8) (level : ℤ) : List UInt8 :=
  name.rightpad 16 0x20 ++ [0x20, 0x20] ++ mlLogObjectLevelToString level ++ [0x0a]

/-- **A line of the table** says the name and the level of its object, as a line of the file does. -/
theorem scanLine_levelLine {name : List UInt8} (hname : IsWord name) {level : ℤ} (hlevel : ValidLevel level) :
    scanLine (levelLine name level) = some (name, mlLogObjectLevelToString level, [0x0a]) := by
  have hline : levelLine name level =
      name ++ (List.replicate (16 - name.length) 0x20 ++ [0x20, 0x20] ++ (mlLogObjectLevelToString level ++ [0x0a])) := by
    simp [levelLine, List.rightpad]
  have hspaces : ∀ c ∈ List.replicate (16 - name.length) (0x20 : UInt8) ++ [0x20, 0x20], isspace c = true := by
    intro c hc
    rcases List.mem_append.mp hc with hc | hc
    · rw [List.eq_of_mem_replicate hc]
      rfl
    · simp only [List.mem_cons, List.not_mem_nil, or_false, or_self] at hc
      rw [hc]
      rfl
  rw [hline]
  exact scanLine_blanks hname (by simp) hspaces hlevel []

omit [DecidableEq ι] in
/-- The loop of `command_log_list`, which starts with `none`. -/
def listLoop (m : LogModule ι) : ℕ → Option ι → Option (List UInt8)
  | 0, _ => none
  | fuel + 1, logObject =>
    match mlLogObjectListNext m logObject with
    | none => some []
    | some logObject =>
      (listLoop m fuel (some logObject)).map (levelLine (m.object logObject).name (m.object logObject).level ++ ·)

/-- What a command returns and prints, what it writes to the log, and the module and the file after it. -/
structure LogResult (ι : Type) where
  res : ℤ
  printed : List UInt8
  written : List (List UInt8)
  m : LogModule ι
  file : Option (List UInt8)

/-- What the environment gives to a command: the name of the file and whether it can be opened, what `command_dmesg`
returns and prints, the date, and the memory of the buffer of a record. -/
structure LogEnv where
  path : List UInt8
  opened : Bool
  dmesg : ℤ × List UInt8
  date : List UInt8
  buf : List UInt8

section
variable (fuel : ℕ) (dflt own : ι) (env : LogEnv) (argv : List (List UInt8)) (m : LogModule ι) (file : Option (List UInt8))

omit [DecidableEq ι] in
def commandLogList : Option (LogResult ι) :=
  if argv.length ≠ 2 then some ⟨-22, [], [], m, file⟩
  else (listLoop m fuel none).map fun lines => ⟨0, bytesOf "OBJECT-NAME       LEVEL\n" ++ lines, [], m, file⟩

def commandLogSetLevel : Option (LogResult ι) :=
  match argv with
  | [_, _, name, level] => do
    match ← mlLogObjectGetByName m name fuel none with
    | none => some ⟨-22, [], [], m, file⟩
    | some logObject =>
      let value := mlLogObjectLevelFromString level
      if value = -1 then some ⟨-22, [], [], m, file⟩
      else some ⟨0, [], [], mlLogObjectSetLevel logObject value m, file⟩
  | _ => some ⟨-22, [], [], m, file⟩

omit [DecidableEq ι] in
def commandLogStore : Option (LogResult ι) :=
  if argv.length ≠ 2 then some ⟨-22, [], [], m, file⟩
  else do
    let (res, text) ← mlLogObjectStore fuel env.opened m
    -- the module logs that it has failed
    let written ←
      if env.opened then some []
      else mlLogObjectVprint (m.object own) 3 env.date (bytesOf "Failed to open " ++ env.path ++ bytesOf ".") env.buf
    some ⟨res, [], written, m, text.or file⟩

omit [DecidableEq ι] in
/-- `ml_log_print` takes the message for a format; no result if there is a `%` in it. -/
def mlLogPrint (level : ℤ) (message : List UInt8) : Option (List (List UInt8)) :=
  if 0x25 ∈ message then none else mlLogObjectVprint (m.object dflt) level env.date message env.buf

omit [DecidableEq ι] in
def commandLogPrint : Option (LogResult ι) :=
  let (level, message) :=
    match argv with
    | [_, _, message] => (6, message)
    | [_, _, level, message] => (mlLogObjectLevelFromString level, message)
    | _ => (-1, [])
  if level = -1 then some ⟨-22, [], [], m, file⟩
  else (mlLogPrint dflt env m level message).map fun written => ⟨0, [], written, m, file⟩

omit [DecidableEq ι] in
def commandLogShow : LogResult ι :=
  if argv.length ≠ 2 then ⟨-22, [], [], m, file⟩ else ⟨env.dmesg.1, env.dmesg.2, [], m, file⟩

omit [DecidableEq ι] in
def logUsage : List UInt8 :=
  bytesOf ("Usage: log show\n" ++ "       log list\n" ++ "       log set_level <log-object> <mask>\n" ++
    "       log store\n" ++ "       log print <message>\n" ++ "       log print <level> <message>\n")

/-- The branches of `command_log`. -/
def commandLogBranch : Option (LogResult ι) :=
  match argv with
  | _ :: subcommand :: _ =>
    if subcommand = bytesOf "list" then commandLogList fuel argv m file
    else if subcommand = bytesOf "set_level" then commandLogSetLevel fuel argv m file
    else if subcommand = bytesOf "store" then commandLogStore fuel own env argv m file
    else if subcommand = bytesOf "print" then commandLogPrint dflt env argv m file
    else if subcommand = bytesOf "show" then some (commandLogShow env argv m file)
    else some ⟨-22, [], [], m, file⟩
  | _ => some ⟨-22, [], [], m, file⟩

def commandLog : Option (LogResult ι) := do
  let result ← commandLogBranch fuel dflt own env argv m file
  some (if result.res ≠ 0 then { result with printed := result.printed ++ logUsage } else result)

end

/-! ## The system -/

/-- `registered` are the objects that were registered since the process was started, the last one first. -/
structure LogState (ι : Type) where
  m : LogModule ι
  file : Option (List UInt8)
  registered : List ι

inductive LogLabel (ι : Type)
  | add (self : ι) (name : List UInt8) (level : ℤ)
  | setLevel (self : ι) (level : ℤ)
  | store (opened : Bool)
  | load (opened : Bool)
  | command (env : LogEnv) (argv : List (List UInt8))
  /-- The process is started; the memory of the objects is new. -/
  | restart (object : ι → LogObject ι)

/-- Enough for a loop over the list. -/
def LogState.fuel (s : LogState ι) : ℕ := s.registered.length + 1

/-- The buffer and the date are those of `ml_log_object_vprint`. -/
def LogEnv.Ok (env : LogEnv) : Prop := env.buf.length = 512 ∧ env.date.length = 19 ∧ env.path.length ≤ 4095

/-- The message of `log print`. -/
def printedMessage : List (List UInt8) → Option (List UInt8)
  | [_, subcommand, message] | [_, subcommand, _, message] => if subcommand = bytesOf "print" then some message else none
  | _ => none

/-- `log print` takes its message for a format; the other commands take any arguments. -/
def NoFormat (argv : List (List UInt8)) : Prop := ∀ message ∈ printedMessage argv, 0x25 ∉ message ∧ message.length ≤ 2147483647

/-- An object has a name that the file can hold.  `dflt` is the log object of the library and `own` that of the module,
which are registered before there is a shell. -/
def LogState.Enabled (dflt own : ι) (st : LogState ι) : LogLabel ι → Prop
  | .add self name _ => self ∉ st.registered ∧ IsWord name
  | .setLevel self _ => self ∈ st.registered
  | .command env argv => (dflt ∈ st.registered ∧ own ∈ st.registered) ∧ env.Ok ∧ NoFormat argv
  | _ => True

def logging (dflt own : ι) : System (Option (LogState ι)) (LogLabel ι) where
  start := some ⟨⟨none, fun _ => ⟨[], 0, none⟩⟩, none, []⟩
  enabled s l := ∀ st ∈ s, st.Enabled dflt own l
  next s l := s.bind fun st =>
    match l with
    | .add self name level => some { st with m := addLogObject self name level st.m, registered := self :: st.registered }
    | .setLevel self level => some { st with m := mlLogObjectSetLevel self level st.m }
    | .store opened => (mlLogObjectStore st.fuel opened st.m).map fun (_, text) => { st with file := text.or st.file }
    | .load opened => (mlLogObjectLoad st.fuel (if opened then st.file else none) st.m).map fun m => { st with m }
    | .command env argv =>
      (commandLog st.fuel dflt own env argv st.m st.file).map fun result => { st with m := result.m, file := result.file }
    | .restart object => some ⟨⟨none, object⟩, st.file, []⟩

instance LogEnv.decidableOk (env : LogEnv) : Decidable env.Ok := inferInstanceAs (Decidable (_ ∧ _ ∧ _))

instance decidableNoFormat (argv : List (List UInt8)) : Decidable (NoFormat argv) :=
  inferInstanceAs (Decidable (∀ message ∈ printedMessage argv, 0x25 ∉ message ∧ message.length ≤ 2147483647))

instance LogState.decidableEnabled (dflt own : ι) (st : LogState ι) : ∀ l : LogLabel ι, Decidable (st.Enabled dflt own l)
  | .add _ _ _ => inferInstanceAs (Decidable (_ ∧ _))
  | .setLevel _ _ => inferInstanceAs (Decidable (_ ∈ _))
  | .command _ _ => inferInstanceAs (Decidable ((_ ∧ _) ∧ _ ∧ _))
  | .store _ | .load _ | .restart _ => .isTrue trivial

instance logging_decidableEnabled (dflt own : ι) (s : Option (LogState ι)) (l : LogLabel ι) : Decidable ((logging dflt own).enabled s l) :=
  inferInstanceAs (Decidable (∀ st ∈ s, st.Enabled dflt own l))

/-! ## The specification -/

/-- The names with their levels, the last one registered first, and the copy that was saved. -/
structure LogLevels (ι : Type) where
  objects : List (ι × List UInt8 × ℤ)
  saved : Option (List (List UInt8 × ℤ))

/-- What a command answers. -/
structure LogAnswer (ι : Type) where
  res : ℤ
  printed : List UInt8
  written : List (List UInt8)
  levels : LogLevels ι

omit [DecidableEq ι] in
/-- The first object of the name gets the level. -/
def setNamed (name : List UInt8) (level : ℤ) : List (ι × List UInt8 × ℤ) → List (ι × List UInt8 × ℤ)
  | [] => []
  | e :: objects => if e.2.1 = name then (e.1, name, level) :: objects else e :: setNamed name level objects

namespace LogLevels

variable (levels : LogLevels ι)

def setLevel (self : ι) (level : ℤ) : LogLevels ι :=
  { levels with objects := levels.objects.map fun e => if e.1 = self then (self, e.2.1, level) else e }

omit [DecidableEq ι] in
def store : LogLevels ι := { levels with saved := some (levels.objects.map Prod.snd) }

omit [DecidableEq ι] in
/-- Up to the first level that has no name. -/
def load : LogLevels ι :=
  let saved := (levels.saved.getD []).takeWhile fun e => ValidLevel e.2
  { levels with objects := saved.foldl (fun objects e => setNamed e.1 e.2 objects) levels.objects }

/-- The records that are written when something is printed: the text, cut to 511 bytes, if the object has the level. -/
def records (self : ι) (level : ℤ) (date message : List UInt8) : List (List UInt8) :=
  match levels.objects.find? fun e => e.1 = self with
  | some (_, name, objectLevel) => if level ≤ objectLevel then [(recordText name level date message).take 511 ++ [0x0a]] else []
  | none => []

omit [DecidableEq ι] in
def refused : LogAnswer ι := ⟨-22, [], [], levels⟩

/-- The commands of the user. -/
def request (dflt own : ι) (env : LogEnv) (argv : List (List UInt8)) : LogAnswer ι :=
  match argv.tail with
  | [subcommand] =>
    if subcommand = bytesOf "list" then
      ⟨0, bytesOf "OBJECT-NAME       LEVEL\n" ++ levels.objects.flatMap fun e => levelLine e.2.1 e.2.2, [], levels⟩
    else if subcommand = bytesOf "store" then
      if env.opened then ⟨0, [], [], levels.store⟩
      else ⟨-1000, [], levels.records own 3 env.date (bytesOf "Failed to open " ++ env.path ++ bytesOf "."), levels⟩
    else if subcommand = bytesOf "show" then ⟨env.dmesg.1, env.dmesg.2, [], levels⟩
    else levels.refused
  | [subcommand, message] =>
    if subcommand = bytesOf "print" then ⟨0, [], levels.records dflt 6 env.date message, levels⟩ else levels.refused
  | [subcommand, first, second] =>
    if subcommand = bytesOf "set_level" then
      if (∃ e ∈ levels.objects, e.2.1 = first) ∧ mlLogObjectLevelFromString second ≠ -1 then
        ⟨0, [], [], { levels with objects := setNamed first (mlLogObjectLevelFromString second) levels.objects }⟩
      else levels.refused
    else if subcommand = bytesOf "print" ∧ mlLogObjectLevelFromString first ≠ -1 then
      ⟨0, [], levels.records dflt (mlLogObjectLevelFromString first) env.date second, levels⟩
    else levels.refused
  | _ => levels.refused

/-- A command that is not done prints how it is used. -/
def command (dflt own : ι) (env : LogEnv) (argv : List (List UInt8)) : LogAnswer ι :=
  let answer := levels.request dflt own env argv
  if answer.res ≠ 0 then { answer with printed := answer.printed ++ logUsage } else answer

def next (dflt own : ι) (levels : LogLevels ι) : LogLabel ι → LogLevels ι
  | .add self name level => { levels with objects := (self, name, level) :: levels.objects }
  | .setLevel self level => levels.setLevel self level
  | .store opened => if opened then levels.store else levels
  | .load opened => if opened then levels.load else levels
  | .command env argv => (levels.command dflt own env argv).levels
  | .restart _ => { levels with objects := [] }

end LogLevels

/-! ## The objects of the list -/

section
variable {m : LogModule ι} {registered : List ι}

omit [DecidableEq ι] in
/-- The objects with their names and levels. -/
def LogModule.entries (m : LogModule ι) (registered : List ι) : List (ι × List UInt8 × ℤ) :=
  registered.map fun a => (a, (m.object a).name, (m.object a).level)

theorem setLevel_next (self : ι) (level : ℤ) (m : LogModule ι) :
    (fun a => ((mlLogObjectSetLevel self level m).object a).next) = fun a => (m.object a).next := by
  funext a
  by_cases ha : a = self
  · subst ha
    simp [mlLogObjectSetLevel]
  · simp [mlLogObjectSetLevel, ha]

theorem setLevel_lists (h : m.Lists registered) (self : ι) (level : ℤ) : (mlLogObjectSetLevel self level m).Lists registered := by
  unfold LogModule.Lists
  rw [setLevel_next]
  exact h

theorem setLevel_entries (self : ι) (level : ℤ) (m : LogModule ι) (registered : List ι) :
    (mlLogObjectSetLevel self level m).entries registered =
      (m.entries registered).map fun e => if e.1 = self then (self, e.2.1, level) else e := by
  unfold LogModule.entries
  rw [List.map_map]
  refine List.map_congr_left fun a _ => ?_
  by_cases ha : a = self
  · subst ha
    simp [mlLogObjectSetLevel]
  · simp [mlLogObjectSetLevel, ha]

/-- The level of the first object of a name. -/
theorem setLevel_found (hnodup : registered.Nodup) {name : List UInt8} {b : ι}
    (hb : (registered.find? fun a => (m.object a).name = name) = some b) (level : ℤ) :
    (mlLogObjectSetLevel b level m).entries registered = setNamed name level (m.entries registered) := by
  induction registered with
  | nil => cases hb
  | cons a registered ih =>
    obtain ⟨ha, hnodup⟩ := List.nodup_cons.mp hnodup
    rw [List.find?_cons] at hb
    unfold LogModule.entries at ih ⊢
    rw [List.map_cons, List.map_cons, setNamed]
    by_cases hname : (m.object a).name = name
    · simp only [hname, decide_true, Option.some_inj] at hb
      subst hb
      have hrest : registered.map (fun c => (c, ((mlLogObjectSetLevel a level m).object c).name,
          ((mlLogObjectSetLevel a level m).object c).level)) =
            registered.map fun c => (c, (m.object c).name, (m.object c).level) := by
        refine List.map_congr_left fun c hc => ?_
        have hne : c ≠ a := fun heq => ha (heq ▸ hc)
        simp [mlLogObjectSetLevel, hne]
      rw [if_pos hname, hrest, ← hname]
      simp [mlLogObjectSetLevel]
    · simp only [hname, decide_false] at hb
      have hne : a ≠ b := by
        rintro rfl
        exact ha (List.mem_of_find?_eq_some hb)
      rw [if_neg hname, ih hnodup hb]
      simp [mlLogObjectSetLevel, hne]

omit [DecidableEq ι] in
theorem setNamed_not_found {name : List UInt8} {objects : List (ι × List UInt8 × ℤ)} (h : ∀ e ∈ objects, e.2.1 ≠ name)
    (level : ℤ) : setNamed name level objects = objects := by
  induction objects with
  | nil => rfl
  | cons e objects ih =>
    obtain ⟨he, h⟩ := List.forall_mem_cons.mp h
    rw [setNamed, if_neg he, ih h]

omit [DecidableEq ι] in
/-- Nothing but levels is changed. -/
theorem setNamed_names (name : List UInt8) (level : ℤ) (objects : List (ι × List UInt8 × ℤ)) :
    (setNamed name level objects).map (fun e => (e.1, e.2.1)) = objects.map fun e => (e.1, e.2.1) := by
  induction objects with
  | nil => rfl
  | cons e objects ih =>
    unfold setNamed
    split
    · next h => simp [h]
    · rw [List.map_cons, List.map_cons, ih]

theorem setLevel_registered (hlists : m.Lists registered) {fuel : ℕ} (hfuel : registered.length < fuel) (name : List UInt8)
    (level : ℤ) :
    (mlLogObjectGetByName m name fuel none = some none ∧ (∀ e ∈ m.entries registered, e.2.1 ≠ name) ∧
        setNamed name level (m.entries registered) = m.entries registered) ∨
      ∃ b, mlLogObjectGetByName m name fuel none = some (some b) ∧ (∃ e ∈ m.entries registered, e.2.1 = name) ∧
        (mlLogObjectSetLevel b level m).entries registered = setNamed name level (m.entries registered) := by
  rw [mlLogObjectGetByName_eq hlists hfuel]
  cases hfind : registered.find? fun a => (m.object a).name = name with
  | none =>
    have hnone : ∀ e ∈ m.entries registered, e.2.1 ≠ name := by
      intro e he
      obtain ⟨a, ha, rfl⟩ := List.mem_map.mp he
      simpa using List.find?_eq_none.mp hfind a ha
    exact .inl ⟨rfl, hnone, setNamed_not_found hnone level⟩
  | some b =>
    refine .inr ⟨b, rfl, ⟨_, List.mem_map_of_mem (List.mem_of_find?_eq_some hfind), ?_⟩,
      setLevel_found hlists.nodup hfind level⟩
    simpa using List.find?_some hfind

/-- **A load of lines that were stored** by any process. -/
theorem loadLoop_saved (hlists : m.Lists registered) {fuel : ℕ} (hfuel : registered.length < fuel)
    {saved : List (List UInt8 × ℤ)} (hwords : ∀ e ∈ saved, IsWord e.1) {lines : ℕ} (hlines : saved.length < lines) :
    ∃ m', loadLoop fuel lines (saved.flatMap fun e => logLine e.1 e.2) m = some m' ∧ m'.Lists registered ∧
      m'.entries registered =
        (saved.takeWhile fun e => ValidLevel e.2).foldl (fun objects e => setNamed e.1 e.2 objects) (m.entries registered) := by
  induction saved generalizing m lines with
  | nil =>
    obtain ⟨lines, rfl⟩ : ∃ k, lines = k + 1 := ⟨lines - 1, by omega⟩
    exact ⟨m, rfl, hlists, rfl⟩
  | cons e saved ih =>
    obtain ⟨name, level⟩ := e
    rw [List.length_cons] at hlines
    obtain ⟨lines, rfl⟩ : ∃ k, lines = k + 1 := ⟨lines - 1, by omega⟩
    obtain ⟨hword, hwords⟩ := List.forall_mem_cons.mp hwords
    unfold loadLoop
    rw [List.flatMap_cons]
    by_cases hlevel : ValidLevel level
    · have hvalue := (levelToString_of_valid hlevel).1
      have hne : ¬level = -1 := by
        rintro rfl
        exact absurd hlevel (by decide)
      rw [scanLine_of_valid hword hlevel, List.takeWhile_cons_of_pos (by simpa using hlevel), List.foldl_cons]
      rcases setLevel_registered hlists hfuel name level with ⟨hget, -, hnone⟩ | ⟨b, hget, -, hset⟩
      · simp only [hget, Option.bind_eq_bind, Option.bind_some]
        rw [hnone]
        exact ih hlists hwords (by omega)
      · simp only [hget, Option.bind_eq_bind, Option.bind_some, hvalue, if_neg hne]
        rw [← hset]
        exact ih (setLevel_lists hlists b level) hwords (by omega)
    · -- the load ends here
      obtain ⟨input, hscan⟩ := scanLine_of_invalid hword hlevel (saved.flatMap fun e => logLine e.1 e.2)
      rw [hscan, List.takeWhile_cons_of_neg (by simpa using hlevel)]
      exact ⟨m, rfl, hlists, rfl⟩

omit [DecidableEq ι] in
theorem list_linked {p : Option ι} {objects : List ι} {fuel : ℕ}
    (hp : Linked (fun a => (m.object a).next) (mlLogObjectListNext m p) objects) (hfuel : objects.length < fuel) :
    listLoop m fuel p = some ((m.entries objects).flatMap fun e => levelLine e.2.1 e.2.2) := by
  induction objects generalizing p fuel with
  | nil =>
    obtain ⟨fuel, rfl⟩ : ∃ k, fuel = k + 1 := ⟨fuel - 1, by omega⟩
    unfold listLoop
    generalize mlLogObjectListNext m p = q at hp ⊢
    cases hp
    rfl
  | cons a objects ih =>
    rw [List.length_cons] at hfuel
    obtain ⟨fuel, rfl⟩ : ∃ k, fuel = k + 1 := ⟨fuel - 1, by omega⟩
    unfold listLoop
    generalize mlLogObjectListNext m p = q at hp ⊢
    cases hp with
    | cons hrest =>
      have hloop := ih (p := some a) hrest (by omega : objects.length < fuel)
      simp [hloop, LogModule.entries]

omit [DecidableEq ι] in
/-- The lines of the file. -/
theorem store_entries (hlists : m.Lists registered) {fuel : ℕ} (hfuel : registered.length < fuel) :
    mlLogObjectStore fuel true m =
      some (0, some (((m.entries registered).map Prod.snd).flatMap fun e => logLine e.1 e.2)) := by
  have hloop : storeLoop m fuel none = some (registered.flatMap fun a => logLine (m.object a).name (m.object a).level) :=
    store_linked hlists hfuel
  unfold mlLogObjectStore
  rw [if_pos rfl, hloop, LogModule.entries, List.map_map, List.flatMap_map]
  rfl

omit [DecidableEq ι] in
theorem mem_entries_of_mem {a : ι} (ha : a ∈ registered) :
    (a, (m.object a).name, (m.object a).level) ∈ m.entries registered := List.mem_map_of_mem ha

theorem entries_find? {a : ι} (ha : a ∈ registered) :
    (m.entries registered).find? (fun e => e.1 = a) = some (a, (m.object a).name, (m.object a).level) := by
  induction registered with
  | nil => cases ha
  | cons b registered ih =>
    unfold LogModule.entries at ih ⊢
    rw [List.map_cons, List.find?_cons]
    by_cases hb : b = a
    · subst hb
      simp
    · simp only [hb, decide_false]
      exact ih ((List.mem_cons.mp ha).resolve_left (Ne.symm hb))

end

/-! ## The refinement -/

omit [DecidableEq ι] in
theorem LogState.lt_fuel (s : LogState ι) : s.registered.length < s.fuel := Nat.lt_succ_self _

/-- The list and the file are those of the specification. -/
structure LogState.Holds (s : LogState ι) (levels : LogLevels ι) : Prop where
  lists : s.m.Lists s.registered
  objects : s.m.entries s.registered = levels.objects
  words : ∀ e ∈ levels.objects, IsWord e.2.1
  file : s.file = levels.saved.map fun saved => saved.flatMap fun e => logLine e.1 e.2
  savedWords : ∀ e ∈ levels.saved.getD [], IsWord e.1

/-- A command answers what the specification answers. -/
structure LogResult.Answers (result : LogResult ι) (registered : List ι) (answer : LogAnswer ι) : Prop where
  res : result.res = answer.res
  printed : result.printed = answer.printed
  written : result.written = answer.written
  holds : LogState.Holds ⟨result.m, result.file, registered⟩ answer.levels

section
variable {s : LogState ι} {levels : LogLevels ι}

omit [DecidableEq ι] in
theorem words_of_names {objects objects' : List (ι × List UInt8 × ℤ)}
    (h : objects'.map (fun e => (e.1, e.2.1)) = objects.map fun e => (e.1, e.2.1)) (hwords : ∀ e ∈ objects, IsWord e.2.1) :
    ∀ e ∈ objects', IsWord e.2.1 := by
  intro e he
  have hname : (e.1, e.2.1) ∈ objects'.map fun e => (e.1, e.2.1) := List.mem_map_of_mem he
  rw [h] at hname
  obtain ⟨e', he', heq⟩ := List.mem_map.mp hname
  rw [← show e'.2.1 = e.2.1 from congrArg Prod.snd heq]
  exact hwords e' he'

omit [DecidableEq ι] in
theorem LogState.Holds.setNamed (hs : s.Holds levels) {name : List UInt8} {level : ℤ} {m : LogModule ι}
    (hlists : m.Lists s.registered) (hm : m.entries s.registered = Monolinux.setNamed name level levels.objects) :
    LogState.Holds ⟨m, s.file, s.registered⟩ { levels with objects := Monolinux.setNamed name level levels.objects } := by
  exact ⟨hlists, hm, words_of_names (setNamed_names name level levels.objects) hs.words, hs.file, hs.savedWords⟩

omit [DecidableEq ι] in
theorem LogState.Holds.store (hs : s.Holds levels) :
    mlLogObjectStore s.fuel true s.m =
        some (0, levels.store.saved.map fun saved => saved.flatMap fun e => logLine e.1 e.2) ∧
      LogState.Holds ⟨s.m, levels.store.saved.map fun saved => saved.flatMap fun e => logLine e.1 e.2, s.registered⟩
        levels.store := by
  constructor
  · rw [store_entries hs.lists s.lt_fuel, hs.objects]
    rfl
  · refine ⟨hs.lists, hs.objects, hs.words, rfl, fun e he => ?_⟩
    obtain ⟨e', he', rfl⟩ := List.mem_map.mp (show e ∈ levels.objects.map Prod.snd from he)
    exact hs.words e' he'

omit [DecidableEq ι] in
theorem foldl_setNamed_names (saved : List (List UInt8 × ℤ)) (objects : List (ι × List UInt8 × ℤ)) :
    (saved.foldl (fun objects e => setNamed e.1 e.2 objects) objects).map (fun e => (e.1, e.2.1)) =
      objects.map fun e => (e.1, e.2.1) := by
  induction saved generalizing objects with
  | nil => rfl
  | cons e saved ih => rw [List.foldl_cons, ih, setNamed_names]

theorem LogState.Holds.load (hs : s.Holds levels) :
    ∃ m, mlLogObjectLoad s.fuel s.file s.m = some m ∧ LogState.Holds ⟨m, s.file, s.registered⟩ levels.load := by
  have hwords := words_of_names (foldl_setNamed_names ((levels.saved.getD []).takeWhile fun e => ValidLevel e.2)
    levels.objects) hs.words
  have hfile := hs.file
  cases hsaved : levels.saved with
  | none =>
    rw [hsaved] at hfile
    rw [hfile]
    refine ⟨s.m, rfl, hs.lists, ?_, hwords, by rw [LogLevels.load, hsaved], hs.savedWords⟩
    rw [hs.objects, LogLevels.load, hsaved]
    rfl
  | some saved =>
    rw [hsaved] at hfile
    have hsavedWords : ∀ e ∈ saved, IsWord e.1 := by simpa [hsaved] using hs.savedWords
    have hlines : saved.length ≤ (saved.flatMap fun e => logLine e.1 e.2).length := by
      rw [List.length_flatMap]
      refine le_trans (le_of_eq ?_) (List.length_le_sum_of_one_le (saved.map fun e => (logLine e.1 e.2).length) ?_)
      · rw [List.length_map]
      · intro n hn
        obtain ⟨e, -, rfl⟩ := List.mem_map.mp hn
        unfold logLine
        rw [List.length_append, List.length_cons]
        omega
    obtain ⟨m, hload, hlists, hentries⟩ := loadLoop_saved hs.lists s.lt_fuel hsavedWords (Nat.lt_succ_of_le hlines)
    rw [hfile]
    refine ⟨m, hload, hlists, ?_, hwords, ?_, ?_⟩
    · show m.entries s.registered = levels.load.objects
      rw [hentries, hs.objects, LogLevels.load, hsaved]
      rfl
    · rw [LogLevels.load, hsaved]
    · exact hs.savedWords

/-- **What is written** when something is printed. -/
theorem LogState.Holds.records (hs : s.Holds levels) {self : ι} (hself : self ∈ s.registered) (level : ℤ)
    {date message buf : List UInt8} (hdate : date.length = 19) (hbuf : buf.length = 512)
    (hmessage : message.length ≤ 2147483647) :
    mlLogObjectVprint (s.m.object self) level date message buf = some (levels.records self level date message) := by
  have hword := hs.words _ (hs.objects ▸ mem_entries_of_mem hself)
  unfold LogLevels.records
  rw [← hs.objects, entries_find? hself]
  by_cases hlevel : level ≤ (s.m.object self).level
  · have hupper : (levelToStringUpper level).length ≤ 9 := by
      unfold levelToStringUpper
      split <;> decide
    have hheader : (recordHeader (s.m.object self).name level).length < 493 := by
      have hlen := hword.2.2
      unfold recordHeader
      simp only [List.length_append, List.length_cons, List.length_nil] at hlen ⊢
      omega
    rw [(recordIsCut_of_fits hlevel (by omega) hbuf (.inr ⟨by omega, hmessage⟩)).record]
    simp [hlevel]
  · unfold mlLogObjectVprint
    rw [if_pos (by omega)]
    simp [hlevel]

omit [DecidableEq ι] in
theorem LogState.Holds.refused (hs : s.Holds levels) :
    LogResult.Answers ⟨-22, [], [], s.m, s.file⟩ s.registered levels.refused := ⟨rfl, rfl, rfl, hs⟩

variable {dflt own : ι} {env : LogEnv}

/-- Commands with no argument. -/
theorem branch_two (hs : s.Holds levels) (hown : own ∈ s.registered) (henv : env.Ok) (command subcommand : List UInt8) :
    ∃ result, commandLogBranch s.fuel dflt own env [command, subcommand] s.m s.file = some result ∧
      result.Answers s.registered (levels.request dflt own env [command, subcommand]) := by
  obtain ⟨hbuf, hdate, hpath⟩ := henv
  unfold commandLogBranch LogLevels.request
  simp only [List.tail_cons]
  by_cases hlist : subcommand = bytesOf "list"
  · have hloop : listLoop s.m s.fuel none = some (levels.objects.flatMap fun e => levelLine e.2.1 e.2.2) :=
      hs.objects ▸ list_linked hs.lists s.lt_fuel
    rw [if_pos hlist, if_pos hlist]
    exact ⟨_, congrArg (Option.map _) hloop, rfl, rfl, rfl, hs⟩
  by_cases hset : subcommand = bytesOf "set_level"
  · subst hset
    exact ⟨_, rfl, hs.refused⟩
  by_cases hstore : subcommand = bytesOf "store"
  · rw [if_neg hlist, if_neg hset, if_pos hstore, if_neg hlist, if_pos hstore]
    unfold commandLogStore
    cases hopened : env.opened with
    | true =>
      simp only [hs.store.1]
      exact ⟨_, rfl, rfl, rfl, rfl, hs.store.2⟩
    | false =>
      have hmessage : (bytesOf "Failed to open " ++ env.path ++ bytesOf ".").length ≤ 2147483647 := by
        have hwords : (bytesOf "Failed to open ").length = 15 ∧ (bytesOf ".").length = 1 := by decide
        simp only [List.length_append]
        omega
      simp only [mlLogObjectStore, hs.records hown 3 hdate hbuf hmessage]
      exact ⟨_, rfl, rfl, rfl, rfl, hs⟩
  by_cases hprint : subcommand = bytesOf "print"
  · subst hprint
    exact ⟨_, rfl, hs.refused⟩
  rw [if_neg hlist, if_neg hset, if_neg hstore, if_neg hprint, if_neg hlist, if_neg hstore]
  by_cases hshow : subcommand = bytesOf "show"
  · rw [if_pos hshow, if_pos hshow]
    exact ⟨_, rfl, rfl, rfl, rfl, hs⟩
  · rw [if_neg hshow, if_neg hshow]
    exact ⟨_, rfl, hs.refused⟩

/-- Commands with an argument. -/
theorem branch_three (hs : s.Holds levels) (hdflt : dflt ∈ s.registered) (henv : env.Ok) (command subcommand : List UInt8)
    {message : List UInt8} (hformat : NoFormat [command, subcommand, message]) :
    ∃ result, commandLogBranch s.fuel dflt own env [command, subcommand, message] s.m s.file = some result ∧
      result.Answers s.registered (levels.request dflt own env [command, subcommand, message]) := by
  obtain ⟨hbuf, hdate, -⟩ := henv
  unfold commandLogBranch LogLevels.request
  simp only [List.tail_cons]
  by_cases hprint : subcommand = bytesOf "print"
  · subst hprint
    have hmessage : 0x25 ∉ message ∧ message.length ≤ 2147483647 := hformat message (by simp [printedMessage])
    have hne : bytesOf "print" ≠ bytesOf "list" ∧ bytesOf "print" ≠ bytesOf "set_level" ∧
      bytesOf "print" ≠ bytesOf "store" := by decide
    rw [if_neg hne.1, if_neg hne.2.1, if_neg hne.2.2, if_pos rfl, if_pos rfl]
    simp only [commandLogPrint, mlLogPrint, if_neg hmessage.1, hs.records hdflt 6 hdate hbuf hmessage.2]
    exact ⟨_, rfl, rfl, rfl, rfl, hs⟩
  rw [if_neg hprint, if_neg hprint]
  by_cases hlist : subcommand = bytesOf "list"
  · subst hlist
    exact ⟨_, rfl, hs.refused⟩
  by_cases hset : subcommand = bytesOf "set_level"
  · subst hset
    exact ⟨_, rfl, hs.refused⟩
  by_cases hstore : subcommand = bytesOf "store"
  · subst hstore
    exact ⟨_, rfl, hs.refused⟩
  by_cases hshow : subcommand = bytesOf "show"
  · subst hshow
    exact ⟨_, rfl, hs.refused⟩
  rw [if_neg hlist, if_neg hset, if_neg hstore, if_neg hshow]
  exact ⟨_, rfl, hs.refused⟩

/-- Commands with two arguments. -/
theorem branch_four (hs : s.Holds levels) (hdflt : dflt ∈ s.registered) (henv : env.Ok) (command subcommand first : List UInt8)
    {second : List UInt8} (hformat : NoFormat [command, subcommand, first, second]) :
    ∃ result, commandLogBranch s.fuel dflt own env [command, subcommand, first, second] s.m s.file = some result ∧
      result.Answers s.registered (levels.request dflt own env [command, subcommand, first, second]) := by
  obtain ⟨hbuf, hdate, -⟩ := henv
  unfold commandLogBranch LogLevels.request
  simp only [List.tail_cons]
  by_cases hset : subcommand = bytesOf "set_level"
  · subst hset
    rw [if_neg (by decide), if_pos rfl, if_pos rfl]
    unfold commandLogSetLevel
    simp only
    rcases setLevel_registered hs.lists s.lt_fuel first (mlLogObjectLevelFromString second) with
      ⟨hget, hnone, -⟩ | ⟨b, hget, hsome, hentries⟩
    · rw [hget, if_neg (fun h => by
        obtain ⟨⟨e, he, hname⟩, -⟩ := h
        exact hnone e (hs.objects ▸ he) hname)]
      exact ⟨_, rfl, hs.refused⟩
    · rw [hs.objects] at hsome hentries
      rw [hget]
      by_cases hlevel : mlLogObjectLevelFromString second = -1
      · rw [if_neg (fun h => h.2 hlevel)]
        simp only [Option.bind_eq_bind, Option.bind_some, hlevel, if_true]
        exact ⟨_, rfl, hs.refused⟩
      · rw [if_pos ⟨hsome, hlevel⟩]
        simp only [Option.bind_eq_bind, Option.bind_some, if_neg hlevel]
        exact ⟨_, rfl, rfl, rfl, rfl, hs.setNamed (setLevel_lists hs.lists b _) hentries⟩
  by_cases hprint : subcommand = bytesOf "print"
  · subst hprint
    have hsecond : 0x25 ∉ second ∧ second.length ≤ 2147483647 := hformat second (by simp [printedMessage])
    have hne : bytesOf "print" ≠ bytesOf "list" ∧ bytesOf "print" ≠ bytesOf "store" := by decide
    rw [if_neg hne.1, if_neg hset, if_neg hne.2, if_pos rfl, if_neg hset]
    by_cases hlevel : mlLogObjectLevelFromString first = -1
    · rw [if_neg (fun h => h.2 hlevel)]
      simp only [commandLogPrint, hlevel, if_true]
      exact ⟨_, rfl, hs.refused⟩
    · rw [if_pos ⟨rfl, hlevel⟩]
      simp only [commandLogPrint, mlLogPrint, if_neg hlevel, if_neg hsecond.1,
        hs.records hdflt (mlLogObjectLevelFromString first) hdate hbuf hsecond.2]
      exact ⟨_, rfl, rfl, rfl, rfl, hs⟩
  by_cases hlist : subcommand = bytesOf "list"
  · subst hlist
    exact ⟨_, rfl, hs.refused⟩
  by_cases hstore : subcommand = bytesOf "store"
  · subst hstore
    exact ⟨_, rfl, hs.refused⟩
  by_cases hshow : subcommand = bytesOf "show"
  · subst hshow
    exact ⟨_, rfl, hs.refused⟩
  rw [if_neg hlist, if_neg hset, if_neg hstore, if_neg hprint, if_neg hshow, if_neg hset, if_neg (fun h => hprint h.1)]
  exact ⟨_, rfl, hs.refused⟩

/-- **A command** is answered as the specification answers it. -/
theorem commandLog_eq (hs : s.Holds levels) (hdflt : dflt ∈ s.registered) (hown : own ∈ s.registered) (henv : env.Ok)
    {argv : List (List UInt8)} (hformat : NoFormat argv) :
    ∃ result, commandLog s.fuel dflt own env argv s.m s.file = some result ∧
      result.Answers s.registered (levels.command dflt own env argv) := by
  obtain ⟨result, hbranch, hanswer⟩ : ∃ result, commandLogBranch s.fuel dflt own env argv s.m s.file = some result ∧
      result.Answers s.registered (levels.request dflt own env argv) := by
    match argv, hformat with
    | [], _ | [_], _ => exact ⟨_, rfl, hs.refused⟩
    | [command, subcommand], _ => exact branch_two hs hown henv command subcommand
    | [command, subcommand, message], hformat =>
      exact branch_three hs hdflt henv command subcommand hformat
    | [command, subcommand, first, second], hformat =>
      exact branch_four hs hdflt henv command subcommand first hformat
    | command :: subcommand :: _ :: _ :: _ :: _, _ =>
      -- too many arguments
      unfold commandLogBranch
      simp only
      split_ifs
      all_goals exact ⟨_, rfl, hs.refused⟩
  unfold commandLog LogLevels.command
  rw [hbranch]
  refine ⟨_, rfl, ?_⟩
  simp only [hanswer.res]
  split
  · exact ⟨rfl, congrArg (· ++ logUsage) hanswer.printed, hanswer.written, hanswer.holds⟩
  · exact ⟨hanswer.res, hanswer.printed, hanswer.written, hanswer.holds⟩

/-- **What a step does** to the list and the file. -/
theorem logging_step (hs : s.Holds levels) {l : LogLabel ι} (he : (logging dflt own).enabled (some s) l) :
    ∃ s', (logging dflt own).next (some s) l = some s' ∧ s'.Holds (levels.next dflt own l) := by
  replace he := he s rfl
  cases l with
  | add self name level =>
    obtain ⟨hnew, hword⟩ := he
    refine ⟨_, rfl, add_lists name level hs.lists hnew, ?_, ?_, hs.file, hs.savedWords⟩
    · have hrest : (addLogObject self name level s.m).entries s.registered = s.m.entries s.registered := by
        refine List.map_congr_left fun a ha => ?_
        have hne : a ≠ self := by
          rintro rfl
          exact hnew ha
        simp [addLogObject, mlLogObjectRegister, mlLogObjectInit, hne]
      rw [LogLevels.next, ← hs.objects, ← hrest]
      simp [LogModule.entries, addLogObject, mlLogObjectRegister, mlLogObjectInit]
    · exact List.forall_mem_cons.mpr ⟨hword, hs.words⟩
  | setLevel self level =>
    refine ⟨_, rfl, setLevel_lists hs.lists self level, ?_, ?_, hs.file, hs.savedWords⟩
    · exact (setLevel_entries self level s.m s.registered).trans (congrArg _ hs.objects)
    · refine words_of_names ?_ hs.words
      unfold LogLevels.next LogLevels.setLevel
      rw [List.map_map]
      refine List.map_congr_left fun e _ => ?_
      by_cases hself : e.1 = self <;> simp [hself]
  | store opened =>
    cases opened with
    | true => exact ⟨_, congrArg (Option.map _) hs.store.1, hs.store.2⟩
    | false => exact ⟨_, rfl, hs⟩
  | load opened =>
    cases opened with
    | true =>
      obtain ⟨m, hload, hm⟩ := hs.load
      exact ⟨_, congrArg (Option.map _) hload, hm⟩
    | false => exact ⟨_, rfl, hs⟩
  | command env argv =>
    obtain ⟨⟨hdflt, hown⟩, henv, hformat⟩ := he
    obtain ⟨result, hcommand, hanswer⟩ := commandLog_eq hs hdflt hown henv hformat
    exact ⟨_, congrArg (Option.map _) hcommand, hanswer.holds⟩
  | restart object => exact ⟨_, rfl, .nil, rfl, by simp [LogLevels.next], hs.file, hs.savedWords⟩

end

section
variable {dflt own : ι} {tr tr' : List (LogLabel ι)} {s : Option (LogState ι)}

/-- The specification after the labels `tr`. -/
def levelsOf (dflt own : ι) (tr : List (LogLabel ι)) : LogLevels ι := tr.foldl (LogLevels.next dflt own) ⟨[], none⟩

theorem logging_holds (hrun : (logging dflt own).Run tr s) : ∃ st, s = some st ∧ st.Holds (levelsOf dflt own tr) := by
  refine hrun.invariantOn (fun tr s => ∃ st, s = some st ∧ st.Holds (levelsOf dflt own tr)) ?_ ?_
  · exact ⟨_, rfl, .nil, rfl, by simp [levelsOf], rfl, by simp [levelsOf]⟩
  · rintro tr _ l - ⟨st, rfl, hst⟩ he
    rw [levelsOf, List.foldl_append]
    exact logging_step hst he

/-- **Log levels in use.**  After every order of registrations, of levels that are set, of stores, loads, commands and
starts of the process the list of the log objects and the file are those of the specification.  A command `log`
ends, and returns, prints and writes what the specification says, and what is printed through a log object is
written if its level there allows it. -/
theorem logging_refines (hrun : (logging dflt own).Run tr s) :
    ∃ st, s = some st ∧ st.Holds (levelsOf dflt own tr) ∧
      (∀ env argv, (logging dflt own).enabled s (.command env argv) →
        ∃ result, commandLog st.fuel dflt own env argv st.m st.file = some result ∧
          result.Answers st.registered ((levelsOf dflt own tr).command dflt own env argv)) ∧
      ∀ self ∈ st.registered, ∀ level date message buf, date.length = 19 → buf.length = 512 → message.length ≤ 2147483647 →
        mlLogObjectVprint (st.m.object self) level date message buf =
          some ((levelsOf dflt own tr).records self level date message) := by
  obtain ⟨st, rfl, hst⟩ := logging_holds hrun
  refine ⟨st, rfl, hst, fun env argv he => ?_, fun self hself level date message buf hdate hbuf hmessage => ?_⟩
  · obtain ⟨⟨hdflt, hown⟩, henv, hformat⟩ := he st rfl
    exact commandLog_eq hst hdflt hown henv hformat
  · exact hst.records hself level hdate hbuf hmessage

/-- The two objects of the library, in a process that has started. -/
def libraryStart (dfltLevel : ℤ) : List (LogLabel ℕ) := [.add 0 (bytesOf "log-object") 6, .add 1 (bytesOf "default") dfltLevel]

def noonEnv : LogEnv := ⟨bytesOf "log-object.txt", true, (0, []), newYear, List.replicate 512 0⟩

/-- A level that was set is listed. -/
theorem logging_refines_list : ∃ st result,
    (logging 1 0).Run (libraryStart 6 ++ [.command noonEnv (["log", "set_level", "default", "debug"].map bytesOf)]) (some st) ∧
      commandLog st.fuel 1 0 noonEnv (["log", "list"].map bytesOf) st.m st.file = some result ∧
      result.printed = bytesOf "OBJECT-NAME       LEVEL\ndefault           debug\nlog-object        info\n" := by
  have hreached : ∃ s, (logging 1 0).Run
      (libraryStart 6 ++ [.command noonEnv (["log", "set_level", "default", "debug"].map bytesOf)]) s ∧
        (logging 1 0).enabled s (.command noonEnv (["log", "list"].map bytesOf)) :=
    ⟨_, (System.path_of_runs (by decide +kernel)).run, by decide +kernel⟩
  obtain ⟨s, hrun, he⟩ := hreached
  obtain ⟨st, rfl, -, hcommand, -⟩ := logging_refines hrun
  obtain ⟨result, hresult, hanswer⟩ := hcommand _ _ he
  exact ⟨st, result, hrun, hresult, hanswer.printed.trans (by decide +kernel)⟩

/-! ## Levels that are stored -/

/-- The label writes the file. -/
def LogLabel.stores : LogLabel ι → Bool
  | .store opened => opened
  | .command env argv => env.opened && argv.tail = [bytesOf "store"]
  | _ => false

/-- What is saved is changed by a store only. -/
theorem next_saved (dflt own : ι) (levels : LogLevels ι) (l : LogLabel ι) :
    (levels.next dflt own l).saved = if l.stores then levels.store.saved else levels.saved := by
  cases l with
  | store opened => cases opened <;> rfl
  | load opened => cases opened <;> rfl
  | command env argv =>
    have hanswer : (levels.command dflt own env argv).levels = (levels.request dflt own env argv).levels := by
      unfold LogLevels.command
      simp only
      split <;> rfl
    rw [LogLevels.next, hanswer]
    unfold LogLevels.request LogLabel.stores
    split
    all_goals simp only [*]
    · next subcommand htail =>
      by_cases hlist : subcommand = bytesOf "list"
      · subst hlist
        simp [show bytesOf "list" ≠ bytesOf "store" by decide]
      by_cases hstore : subcommand = bytesOf "store"
      · cases hopened : env.opened <;> simp [hstore, LogLevels.store, show bytesOf "store" ≠ bytesOf "list" by decide]
      · simp only [hlist, hstore, if_false]
        split_ifs <;> simp_all [LogLevels.refused]
    all_goals split_ifs <;> simp_all [LogLevels.refused]
  | _ => rfl

omit [DecidableEq ι] in
/-- With different names a level is set in one place. -/
theorem setNamed_eq_map {objects : List (ι × List UInt8 × ℤ)} (hnames : (objects.map fun e => e.2.1).Nodup)
    (name : List UInt8) (level : ℤ) :
    setNamed name level objects = objects.map fun e => if e.2.1 = name then (e.1, name, level) else e := by
  induction objects with
  | nil => rfl
  | cons e objects ih =>
    obtain ⟨he, hnames⟩ := List.nodup_cons.mp hnames
    rw [setNamed, List.map_cons]
    by_cases hname : e.2.1 = name
    · have hrest : objects.map (fun e => if e.2.1 = name then (e.1, name, level) else e) = objects := by
        rw [← List.map_id objects, List.map_map]
        refine List.map_congr_left fun e' he' => if_neg fun hname' => he ?_
        exact List.mem_map.mpr ⟨e', he', hname'.trans hname.symm⟩
      rw [if_pos hname, if_pos hname, hrest]
    · rw [if_neg hname, if_neg hname, ih hnames]

/-- The level that was saved for the name, or else the one it had. -/
def savedLevel (saved : List (List UInt8 × ℤ)) (name : List UInt8) (level : ℤ) : ℤ :=
  ((saved.find? fun e => e.1 = name).map Prod.snd).getD level

theorem savedLevel_cons (e : List UInt8 × ℤ) (saved : List (List UInt8 × ℤ)) (name : List UInt8) (level : ℤ) :
    savedLevel (e :: saved) name level = if e.1 = name then e.2 else savedLevel saved name level := by
  unfold savedLevel
  by_cases h : e.1 = name <;> simp [h]

theorem savedLevel_of_not_mem {saved : List (List UInt8 × ℤ)} {name : List UInt8} (h : name ∉ saved.map Prod.fst)
    (level : ℤ) : savedLevel saved name level = level := by
  have hnone : saved.find? (fun e => e.1 = name) = none := by
    refine List.find?_eq_none.mpr fun e he => ?_
    rw [decide_eq_true_eq]
    exact fun hname => h (List.mem_map.mpr ⟨e, he, hname⟩)
  unfold savedLevel
  rw [hnone]
  rfl

theorem savedLevel_of_mem {saved : List (List UInt8 × ℤ)} (hsaved : (saved.map Prod.fst).Nodup) {name : List UInt8} {level : ℤ}
    (h : (name, level) ∈ saved) (level' : ℤ) : savedLevel saved name level' = level := by
  induction saved with
  | nil => cases h
  | cons e saved ih =>
    obtain ⟨he, hsaved⟩ := List.nodup_cons.mp hsaved
    rw [savedLevel_cons]
    rcases List.mem_cons.mp h with rfl | h
    · exact if_pos rfl
    · rw [if_neg fun hname => he (List.mem_map.mpr ⟨(name, level), h, hname.symm⟩), ih hsaved h]

omit [DecidableEq ι] in
theorem foldl_setNamed {saved : List (List UInt8 × ℤ)} (hsaved : (saved.map Prod.fst).Nodup)
    {objects : List (ι × List UInt8 × ℤ)} (hnames : (objects.map fun e => e.2.1).Nodup) :
    saved.foldl (fun objects e => setNamed e.1 e.2 objects) objects =
      objects.map fun e => (e.1, e.2.1, savedLevel saved e.2.1 e.2.2) := by
  induction saved generalizing objects with
  | nil => exact (List.map_id objects).symm
  | cons e saved ih =>
    obtain ⟨name, level⟩ := e
    obtain ⟨hname, hsaved⟩ := List.nodup_cons.mp hsaved
    have hsame : (setNamed name level objects).map (fun e => e.2.1) = objects.map fun e => e.2.1 := by
      have hmap := congrArg (List.map Prod.snd) (setNamed_names name level objects)
      rwa [List.map_map, List.map_map] at hmap
    rw [List.foldl_cons, ih hsaved (hsame ▸ hnames), setNamed_eq_map hnames, List.map_map]
    refine List.map_congr_left fun e _ => ?_
    by_cases he : e.2.1 = name
    · simp [he, savedLevel_cons, savedLevel_of_not_mem hname]
    · simp [he, savedLevel_cons, Ne.symm he]

/-- What a run without a store leaves saved. -/
theorem saved_of_keeps (dflt own : ι) (levels : LogLevels ι) {tr : List (LogLabel ι)} (hkeep : ∀ l ∈ tr, l.stores = false) :
    (tr.foldl (LogLevels.next dflt own) levels).saved = levels.saved := by
  induction tr generalizing levels with
  | nil => rfl
  | cons l tr ih =>
    obtain ⟨hl, hkeep⟩ := List.forall_mem_cons.mp hkeep
    rw [List.foldl_cons, ih _ hkeep, next_saved, hl]
    rfl

/-- The names of the objects that are registered are different. -/
def LogState.Distinct (s : LogState ι) : Prop := (s.registered.map fun a => (s.m.object a).name).Nodup

instance LogState.decidableDistinct (s : LogState ι) : Decidable s.Distinct := inferInstanceAs (Decidable (List.Nodup _))

/-- **Levels that were stored are there again after a load**, whatever was done in between (other levels set, the process
started again, its objects registered in another order, some of them not or others in addition), unless there
was another store.  An object that was not there when the levels were stored keeps its level. -/
theorem levels_persist {st₁ st₂ : LogState ι} {l : LogLabel ι} (hrun₁ : (logging dflt own).Run tr (some st₁))
    (hdistinct₁ : st₁.Distinct) (hvalid : ∀ a ∈ st₁.registered, ValidLevel (st₁.m.object a).level)
    (hstore : l.stores = true) (hkeep : ∀ l ∈ tr', l.stores = false)
    (hrun₂ : (logging dflt own).Run (tr ++ l :: tr') (some st₂)) (hdistinct₂ : st₂.Distinct) :
    ∃ st₃, (logging dflt own).next (some st₂) (.load true) = some st₃ ∧ st₃.registered = st₂.registered ∧
      ∀ a ∈ st₂.registered, (st₃.m.object a).name = (st₂.m.object a).name ∧
        (∀ b ∈ st₁.registered, (st₁.m.object b).name = (st₂.m.object a).name →
          (st₃.m.object a).level = (st₁.m.object b).level) ∧
        ((∀ b ∈ st₁.registered, (st₁.m.object b).name ≠ (st₂.m.object a).name) →
          (st₃.m.object a).level = (st₂.m.object a).level) := by
  obtain ⟨_, ⟨rfl⟩, hst₁⟩ := logging_holds hrun₁
  obtain ⟨_, ⟨rfl⟩, hst₂⟩ := logging_holds hrun₂
  -- what is in the file
  have hsaved : (levelsOf dflt own (tr ++ l :: tr')).saved = some ((st₁.m.entries st₁.registered).map Prod.snd) := by
    rw [levelsOf, List.foldl_append, List.foldl_cons, saved_of_keeps dflt own _ hkeep, next_saved, hstore, hst₁.objects]
    rfl
  have hvalid' : ∀ e ∈ (st₁.m.entries st₁.registered).map Prod.snd, ValidLevel e.2 := by
    intro e he
    obtain ⟨e', he', rfl⟩ := List.mem_map.mp he
    obtain ⟨a, ha, rfl⟩ := List.mem_map.mp he'
    exact hvalid a ha
  have hsavedNames : (((st₁.m.entries st₁.registered).map Prod.snd).map Prod.fst).Nodup := by
    rw [LogModule.entries, List.map_map, List.map_map]
    exact hdistinct₁
  have hnames : ((levelsOf dflt own (tr ++ l :: tr')).objects.map fun e => e.2.1).Nodup := by
    rw [← hst₂.objects, LogModule.entries, List.map_map]
    exact hdistinct₂
  -- what the load makes of it
  obtain ⟨m, hload, hst₃⟩ := hst₂.load
  have hobjects := hst₃.objects
  rw [LogLevels.load, hsaved, Option.getD_some,
    List.takeWhile_eq_self_iff.mpr fun e he => decide_eq_true (hvalid' e he), foldl_setNamed hsavedNames hnames,
    ← hst₂.objects] at hobjects
  refine ⟨_, congrArg (Option.map _) hload, rfl, fun a ha => ?_⟩
  have hentry := List.map_inj_left.mp (hobjects.trans (List.map_map ..)) a ha
  obtain ⟨-, hname, hlevel⟩ : a = a ∧ (m.object a).name = (st₂.m.object a).name ∧ (m.object a).level =
      savedLevel ((st₁.m.entries st₁.registered).map Prod.snd) (st₂.m.object a).name (st₂.m.object a).level := by
    simpa using hentry
  refine ⟨hname, fun b hb hsame => hlevel.trans ?_, fun hnone => hlevel.trans (savedLevel_of_not_mem ?_ _)⟩
  · refine savedLevel_of_mem hsavedNames ?_ _
    rw [← hsame]
    exact List.mem_map_of_mem (mem_entries_of_mem hb)
  · rw [LogModule.entries, List.map_map, List.map_map]
    intro hmem
    obtain ⟨b, hb, hsame⟩ := List.mem_map.mp hmem
    exact hnone b hb hsame

/-- The level of the default object is stored, the objects are registered the other way round, and it is there again. -/
theorem levels_persist_reordered : ∃ st₂ st₃,
    (logging 1 0).Run (libraryStart 7 ++ .store true :: [.restart fun _ => ⟨[], 0, none⟩, .add 1 (bytesOf "default") 6,
      .add 0 (bytesOf "log-object") 6]) (some st₂) ∧ (st₂.m.object 1).level = 6 ∧
      (logging 1 0).next (some st₂) (.load true) = some st₃ ∧ (st₃.m.object 1).level = 7 := by
  have hreached₁ : ∃ s, (logging 1 0).Run (libraryStart 7) s ∧ ∀ st ∈ s, st.Distinct ∧
      (∀ a ∈ st.registered, ValidLevel (st.m.object a).level) ∧ 1 ∈ st.registered ∧
      (st.m.object 1).name = bytesOf "default" ∧ (st.m.object 1).level = 7 :=
    ⟨_, (System.path_of_runs (by decide +kernel)).run, by decide +kernel⟩
  have hreached₂ : ∃ s, (logging 1 0).Run (libraryStart 7 ++ .store true :: [.restart fun _ => ⟨[], 0, none⟩,
      .add 1 (bytesOf "default") 6, .add 0 (bytesOf "log-object") 6]) s ∧ ∀ st ∈ s, st.Distinct ∧ 1 ∈ st.registered ∧
      (st.m.object 1).name = bytesOf "default" ∧ (st.m.object 1).level = 6 :=
    ⟨_, (System.path_of_runs (by decide +kernel)).run, by decide +kernel⟩
  obtain ⟨s₁, hrun₁, hfacts₁⟩ := hreached₁
  obtain ⟨s₂, hrun₂, hfacts₂⟩ := hreached₂
  obtain ⟨st₁, rfl, -⟩ := logging_holds hrun₁
  obtain ⟨st₂, rfl, -⟩ := logging_holds hrun₂
  obtain ⟨hdistinct₁, hvalid, hmem₁, hname₁, hlevel₁⟩ := hfacts₁ st₁ rfl
  obtain ⟨hdistinct₂, hmem₂, hname₂, hlevel₂⟩ := hfacts₂ st₂ rfl
  obtain ⟨st₃, hload, -, hobjects⟩ :=
    levels_persist hrun₁ hdistinct₁ hvalid rfl (by simp [LogLabel.stores]) hrun₂ hdistinct₂
  exact ⟨st₂, st₃, hrun₂, hlevel₂, hload, ((hobjects 1 hmem₂).2.1 1 hmem₁ (hname₁.trans hname₂.symm)).trans hlevel₁⟩

end

end Monolinux
