import Monolinux.Lib.ComparisonSort
import Monolinux.Lib.CString
import Mathlib.Data.List.Lex
import Mathlib.Data.Nat.Basic

/-!
# The table of commands

Commands are registered one behind the other; `ml_shell_start` sorts the table with a
comparison that prints and exits if two names are equal, and `find_command` searches it.
`qsort` is any `ComparisonSort` and `bsearch` any `SortSearch`.

* `builtIns_nodup`: the built-in commands have different names;
* `start_sorts_or_exits`: the shell starts just when all names are different, and then
  finds every command by its name; otherwise it names a command that was registered twice.
-/

namespace Monolinux

/-! ## The source -/

/-- The command functions of the shell itself. -/
inductive BuiltIn
  | help | history | exit | suicide | ls | ll | cat | rm | hexdump | reboot | halt | poweroff | insmod | rmmod | mkdir | mknod
  | mount | umount | df | find | date | print | dmesg | sync | top | ntpSync | dd | i2c | log
  deriving DecidableEq, Repr

/-- A function pointer, to one of the shell's own functions or to another. -/
inductive Callback (γ : Type)
  | builtIn (command : BuiltIn)
  | other (f : γ)
  deriving DecidableEq, Repr

/-- `struct command_t`. -/
structure Command (γ : Type) where
  name : List UInt8
  description : List UInt8
  callback : Callback γ
  deriving DecidableEq, Repr

section

variable {γ : Type}

/-- `number_of_commands` is the length of the table. -/
def mlShellRegisterCommand (commands : List (Command γ)) (name description : List UInt8) (callback : Callback γ) :
    List (Command γ) := commands ++ [⟨name, description, callback⟩]

/-- What `ml_shell_init` registers. -/
def builtIns : List (String × String × BuiltIn) := [
  ("help", "Print this help.", .help),
  ("history", "List command history.", .history),
  ("exit", "Shell exit.", .exit),
  ("suicide", "Process suicide.", .suicide),
  ("ls", "List directory contents.", .ls),
  ("ll", "List detailed directory contents.", .ll),
  ("cat", "Print a file.", .cat),
  ("rm", "Remove files and directories.", .rm),
  ("hexdump", "Hexdump a file.", .hexdump),
  ("reboot", "Reboot the system.", .reboot),
  ("halt", "Halt the system.", .halt),
  ("poweroff", "Power off the system.", .poweroff),
  ("insmod", "Insert a kernel module.", .insmod),
  ("rmmod", "Remove a kernel module.", .rmmod),
  ("mkdir", "Create a directory.", .mkdir),
  ("mknod", "Create a node.", .mknod),
  ("mount", "Mount a filesystem.", .mount),
  ("umount", "Unmount a filesystem.", .umount),
  ("df", "Disk space usage.", .df),
  ("find", "Find files and folders.", .find),
  ("date", "Print current date.", .date),
  ("print", "Print to file.", .print),
  ("dmesg", "Print the kernel ring buffer.", .dmesg),
  ("sync", "Synchronize cached writes to persistent storage.", .sync),
  ("top", "System status.", .top),
  ("ntp_sync", "NTP time sync.", .ntpSync),
  ("dd", "File copy.", .dd),
  ("i2c", "I2C bus commands.", .i2c),
  ("log", "Log control.", .log)]

/-- Commands are registered one after the other. -/
def registerAll (commands : List (Command γ)) (registered : List (List UInt8 × List UInt8 × Callback γ)) :
    List (Command γ) :=
  registered.foldl (fun commands r => mlShellRegisterCommand commands r.1 r.2.1 r.2.2) commands

/-- The table of `ml_shell_init`. -/
def mlShellInit : List (Command γ) :=
  registerAll [] (builtIns.map fun r => (bytesOf r.1, bytesOf r.2.1, .builtIn r.2.2))

/-- The bytes are compared as `unsigned char`s. -/
def strcmp (s s' : List UInt8) : ℤ := threeWay (s.map UInt8.toNat) (s'.map UInt8.toNat)

namespace Command

def compareBsearch (name : List UInt8) (elem : Command γ) : ℤ := strcmp name elem.name

/-- The error is what is printed before `exit(1)`. -/
def compareQsort (lelem relem : Command γ) : Except (List UInt8) ℤ :=
  let res := strcmp lelem.name relem.name
  if res = 0 then .error (lelem.name ++ bytesOf ": shell commands must be unique") else .ok res

end Command

def findCommand (search : SortSearch (List UInt8) (Command γ)) (commands : List (Command γ)) (name : List UInt8) :
    Option (Command γ) := (search.search Command.compareBsearch name commands).bind fun i => commands[i]?

/-- The table that `shell_main` works with. -/
def mlShellStart (c : ComparisonSort) (commands : List (Command γ)) : Except (List UInt8) (List (Command γ)) :=
  c.sortList Command.compareQsort commands

end

/-! ## Names as keys -/

section

variable {γ : Type} {s s' : List UInt8}

/-- The order of the table. -/
def Command.key (command : Command γ) : List ℕ := command.name.map UInt8.toNat

theorem map_toNat_injective : Function.Injective fun name : List UInt8 => name.map UInt8.toNat :=
  List.map_injective_iff.mpr fun _ _ => UInt8.toNat.inj

/-- The names ascend in the order of TAB, too. -/
theorem lt_of_map_toNat_lt (h : s.map UInt8.toNat < s'.map UInt8.toNat) : s < s' := by
  induction s generalizing s' with
  | nil =>
    cases s' with
    | nil => exact absurd h (lt_irrefl _)
    | cons c s' => exact List.Lex.nil
  | cons c s ih =>
    cases s' with
    | nil => exact absurd h (List.not_lt_nil _)
    | cons c' s' =>
      rcases List.cons_lt_cons_iff.mp h with hlt | ⟨heq, hlt⟩
      · exact List.Lex.rel hlt
      · obtain rfl := UInt8.toNat.inj heq
        exact List.Lex.cons (ih hlt)

theorem Ascending.names_pairwise {table : List (Command γ)} (h : Ascending Command.key table) :
    (table.map Command.name).Pairwise (· < ·) :=
  List.pairwise_map.mpr (h.imp lt_of_map_toNat_lt)

theorem map_key (commands : List (Command γ)) :
    commands.map Command.key = (commands.map Command.name).map fun name => name.map UInt8.toNat := by
  rw [List.map_map]
  rfl

/-- With different names a name is that of one command. -/
theorem find?_name_iff {commands : List (Command γ)} (h : (commands.map Command.name).Nodup) {name : List UInt8}
    {command : Command γ} : commands.find? (·.name = name) = some command ↔ command ∈ commands ∧ command.name = name := by
  constructor
  · intro hfind
    have hname := List.find?_some hfind
    exact ⟨List.mem_of_find?_eq_some hfind, by simpa using hname⟩
  · rintro ⟨hmem, rfl⟩
    cases hfind : commands.find? fun c => c.name = command.name with
    | none => exact absurd (decide_eq_true rfl) (List.find?_eq_none.mp hfind command hmem)
    | some command' =>
      have hname := List.find?_some hfind
      exact congrArg some (List.inj_on_of_nodup_map h (List.mem_of_find?_eq_some hfind) hmem (by simpa using hname))

theorem Ascending.nodup_name {table : List (Command γ)} (h : Ascending Command.key table) :
    (table.map Command.name).Nodup := by
  have hkeys := h.nodup
  rw [map_key] at hkeys
  exact hkeys.of_map _

/-- In a good table the search finds the command with the name. -/
theorem findCommand_eq (search : SortSearch (List UInt8) (Command γ)) {table : List (Command γ)}
    (h : Ascending Command.key table) (name : List UInt8) :
    findCommand search table name = table.find? (·.name = name) := by
  have hspec := search.search_spec Command.compareBsearch name table (h.searchable (name.map UInt8.toNat))
  have hzero (command : Command γ) : command.compareBsearch name = 0 ↔ name = command.name :=
    threeWay_eq_zero.trans map_toNat_injective.eq_iff
  unfold findCommand
  cases hs : search.search Command.compareBsearch name table with
  | none =>
    rw [hs] at hspec
    symm
    rw [Option.bind_none, List.find?_eq_none]
    intro command hmem hname
    exact hspec command hmem ((hzero command).mpr (of_decide_eq_true hname).symm)
  | some i =>
    rw [hs] at hspec
    obtain ⟨command, hget, h0⟩ := hspec
    rw [Option.bind_some, hget]
    exact ((find?_name_iff h.nodup_name).mpr ⟨List.mem_of_getElem? hget, ((hzero command).mp h0).symm⟩).symm

end

/-! ## Starting -/

section

variable {γ : Type}

theorem compareQsort_eq : (Command.compareQsort : Command γ → Command γ → Except (List UInt8) ℤ) =
    ComparisonSort.exitIfEqual Command.key fun command => command.name ++ bytesOf ": shell commands must be unique" := rfl

theorem registerAll_eq (commands : List (Command γ)) (registered : List (List UInt8 × List UInt8 × Callback γ)) :
    registerAll commands registered = commands ++ registered.map fun r => ⟨r.1, r.2.1, r.2.2⟩ := by
  unfold registerAll
  induction registered generalizing commands with
  | nil => exact (List.append_nil _).symm
  | cons r registered ih =>
    rw [List.foldl_cons, ih, List.map_cons, mlShellRegisterCommand, List.append_assoc, List.singleton_append]

/-- The built-in commands have different names. -/
theorem builtIns_nodup : ((mlShellInit : List (Command γ)).map Command.name).Nodup := by
  unfold mlShellInit
  rw [registerAll_eq, List.nil_append, List.map_map, List.map_map]
  show (builtIns.map fun r => bytesOf r.1).Nodup
  decide +kernel

theorem duplicate_map {α β : Type} [DecidableEq α] [DecidableEq β] {f : α → β} (hf : Function.Injective f) {l : List α} {a : α}
    (h : (l.map f).Duplicate (f a)) : l.Duplicate a := by
  rw [List.duplicate_iff_two_le_count] at h ⊢
  rwa [List.count_map_of_injective _ _ hf] at h

/-- **The shell starts** only if no name is registered twice, with a sorted table in which every command is found by
its name; otherwise it prints a name that is, if `qsort` compares no element with itself. -/
theorem start_sorts_or_exits (c : ComparisonSort) (search : SortSearch (List UInt8) (Command γ))
    (registered : List (List UInt8 × List UInt8 × Callback γ)) :
    (∃ table, mlShellStart c (registerAll mlShellInit registered) = .ok table ∧
        ((registerAll mlShellInit registered).map Command.name).Nodup ∧ table.Perm (registerAll mlShellInit registered) ∧
        (table.map Command.name).Pairwise (· < ·) ∧ ∀ name command, findCommand search table name = some command ↔
          command ∈ registerAll mlShellInit registered ∧ command.name = name) ∨
      ∃ command ∈ registerAll mlShellInit registered, mlShellStart c (registerAll mlShellInit registered) =
          .error (command.name ++ bytesOf ": shell commands must be unique") ∧
        (c.Distinguishing → ((registerAll mlShellInit registered).map Command.name).Duplicate command.name) := by
  generalize registerAll mlShellInit registered = commands
  unfold mlShellStart
  rw [compareQsort_eq]
  rcases sortList_unique c Command.key _ commands with ⟨table, hok, hperm, hasc⟩ | ⟨command, hmem, herror, hdup⟩
  · left
    refine ⟨table, hok, (hperm.map _).nodup_iff.mp hasc.nodup_name, hperm, hasc.names_pairwise, fun name command => ?_⟩
    rw [findCommand_eq search hasc, find?_name_iff hasc.nodup_name, hperm.mem_iff]
  · right
    rw [map_key] at hdup
    exact ⟨command, hmem, herror, fun hself => duplicate_map map_toNat_injective (hdup hself)⟩

end

end Monolinux
