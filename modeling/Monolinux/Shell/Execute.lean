import Monolinux.Errors
import Monolinux.Shell.Commands
import Monolinux.Shell.Grammar
import Monolinux.Shell.History
import Monolinux.Lib.Terminal

/-!
# Executing a line

`mlShellExecuteCommand` parses a line in the memory it is in, and calls the function of the
command that is found with the arguments; `serve` is what `shell_main` does with the line
that `read_command` has left.  `Line.serve` is the same on the text.

* `mlShellExecuteCommand_eq`: the function is called with the strings that the grammar has
  for the line;
* `commandHistory_eq`: the built-in `history` prints what the history remembers;
* `serve_eq`: no access leaves the line, and it is served as its text is.
-/

namespace Monolinux

def EINVAL : ℤ := 22

/-- What happens when a function is called. -/
inductive Called (σ : Type)
  | returned (res : ℤ) (printed : List UInt8) (world : σ)
  /-- the process is over -/
  | ended (printed : List UInt8) (world : σ)

/-- What the shell calls: those of its functions that work on the system, all other functions, and `strerror`. -/
structure Environment (γ σ : Type) where
  system : BuiltIn → List (List UInt8) → σ → Called σ
  other : γ → List (List UInt8) → σ → Called σ
  strerror : ℤ → List UInt8

/-! ## The source -/

section

variable {ι γ σ : Type}

def helpText : List UInt8 := bytesOf (
  "Cursor movement\n" ++
  "\n" ++
  "         LEFT   Go left one character.\n" ++
  "        RIGHT   Go right one character.\n" ++
  "  HOME/Ctrl+A   Go to the beginning of the line.\n" ++
  "   END/Ctrl+E   Go to the end of the line.\n" ++
  "\n" ++
  "Edit\n" ++
  "\n" ++
  "        Alt+D   Delete the word at the cursor.\n" ++
  "       Ctrl+D   Delete the chracter at the cursor.\n" ++
  "       Ctrl+K   Cut the line from cursor to end.\n" ++
  "       Ctrl+T   Swap the last two characters before the cursor (typo).\n" ++
  "          TAB   Tab completion for command names.\n" ++
  "    BACKSPACE   Delete the character before the cursor.\n" ++
  "\n" ++
  "History\n" ++
  "\n" ++
  "           UP   Previous command.\n" ++
  "         DOWN   Next command.\n" ++
  "       Ctrl+R   Recall the last command including the specified character(s)\n" ++
  "                searches the command history as you type.\n" ++
  "       Ctrl+G   Escape from history searching mode.\n" ++
  "\n" ++
  "Commands\n" ++
  "\n")

/-- `%13s`. -/
def padTo13 (s : List UInt8) : List UInt8 := List.replicate (13 - s.length) 0x20 ++ s

def commandHelp (commands : List (Command γ)) : List UInt8 :=
  helpText ++ commands.flatMap fun command => padTo13 command.name ++ bytesOf "   " ++ command.description ++ [0x0a]

/-- The loop of `command_history` from `current` on; not at the end after `fuel` elements: `none`. -/
def commandHistoryLoop (h : History ι) : ℕ → Option ι → ℤ → Option (List UInt8)
  | 0, _, _ => none
  | _ + 1, none, _ => some []
  | fuel + 1, some current, i => do
    let elem ← h.mem current
    let printed ← commandHistoryLoop h fuel elem.next (i + 1)
    return decimal i ++ bytesOf ": " ++ elem.buf ++ 0x0a :: printed

def commandHistory (h : History ι) : Option (List UInt8) := commandHistoryLoop h (h.length.toNat + 1) h.head 1

def mlStrerror (env : Environment γ σ) (errnum : ℤ) : List UInt8 :=
  if errnum = EGENERAL then bytesOf "General" else env.strerror errnum

/-- `command_p->callback(argc, &argv[0], fout_p)`. -/
def callback (env : Environment γ σ) (commands : List (Command γ)) (h : History ι) (f : Callback γ)
    (args : List (List UInt8)) (world : σ) : Option (Called σ) :=
  match f with
  | .builtIn .help => some (.returned 0 (commandHelp commands) world)
  | .builtIn .history => do
    let printed ← commandHistory h
    return .returned 0 printed world
  | .builtIn .exit => some (.returned 0 [] world)
  | .builtIn command => some (env.system command args world)
  | .other f => some (env.other f args world)

/-- The memory with the line, and what happens. -/
def mlShellExecuteCommand (env : Environment γ σ) (search : SortSearch (List UInt8) (Command γ))
    (commands : List (Command γ)) (h : History ι) (mem : List UInt8) (line : ℤ) (world : σ) :
    Option (List UInt8 × Called σ) := do
  let (mem, argv, argc) ← parseCommand mem line (List.replicate 32 0)
  if argc < 1 then return (mem, .returned (-1) [] world)
  else do
    -- the strings that `argv` points to
    let args ← (argv.take argc.toNat).mapM (cstr mem)
    let name ← args.head?
    match findCommand search commands name with
    | some command => do
      let called ← callback env commands h command.callback args world
      return (mem, called)
    | none => return (mem, .returned (-EINVAL) (name ++ bytesOf ": command not found\n") world)

/-- What `shell_main` does after a line: print a prompt and go on, or return. -/
inductive Served (σ : Type)
  | again (printed : List UInt8) (world : σ)
  | left
  | ended (printed : List UInt8) (world : σ)

/-- `OK` or `ERROR`. -/
def report (env : Environment γ σ) : Called σ → Served σ
  | .returned res printed world =>
    .again (printed ++ if res = 0 then bytesOf "OK\n"
      else bytesOf "ERROR(" ++ decimal res ++ bytesOf ": " ++ mlStrerror env (-res) ++ bytesOf ")\n") world
  | .ended printed world => .ended printed world

/-- `buf` is the line, and `res` what `read_command` returned. -/
def serve (env : Environment γ σ) (search : SortSearch (List UInt8) (Command γ)) (commands : List (Command γ))
    (h : History ι) (buf : List UInt8) (res : ℤ) (world : σ) : Option (List UInt8 × Served σ) :=
  if res > 0 then do
    let (mem, stripped) ← mlStrip buf 0 none
    let c ← load mem stripped
    -- `is_comment`
    if c = 0x23 then return (mem, .again [] world)
    else do
      -- `is_exit`
      let isExit ← strncmpZero (mem.drop stripped.toNat) (bytesOf "exit" ++ [0]) 5
      if isExit then return (mem, .left)
      else do
        let (mem, called) ← mlShellExecuteCommand env search commands h mem stripped world
        return (mem, report env called)
  else some (buf, .again [] world)

end

/-! ## On texts -/

section

variable {γ σ : Type}

/-- The remembered commands, numbered from 1 on. -/
def listing : ℤ → List (List UInt8) → List UInt8
  | _, [] => []
  | i, command :: commands => decimal i ++ bytesOf ": " ++ command ++ 0x0a :: listing (i + 1) commands

/-- A call of the function of a command; `entries` are the remembered commands. -/
def Command.call (env : Environment γ σ) (commands : List (Command γ)) (entries : List (List UInt8)) (command : Command γ)
    (args : List (List UInt8)) (world : σ) : Called σ :=
  match command.callback with
  | .builtIn .help => .returned 0 (commandHelp commands) world
  | .builtIn .history => .returned 0 (listing 1 entries) world
  | .builtIn .exit => .returned 0 [] world
  | .builtIn b => env.system b args world
  | .other f => env.other f args world

/-- The command with the name that the line begins with is called with all that the line holds. -/
def executeText (env : Environment γ σ) (commands : List (Command γ)) (entries : List (List UInt8)) (text : List UInt8)
    (world : σ) : Called σ :=
  match tokenize text with
  | none | some [] => .returned (-1) [] world
  | some (name :: args) =>
    match commands.find? (·.name = name) with
    | some command => command.call env commands entries (name :: args) world
    | none => .returned (-EINVAL) (name ++ bytesOf ": command not found\n") world

/-- Empty lines and comments are skipped. -/
def serveText (env : Environment γ σ) (commands : List (Command γ)) (entries : List (List UInt8)) (text : List UInt8)
    (world : σ) : Served σ :=
  if text = [] then .again [] world
  else if (strip text).head? = some 0x23 then .again [] world
  else if strip text = bytesOf "exit" then .left
  else report env (executeText env commands entries text world)

end

/-! ## Parsing anywhere in memory -/

/-- `parse_command` on a line in memory. -/
theorem parseCommand_at (front : List UInt8) {line : List UInt8} (back : List UInt8) (hline : NulFree line) {argv : List ℤ}
    (hargv : argv.length = 32) : ∃ mem argv' res, parseCommand (front ++ (line ++ 0 :: back)) front.length argv =
        some (mem, argv', res) ∧ mem.length = (front ++ (line ++ 0 :: back)).length ∧
      Outcome mem front.length argv' 0 res (tokenize line) := by
  obtain ⟨spaces, back', hstrip, hlen⟩ := mlStrip_eq front back hline
  have hfree : NulFree (strip line) :=
    hline.sublist ((List.dropWhile_suffix _).sublist.trans (List.rdropWhile_prefix _ _).sublist)
  have hmemlen : (front ++ spaces ++ (strip line ++ 0 :: back')).length = (front ++ (line ++ 0 :: back)).length := by
    simp only [List.length_append, List.length_cons] at hlen ⊢
    omega
  unfold parseCommand tokenize
  rw [hstrip]
  simp only [Option.bind_eq_bind, Option.bind_some, strlen_eq (front ++ spaces) back' hfree]
  by_cases hnil : strip line = []
  · rw [if_pos (by rw [hnil]; rfl), if_pos hnil]
    exact ⟨_, argv, -1, rfl, hmemlen, rfl⟩
  · rw [if_neg (fun h => hnil (List.length_eq_zero_iff.mp h)), if_neg hnil]
    obtain ⟨mem, argv', res, hrun, -, -, hmem, -, -, hout⟩ :=
      parseCommandLoop_eq ((front ++ spaces ++ (strip line ++ 0 :: back')).length + 1) hfree (strip_stripped line)
        (front ++ spaces) back' argv hargv 0 (Nat.zero_le _) (by simp only [List.length_append]; omega)
    refine ⟨mem, argv', res, hrun, hmem.trans hmemlen, ?_⟩
    simp only [Nat.zero_add] at hout
    cases hargs : (readArguments (strip line)).filter (·.length ≤ 32) with
    | none =>
      rw [hargs] at hout
      exact hout
    | some args =>
      rw [hargs] at hout
      exact ⟨hout.1, hout.2.mono (by simp)⟩

/-- What is laid out can be read. -/
theorem LaidOut.mapM_cstr {mem : List UInt8} {p : ℤ} {ptrs : List ℤ} {args : List (List UInt8)} (h : LaidOut mem p ptrs args) :
    ptrs.mapM (cstr mem) = some args := by
  induction h with
  | nil p => rfl
  | cons _ harg _ ih => simp [List.mapM_cons, harg, ih]

theorem strip_idem (s : List UInt8) : strip (strip s) = strip s := by
  rw [strip_of_stripped (strip_stripped s)]
  exact List.dropWhile_idempotent _ _

theorem tokenize_strip (s : List UInt8) : tokenize (strip s) = tokenize s := by
  unfold tokenize
  rw [strip_idem]

/-! ## Refinement -/

section

variable {ι γ σ : Type} {h : History ι} {l front back : List ι} {older newer entries : List (List UInt8)}

/-- From any element on. -/
theorem commandHistoryLoop_eq (hh : h.Holds (front ++ back) (older ++ newer)) (hlen : older.length = front.length)
    {fuel : ℕ} (hfuel : back.length < fuel) (i : ℤ) :
    commandHistoryLoop h fuel back.head? i = some (listing i newer) := by
  induction back generalizing front older newer fuel i with
  | nil =>
    obtain ⟨fuel, rfl⟩ := Nat.exists_eq_add_of_lt hfuel
    have hlength := hh.length_eq
    simp only [List.length_append, List.length_nil] at hlength
    obtain rfl : newer = [] := List.eq_nil_of_length_eq_zero (by omega)
    rw [List.length_nil, Nat.zero_add]
    rfl
  | cons a back ih =>
    obtain ⟨fuel, rfl⟩ : ∃ k, fuel = k + 1 := ⟨fuel - 1, by omega⟩
    obtain ⟨older', command, newer', hcommands, holder', hmem⟩ := hh.elem
    obtain ⟨rfl, rfl⟩ := List.append_inj hcommands (hlen.trans holder'.symm)
    rw [List.append_cons front, List.append_cons older] at hh
    have hrest := ih hh (by simp [hlen]) (Nat.lt_of_succ_lt_succ hfuel) (i + 1)
    rw [List.head?_cons]
    unfold commandHistoryLoop
    rw [hmem, Option.bind_eq_bind, Option.bind_some]
    dsimp only
    rw [hrest]
    rfl

theorem commandHistory_eq (hh : h.Holds l entries) : commandHistory h = some (listing 1 entries) := by
  have hlen := hh.length_eq
  have hlength := hh.length
  unfold commandHistory
  rw [hh.linked.head_eq]
  exact @commandHistoryLoop_eq _ _ [] _ [] _ hh rfl _ (by omega) 1

variable {env : Environment γ σ} {search : SortSearch (List UInt8) (Command γ)} {commands : List (Command γ)}

theorem callback_eq (hh : h.Holds l entries) (command : Command γ) (args : List (List UInt8)) (world : σ) :
    callback env commands h command.callback args world = some (command.call env commands entries args world) := by
  unfold callback Command.call
  cases command.callback with
  | other f => rfl
  | builtIn b =>
    cases b with
    | history =>
      rw [commandHistory_eq hh]
      rfl
    | _ => rfl

variable (env search) in
/-- **The arguments are those of the grammar.** -/
theorem mlShellExecuteCommand_eq (hh : h.Holds l entries) (hasc : Ascending Command.key commands) (front : List UInt8)
    {text : List UInt8} (back : List UInt8) (htext : NulFree text) (world : σ) :
    ∃ mem, mlShellExecuteCommand env search commands h (front ++ (text ++ 0 :: back)) front.length world =
        some (mem, executeText env commands entries text world) ∧ mem.length = (front ++ (text ++ 0 :: back)).length := by
  obtain ⟨mem, argv, res, hparse, hmem, hout⟩ := parseCommand_at front back htext
    (List.length_replicate : (List.replicate 32 (0 : ℤ)).length = 32)
  refine ⟨mem, ?_, hmem⟩
  unfold mlShellExecuteCommand executeText
  rw [hparse, Option.bind_eq_bind, Option.bind_some]
  dsimp only
  cases htok : tokenize text with
  | none =>
    rw [htok] at hout
    obtain rfl : res = -1 := hout
    rfl
  | some args =>
    rw [htok] at hout
    obtain ⟨hres, hlaid⟩ := hout
    have hread := hlaid.mapM_cstr
    rw [List.drop_zero, show args.length = res.toNat by omega] at hread
    cases args with
    | nil =>
      obtain rfl : res = 0 := hres
      rfl
    | cons name args =>
      have hpos : ¬res < 1 := by
        rw [hres, List.length_cons]
        omega
      rw [if_neg hpos, hread, Option.bind_eq_bind, Option.bind_some, List.head?_cons, Option.bind_eq_bind, Option.bind_some,
        findCommand_eq search hasc]
      dsimp only
      cases commands.find? fun command => command.name = name with
      | none => rfl
      | some command =>
        dsimp only
        rw [callback_eq hh]
        rfl

variable (env search) in
/-- **A line is served as its text is.** -/
theorem serve_eq (hh : h.Holds l entries) (hasc : Ascending Command.key commands) {line : Line} {text : Text}
    (hline : line.Holds text) (world : σ) :
    ∃ mem, serve env search commands h line.buf line.length world =
        some (mem, serveText env commands entries text.all world) ∧ mem.length = 256 := by
  have hlength := hline.length_all
  have hsize := hline.size
  unfold serve serveText
  by_cases hnil : text.all = []
  · rw [if_neg (by rw [hlength, hnil]; decide), if_pos hnil]
    exact ⟨line.buf, rfl, hsize⟩
  have hpos : line.length > 0 := by
    have := List.length_pos_iff.mpr hnil
    omega
  obtain ⟨junk, hbuf⟩ := hline.buf
  rw [← List.append_assoc] at hbuf
  obtain ⟨spaces, back, hstrip, hlen⟩ := mlStrip_eq [] junk hline.nulFree
  have hfree : NulFree (strip text.all) :=
    hline.nulFree.sublist ((List.dropWhile_suffix _).sublist.trans (List.rdropWhile_prefix _ _).sublist)
  rw [List.nil_append, List.nil_append] at hstrip
  have hmem : (spaces ++ (strip text.all ++ 0 :: back)).length = 256 := by
    rw [hbuf] at hsize
    simp only [Text.all, List.length_append, List.length_cons] at hlen hsize ⊢
    omega
  rw [if_pos hpos, if_neg hnil, hbuf]
  rw [show mlStrip (text.before ++ text.after ++ 0 :: junk) 0 none = _ from hstrip, Option.bind_eq_bind, Option.bind_some]
  dsimp only
  have hload : load (spaces ++ (strip text.all ++ 0 :: back)) spaces.length = some ((strip text.all).head?.getD 0) := by
    cases strip text.all with
    | nil => exact load_eq spaces 0 back
    | cons c s => exact load_eq spaces c (s ++ 0 :: back)
  have hcomment : (strip text.all).head?.getD 0 = 0x23 ↔ (strip text.all).head? = some 0x23 := by
    cases strip text.all with
    | nil => simp
    | cons c s => simp
  have hexit : strncmpZero ((spaces ++ (strip text.all ++ 0 :: back)).drop (spaces.length : ℤ).toNat) (bytesOf "exit" ++ [0]) 5 =
      some (decide (strip text.all = bytesOf "exit")) := by
    rw [Int.toNat_natCast, List.drop_left]
    exact strncmpZero_eq back [] hfree (by decide) 5
  rw [hload, Option.bind_eq_bind, Option.bind_some]
  by_cases hhash : (strip text.all).head? = some 0x23
  · rw [if_pos (hcomment.mpr hhash), if_pos hhash]
    exact ⟨_, rfl, hmem⟩
  rw [if_neg (fun h => hhash (hcomment.mp h)), if_neg hhash, hexit, Option.bind_eq_bind, Option.bind_some]
  by_cases hleave : strip text.all = bytesOf "exit"
  · rw [if_pos (decide_eq_true hleave), if_pos hleave]
    exact ⟨_, rfl, hmem⟩
  · obtain ⟨mem, hexecute, hlen'⟩ := mlShellExecuteCommand_eq env search hh hasc spaces back hfree world
    rw [if_neg (by simpa using hleave), if_neg hleave, hexecute]
    refine ⟨mem, ?_, hlen'.trans hmem⟩
    unfold executeText
    rw [tokenize_strip]
    rfl

end

end Monolinux
