import Monolinux.Shell.Execute
import Monolinux.Shell.Quoting
import Monolinux.Shell.ReadCommand

/-!
# A session

`shellIteration` is what `shell_main` does for one more key: an iteration of `read_command`
and, if it was Enter, all up to the next prompt.  Its system runs on the bytes of stdin; what
it prints is collected.  `Prompt.next` is what the shell is for: a navigator, and an
interpreter for the lines that are entered.

* `session_refines`: the shell does what the interpreter does;
* `typed_commands_called`: command lines that are typed call their commands, one after the
  other and with exactly the arguments.
-/

namespace Monolinux

/-! ## The source -/

section

variable {ι γ σ : Type} [DecidableEq ι]

omit [DecidableEq ι] in
/-- The shell thread, stdin and stdout; it is not `running` when `shell_main` has returned or the process is over. -/
structure ShellState (ι σ : Type) where
  module : ShellModule ι
  world : σ
  input : List UInt8
  printed : List UInt8
  running : Bool

/-- `elem` is what `malloc` would return for a command. -/
def shellIteration (env : Environment γ σ) (search : SortSearch (List UInt8) (Command γ)) (commands : List (Command γ))
    (s : ShellState ι σ) (elem : Option ι) : Option (ShellState ι σ) := do
  match ← readCommandKey (commands.map Command.name) s.module s.input with
  | .error printed => return { s with input := [], printed := s.printed ++ printed, running := false }
  | .ok (m, input, printed) =>
    if m.newlineReceived then do
      let (history, length) ← executeLine m.history m.line elem
      let (buf, served) ← serve env search commands history m.line.buf length s.world
      let printed := s.printed ++ printed ++ (if m.carriageReturnReceived then [0x0d] else []) ++ [0x0a]
      match served with
      | .again out world => do
        -- `read_command` is called again
        let line ← lineInit { m.line with buf }
        return { s with
          module := { m with line, history, carriageReturnReceived := false, newlineReceived := false }
          world, input, printed := printed ++ out ++ prompt }
      | .left => return { s with input, printed, running := false }
      | .ended out world => return { s with world, input, printed := printed ++ out, running := false }
    else return { s with module := m, input, printed := s.printed ++ printed }

/-- Before the first prompt. -/
def sessionStart (m : ShellModule ι) (world : σ) (input : List UInt8) : Option (ShellState ι σ) := do
  let shell ← shellInit m.toShell
  return { module := { m with toShell := shell, carriageReturnReceived := false, newlineReceived := false }
           world, input, printed := [], running := true }

/-- A step is a key; its label is what `malloc` would return. -/
def sessionSystem (env : Environment γ σ) (search : SortSearch (List UInt8) (Command γ)) (commands : List (Command γ))
    (m : ShellModule ι) (world : σ) (input : List UInt8) : System (Option (ShellState ι σ)) (Option ι) where
  start := sessionStart m world input
  enabled s elem := ∀ st ∈ s, st.running = true ∧ st.module.history.MayAllocate elem
  next s elem := s.bind fun st => shellIteration env search commands st elem

omit [DecidableEq ι] in
/-- The keys are those that the shell is for. -/
def UsualKeys (s : Option (ShellState ι σ)) (_ : Option ι) : Prop := ∀ st ∈ s, st.module.Usual st.input

end

/-! ## The interpreter -/

section

variable {γ σ : Type}

structure Prompt (σ : Type) where
  nav : Navigator Text
  carriageReturn : Bool
  world : σ
  input : List UInt8
  printed : List UInt8
  running : Bool

/-- The entries after a line was entered. -/
def Navigator.entered (nav : Navigator Text) (stored : Bool) : Navigator Text :=
  nav.press recalled (.enter (storeLine stored) ⟨[], []⟩)

/-- A key, and if it is Enter, the line. -/
def Prompt.next (env : Environment γ σ) (commands : List (Command γ)) (p : Prompt σ) (stored : Bool) : Prompt σ :=
  match readText (commands.map Command.name) p.nav p.carriageReturn p.input with
  | .error printed => { p with input := [], printed := p.printed ++ printed, running := false }
  | .ok read =>
    if read.newline then
      let nav := read.nav.entered stored
      let printed := p.printed ++ read.printed ++ (if read.carriageReturn then [0x0d] else []) ++ [0x0a]
      match serveText env commands nav.commands read.nav.text.all p.world with
      | .again out world =>
        { p with nav, carriageReturn := false, world, input := read.input, printed := printed ++ out ++ prompt }
      | .left => { p with input := read.input, printed, running := false }
      | .ended out world => { p with world, input := read.input, printed := printed ++ out, running := false }
    else
      { p with nav := read.nav, carriageReturn := read.carriageReturn, input := read.input,
               printed := p.printed ++ read.printed }

def Prompt.start (world : σ) (input : List UInt8) : Prompt σ :=
  ⟨⟨[], [], ⟨[], []⟩, ⟨[], []⟩⟩, false, world, input, [], true⟩

/-- The prompt after some keys; `stored` says for each whether there is memory for a command. -/
def prompted (env : Environment γ σ) (commands : List (Command γ)) (world : σ) (input : List UInt8) (stored : List Bool) :
    Prompt σ := stored.foldl (Prompt.next env commands) (Prompt.start world input)

end

/-! ## Refinement -/

section

variable {ι γ σ : Type} [DecidableEq ι] {env : Environment γ σ} {search : SortSearch (List UInt8) (Command γ)}
  {commands : List (Command γ)} {s : ShellState ι σ} {p : Prompt σ}

omit [DecidableEq ι] in
/-- The shell and the interpreter. -/
structure ShellState.Shows (s : ShellState ι σ) (p : Prompt σ) : Prop where
  world : s.world = p.world
  input : s.input = p.input
  printed : s.printed = p.printed
  running : s.running = p.running
  /-- at the prompt -/
  reads : s.running = true → s.module.Reads p.nav p.carriageReturn ∧ s.module.newlineReceived = false

theorem commands_entered (nav : Navigator Text) (stored : Bool) : (nav.entered stored).commands =
    if nav.text.all = [] then nav.commands else remember stored nav.commands nav.text.all := by
  show (storeLine stored (nav.older ++ nav.newer) nav.text ++ []).map Text.all = _
  unfold storeLine
  rw [List.append_nil]
  split
  · rfl
  · exact map_asText_all _

theorem typed_entered {nav : Navigator Text} (h : Typed nav.commands) {line : Line} (hline : line.Holds nav.text)
    (stored : Bool) : Typed (nav.entered stored).commands := by
  rw [commands_entered]
  split
  · exact h
  · next hne =>
    intro command hcommand
    rcases mem_of_remember hcommand with hold | rfl
    · exact h command hold
    · exact ⟨hne, hline.fits_all⟩

variable (env search) in
/-- **Enter**: the line is executed and served, and the next prompt begins. -/
theorem enter_shows (hasc : Ascending Command.key commands) {m : ShellModule ι} {nav : Navigator Text} {carriageReturn : Bool}
    (h : m.Reads nav carriageReturn) {elem : Option ι} (helem : m.history.MayAllocate elem) (world : σ) :
    ∃ history buf line, executeLine m.history m.line elem = some (history, m.line.length) ∧
      serve env search commands history m.line.buf m.line.length world =
        some (buf, serveText env commands (nav.entered elem.isSome).commands nav.text.all world) ∧
      lineInit { m.line with buf } = some line ∧
      ShellModule.Reads { m with line, history, carriageReturnReceived := false, newlineReceived := false }
        (nav.entered elem.isSome) false := by
  obtain ⟨l, hh⟩ := h.shell.holds
  have hline := h.shell.line
  obtain ⟨history, l', hexecute, hh', -⟩ := executeLine_holds hh hline helem
  rw [← commands_entered] at hh'
  obtain ⟨buf, hserve, hbuf⟩ := serve_eq env search hh' hasc hline world
  have hkey : (ShellKey.enter elem { m.line with buf }).Enabled (some m.toShell) := by
    refine ⟨hbuf, ?_⟩
    rintro shell ⟨⟩
    exact helem
  obtain ⟨shell, hhandle, hrefines⟩ := enter_refines h.shell hkey
  obtain ⟨line, hinit, -⟩ := @lineInit_holds { m.line with buf } hbuf
  have hshell : shell = ⟨line, history⟩ := by
    have : (ShellKey.enter elem { m.line with buf }).handle m.toShell = some ⟨line, history⟩ := by
      simp [ShellKey.handle, hexecute, hinit]
    exact Option.some_inj.mp (hhandle.symm.trans this)
  rw [hshell] at hrefines
  exact ⟨history, buf, line, hexecute, hserve, hinit, hrefines, typed_entered h.typed hline _, rfl, h.pattern, h.matched⟩

variable (env search) in
/-- **One key.** -/
theorem shellIteration_shows (hasc : Ascending Command.key commands) (hnames : ∀ command ∈ commands, NulFree command.name)
    (h : s.Shows p) (hrunning : s.running = true) (husual : s.module.Usual s.input) {elem : Option ι}
    (helem : s.module.history.MayAllocate elem) :
    ∃ s', shellIteration env search commands s elem = some s' ∧ s'.Shows (p.next env commands elem.isSome) := by
  obtain ⟨hreads, hnewline⟩ := h.reads hrunning
  have hprinted := h.printed
  have hworld := h.world
  obtain ⟨result, hkey, hagree⟩ := readCommandKey_refines hasc.names_pairwise
    (fun name hname => by
      obtain ⟨command, hmem, rfl⟩ := List.mem_map.mp hname
      exact hnames command hmem) hreads hnewline husual
  unfold shellIteration Prompt.next
  rw [hkey, Option.bind_eq_bind, Option.bind_some]
  rw [h.input] at hagree
  cases hread : readText (commands.map Command.name) p.nav p.carriageReturn p.input with
  | error e =>
    rw [hread] at hagree
    cases result with
    | ok _ => exact hagree.elim
    | error e' =>
      obtain rfl : e' = e := hagree
      exact ⟨_, rfl, hworld, rfl, congrArg (· ++ e') hprinted, rfl, nofun⟩
  | ok read =>
    rw [hread] at hagree
    cases result with
    | error _ => exact hagree.elim
    | ok result =>
      obtain ⟨m, input, printed⟩ := result
      obtain ⟨hreads', hhistory, hnew, hinput, hprinted'⟩ := (hagree : KeyAgrees _ _ _)
      dsimp only at hreads' hhistory hnew hinput hprinted' ⊢
      cases hn : read.newline with
      | false =>
        rw [hn] at hnew
        rw [hnew, if_neg Bool.false_ne_true, if_neg Bool.false_ne_true]
        refine ⟨_, rfl, hworld, hinput, ?_, h.running, fun _ => ⟨hreads', hnew⟩⟩
        show s.printed ++ printed = _
        rw [hprinted, hprinted']
      | true =>
        rw [hn] at hnew
        have helem' : m.history.MayAllocate elem := by
          rw [hhistory hnew]
          exact helem
        obtain ⟨history, buf, line, hexecute, hserve, hinit, hprompt⟩ :=
          enter_shows env search hasc hreads' helem' p.world
        rw [hnew, if_pos rfl, if_pos rfl, hexecute, Option.bind_eq_bind, Option.bind_some]
        dsimp only
        rw [hworld, hserve, Option.bind_eq_bind, Option.bind_some, hreads'.carriageReturn, hprinted, hprinted', hinput]
        dsimp only
        cases serveText env commands (read.nav.entered elem.isSome).commands read.nav.text.all p.world with
        | again out world =>
          dsimp only
          rw [hinit, Option.bind_eq_bind, Option.bind_some]
          exact ⟨_, rfl, rfl, rfl, rfl, h.running, fun _ => ⟨hprompt, rfl⟩⟩
        | left => exact ⟨_, rfl, rfl, rfl, rfl, rfl, nofun⟩
        | ended out world => exact ⟨_, rfl, rfl, rfl, rfl, rfl, nofun⟩

/-- What a started shell works with. -/
theorem mlShellStart_ok {c : ComparisonSort} {registered : List (List UInt8 × List UInt8 × Callback γ)}
    (hstart : mlShellStart c (registerAll mlShellInit registered) = .ok commands)
    (hnames : ∀ r ∈ registered, NulFree r.1) :
    Ascending Command.key commands ∧ ∀ command ∈ commands, NulFree command.name := by
  unfold mlShellStart at hstart
  rw [compareQsort_eq] at hstart
  rcases sortList_unique c Command.key _ (registerAll mlShellInit registered) with ⟨table, hok, hperm, hasc⟩ | ⟨_, _, herror, _⟩
  · obtain rfl : table = commands := Except.ok.inj (hok.symm.trans hstart)
    refine ⟨hasc, fun command hmem => ?_⟩
    rw [hperm.mem_iff, registerAll_eq, mlShellInit, registerAll_eq, List.nil_append, List.map_map, List.mem_append] at hmem
    rcases hmem with hmem | hmem
    · obtain ⟨r, hr, rfl⟩ := List.mem_map.mp hmem
      have hall : ∀ r ∈ builtIns, NulFree (bytesOf r.1) := by decide +kernel
      exact hall r hr
    · obtain ⟨r, hr, rfl⟩ := List.mem_map.mp hmem
      exact hnames r hr
  · cases herror.symm.trans hstart

omit [DecidableEq ι] in
theorem sessionStart_shows {m : ShellModule ι} (hhistory : m.history.line.buf.length = 256) (hline : m.line.buf.length = 256)
    (hpattern : m.pattern.buf.length = 256) (hmatched : m.matched.buf.length = 256) (world : σ) (input : List UInt8) :
    ∃ s, sessionStart m world input = some s ∧ s.Shows (Prompt.start world input) := by
  obtain ⟨shell, hinit, hrefines⟩ := @shellInit_refines _ m.toShell hhistory hline
  refine ⟨_, by unfold sessionStart; rw [hinit]; rfl, rfl, rfl, rfl, rfl, fun _ => ⟨⟨hrefines, ?_, rfl, hpattern, hmatched⟩, rfl⟩⟩
  exact fun _ hc => absurd hc List.not_mem_nil

theorem run_shows (hasc : Ascending Command.key commands) (hnames : ∀ command ∈ commands, NulFree command.name)
    {m : ShellModule ι} (hhistory : m.history.line.buf.length = 256) (hline : m.line.buf.length = 256)
    (hpattern : m.pattern.buf.length = 256) (hmatched : m.matched.buf.length = 256) {world : σ} {input : List UInt8}
    {tr : List (Option ι)} {s : Option (ShellState ι σ)}
    (hr : ((sessionSystem env search commands m world input).restrict UsualKeys).Run tr s) :
    ∃ st, s = some st ∧ st.Shows (prompted env commands world input (tr.map Option.isSome)) := by
  refine hr.invariantOn (fun tr s => ∃ st, s = some st ∧ st.Shows (prompted env commands world input (tr.map Option.isSome)))
    ?_ ?_
  · exact sessionStart_shows hhistory hline hpattern hmatched world input
  · rintro tr s elem - ⟨st, rfl, hshows⟩ ⟨henabled, husual⟩
    obtain ⟨hrunning, hmalloc⟩ := henabled st rfl
    obtain ⟨st', hstep, hshows'⟩ := shellIteration_shows env search hasc hnames hshows hrunning (husual st rfl) hmalloc
    refine ⟨st', hstep, ?_⟩
    unfold prompted
    rw [List.map_append, List.foldl_append]
    exact hshows'

/-- **A session** of a started shell is one of the interpreter. -/
theorem session_refines (c : ComparisonSort) (search : SortSearch (List UInt8) (Command γ)) (env : Environment γ σ)
    (registered : List (List UInt8 × List UInt8 × Callback γ))
    (hstart : mlShellStart c (registerAll mlShellInit registered) = .ok commands) (hnames : ∀ r ∈ registered, NulFree r.1)
    (m : ShellModule ι) (hhistory : m.history.line.buf.length = 256) (hline : m.line.buf.length = 256)
    (hpattern : m.pattern.buf.length = 256) (hmatched : m.matched.buf.length = 256) (world : σ) (input : List UInt8)
    {tr : List (Option ι)} {s : Option (ShellState ι σ)}
    (hr : ((sessionSystem env search commands m world input).restrict UsualKeys).Run tr s) :
    ∃ st, s = some st ∧ st.Shows (prompted env commands world input (tr.map Option.isSome)) := by
  obtain ⟨hasc, hnulFree⟩ := mlShellStart_ok hstart hnames
  exact run_shows hasc hnulFree hhistory hline hpattern hmatched hr

end

/-! ## Typed command lines -/

section

variable {γ σ : Type} {env : Environment γ σ} {commands : List (Command γ)} {p : Prompt σ} {u rest : List UInt8} {world : σ}

/-- What is typed for command lines. -/
def typedLines (lines : List (List (List UInt8))) : List UInt8 := lines.flatMap fun args => commandLine args ++ [0x0a]

/-- The arguments can be typed: no byte is a control key, and the line is not longer than the buffer. -/
structure Typable (args : List (List UInt8)) : Prop where
  ne_nil : args ≠ []
  length : args.length ≤ 32
  nulFree : ∀ arg ∈ args, NulFree arg
  backslash : ∀ arg ∈ args, arg.getLast? ≠ some 0x5c
  keys : ∀ arg ∈ args, ∀ ch ∈ handledBytes, ch ∉ arg
  fits : (commandLine args).length ≤ 255

def Called.world? : Called σ → Option σ
  | .returned _ _ world => some world
  | .ended _ _ => none

/-- What the command with the arguments does to the world; `none` if the process is over. -/
def callWorld (env : Environment γ σ) (commands : List (Command γ)) (args : List (List UInt8)) (world : σ) : Option σ :=
  match args with
  | [] => some world
  | name :: args =>
    match commands.find? (·.name = name) with
    | none => some world
    | some command => (command.call env commands [] (name :: args) world).world?

/-- Command after command. -/
def callAll (env : Environment γ σ) (commands : List (Command γ)) (lines : List (List (List UInt8))) (world : σ) : Option σ :=
  lines.foldlM (fun world args => callWorld env commands args world) world

/-- The text `u` is typed, with the cursor behind it. -/
structure Prompt.At (p : Prompt σ) (u input : List UInt8) (world : σ) : Prop where
  text : p.nav.text = ⟨u, []⟩
  input : p.input = input
  world : p.world = world
  running : p.running = true

theorem Prompt.At.next_char (h : p.At u (ch :: rest) world) (hch : ch ∉ handledBytes) (hroom : u.length < 255)
    (stored : Bool) : (p.next env commands stored).At (u ++ [ch]) rest world := by
  have hkey := readKey_bytes (.other ch) (fun ch' hch' heq => hch (EditKey.other.inj heq ▸ hch')) rest
  have hedit : p.nav.text.edit (.other ch) = ⟨u ++ [ch], []⟩ := by
    have hnot : ¬p.nav.text.all.length = 255 := by
      rw [h.text, Text.all, List.append_nil]
      exact Nat.ne_of_lt hroom
    rw [show p.nav.text.edit (.other ch) = if p.nav.text.all.length = 255 then p.nav.text
      else ⟨p.nav.text.before ++ [ch], p.nav.text.after⟩ from rfl, if_neg hnot, h.text]
  have hread : readText (commands.map Command.name) p.nav p.carriageReturn p.input = .ok ⟨{ p.nav with text := ⟨u ++ [ch], []⟩ },
      p.carriageReturn, false, rest, [] ++ render p.nav.text ⟨u ++ [ch], []⟩⟩ := by
    unfold readText
    rw [h.input, show ch :: rest = EditKey.bytes (.other ch) ++ rest from rfl, hkey]
    dsimp only
    rw [hedit]
  unfold Prompt.next
  rw [hread]
  exact ⟨rfl, rfl, h.world, h.running⟩

/-- The history is only printed. -/
theorem call_world? (command : Command γ) (entries : List (List UInt8)) (args : List (List UInt8)) (world : σ) :
    (command.call env commands entries args world).world? = (command.call env commands [] args world).world? := by
  unfold Command.call
  cases command.callback with
  | other f => rfl
  | builtIn b => cases b <;> rfl

theorem tokenize_commandLine {args : List (List UInt8)} (h : Typable args) : tokenize (commandLine args) = some args := by
  obtain ⟨⟨tail, htail⟩, -⟩ := commandLine_ends h.ne_nil
  unfold tokenize
  rw [strip_commandLine, if_neg (by rw [htail]; exact List.cons_ne_nil _ _), readArguments_commandLine h.backslash,
    Option.filter_some, if_pos (by simpa using h.length)]

/-- A command line starts with a quote, so it is executed. -/
theorem serveText_commandLine {args : List (List UInt8)} (h : Typable args) (entries : List (List UInt8)) {world' : σ}
    (hcall : callWorld env commands args world = some world') :
    ∃ out, serveText env commands entries (commandLine args) world = .again out world' := by
  obtain ⟨⟨tail, htail⟩, -⟩ := commandLine_ends h.ne_nil
  have hhead : (commandLine args).head? = some 0x22 := by rw [htail]; rfl
  have hcomment : ¬(commandLine args).head? = some 0x23 := by
    rw [hhead]
    decide
  have hexit : ¬commandLine args = bytesOf "exit" := by
    intro heq
    rw [heq] at hhead
    exact absurd hhead (by decide)
  obtain ⟨name, rest, rfl⟩ := List.exists_cons_of_ne_nil h.ne_nil
  unfold serveText
  rw [strip_commandLine, if_neg (by rw [htail]; exact List.cons_ne_nil _ _), if_neg hcomment, if_neg hexit]
  unfold callWorld at hcall
  unfold executeText
  rw [tokenize_commandLine h]
  dsimp only at hcall ⊢
  cases hfind : commands.find? fun command => command.name = name with
  | none =>
    rw [hfind] at hcall
    obtain rfl := Option.some_inj.mp hcall
    exact ⟨_, rfl⟩
  | some command =>
    rw [hfind] at hcall
    dsimp only at hcall ⊢
    rw [← call_world? command entries] at hcall
    cases hcalled : command.call env commands entries (name :: rest) world with
    | ended _ _ =>
      rw [hcalled] at hcall
      cases hcall
    | returned res printed world'' =>
      rw [hcalled] at hcall
      obtain rfl := Option.some_inj.mp hcall
      exact ⟨_, rfl⟩

/-- **Enter** behind a command line calls the command. -/
theorem Prompt.At.next_enter {args : List (List UInt8)} (h : p.At (commandLine args) (0x0a :: rest) world) (hargs : Typable args)
    {world' : σ} (hcall : callWorld env commands args world = some world') (stored : Bool) :
    (p.next env commands stored).At [] rest world' := by
  have hread : readText (commands.map Command.name) p.nav p.carriageReturn p.input =
      .ok ⟨p.nav, p.carriageReturn, true, rest, render p.nav.text p.nav.text⟩ := by
    unfold readText
    rw [h.input]
    rfl
  obtain ⟨out, hserve⟩ := @serveText_commandLine _ _ env _ _ _ hargs (p.nav.entered stored).commands _ hcall
  have hall : p.nav.text.all = commandLine args := by rw [h.text, Text.all, List.append_nil]
  unfold Prompt.next
  rw [hread]
  dsimp only
  rw [if_pos rfl, hall, h.world, hserve]
  exact ⟨rfl, rfl, rfl, h.running⟩

/-- Characters that are typed one behind the other. -/
theorem Prompt.At.next_chars {chars : List UInt8} (h : p.At u (chars ++ rest) world) (hchars : ∀ ch ∈ handledBytes, ch ∉ chars)
    (hfits : u.length + chars.length ≤ 255) (stored : List Bool) (hlen : stored.length ≤ chars.length) :
    (stored.foldl (Prompt.next env commands) p).At (u ++ chars.take stored.length) ((chars ++ rest).drop stored.length) world := by
  induction stored generalizing p u chars with
  | nil => rwa [List.length_nil, List.take_zero, List.append_nil, List.drop_zero]
  | cons b stored ih =>
    obtain ⟨ch, chars, rfl⟩ := List.exists_cons_of_length_pos (Nat.lt_of_lt_of_le (Nat.succ_pos _) hlen)
    simp only [List.length_cons] at hfits hlen
    have hch : ch ∉ handledBytes := fun hmem => hchars ch hmem List.mem_cons_self
    have hnext := @Prompt.At.next_char _ _ env commands _ _ _ _ _ h hch (by omega) b
    have hrest := ih hnext (fun c hc hmem => hchars c hc (List.mem_cons_of_mem _ hmem))
      (by simp only [List.length_append, List.length_singleton]; omega) (by omega)
    rw [List.foldl_cons, List.length_cons, List.take_succ_cons, List.cons_append, List.drop_succ_cons]
    rwa [List.append_assoc, List.singleton_append] at hrest

theorem escape_keys {s : List UInt8} {ch : UInt8} (hch : ch ∈ handledBytes) (hs : ch ∉ s) : ch ∉ escape s := by
  induction s with
  | nil => exact List.not_mem_nil
  | cons c s ih =>
    obtain ⟨hne, hs⟩ := not_or.mp (List.mem_cons.not.mp hs)
    have hquote : ch ≠ 0x22 ∧ ch ≠ 0x5c := by
      constructor <;>
      · rintro rfl
        exact absurd hch (by decide)
    unfold escape
    split <;> simp [hquote, hne, ih hs]

/-- Quotes and spaces are no control keys. -/
theorem commandLine_keys {args : List (List UInt8)} {ch : UInt8} (hch : ch ∈ handledBytes) (hargs : ∀ arg ∈ args, ch ∉ arg) :
    ch ∉ commandLine args := by
  have hquote : ch ≠ 0x22 ∧ ch ≠ 0x20 := by
    constructor <;>
    · rintro rfl
      exact absurd hch (by decide)
  induction args with
  | nil => exact List.not_mem_nil
  | cons arg args ih =>
    obtain ⟨harg, hargs⟩ := List.forall_mem_cons.mp hargs
    have hescape := escape_keys hch harg
    cases args with
    | nil => simp [commandLine, quote, hquote, hescape]
    | cons arg' args =>
      have hrest := ih hargs
      show ch ∉ quote arg ++ 0x20 :: commandLine (arg' :: args)
      simp [quote, hquote, hescape, hrest]

/-- **Lines that are typed**: after any number of keys, the commands of the lines that were entered have been called. -/
theorem prompted_lines {lines : List (List (List UInt8))} (hlines : ∀ args ∈ lines, Typable args)
    (h : p.At [] (typedLines lines) world) {world' : σ} (hcalls : callAll env commands lines world = some world')
    (stored : List Bool) (hlen : stored.length ≤ (typedLines lines).length) :
    ∃ u world'', (stored.foldl (Prompt.next env commands) p).At u ((typedLines lines).drop stored.length) world'' ∧
      callAll env commands (lines.take (((typedLines lines).take stored.length).count 0x0a)) world = some world'' := by
  induction lines generalizing p world stored with
  | nil =>
    obtain rfl := List.eq_nil_of_length_eq_zero (Nat.le_zero.mp hlen)
    exact ⟨[], world, h, rfl⟩
  | cons args lines ih =>
    obtain ⟨hargs, hlines⟩ := List.forall_mem_cons.mp hlines
    have hkeys (ch : UInt8) (hch : ch ∈ handledBytes) : ch ∉ commandLine args :=
      commandLine_keys hch fun arg harg => hargs.keys arg harg ch hch
    have htyped : typedLines (args :: lines) = commandLine args ++ 0x0a :: typedLines lines := by
      unfold typedLines
      rw [List.flatMap_cons, List.append_assoc]
      rfl
    obtain ⟨world₁, hcall, hcalls'⟩ := Option.bind_eq_some_iff.mp hcalls
    replace hcall : callWorld env commands args world = some world₁ := hcall
    rw [htyped] at h hlen ⊢
    have hnewline : (commandLine args).count 0x0a = 0 := List.count_eq_zero.mpr (hkeys 0x0a (by decide))
    by_cases hshort : stored.length ≤ (commandLine args).length
    · -- the first line is not entered yet
      refine ⟨_, world, h.next_chars hkeys (by simpa using hargs.fits) stored hshort, ?_⟩
      have hcount : ((commandLine args).take stored.length).count 0x0a = 0 :=
        Nat.le_zero.mp (hnewline ▸ (List.take_sublist _ _).count_le _)
      rw [List.take_append_of_le_length hshort, hcount]
      rfl
    · have hfirst := @Prompt.At.next_chars _ _ env commands _ _ _ _ _ h hkeys
        (by simpa using hargs.fits) (stored.take (commandLine args).length) (by rw [List.length_take]; omega)
      have hlen₁ : (stored.take (commandLine args).length).length = (commandLine args).length := by
        rw [List.length_take]
        omega
      rw [hlen₁, List.take_length, List.drop_left, List.nil_append] at hfirst
      obtain ⟨b, stored₂, hdrop⟩ := List.exists_cons_of_length_pos (l := stored.drop (commandLine args).length)
        (by rw [List.length_drop]; omega)
      have hsplit : stored = stored.take (commandLine args).length ++ b :: stored₂ := by
        rw [← hdrop, List.take_append_drop]
      have hlength := congrArg List.length hsplit
      rw [List.length_append, hlen₁, List.length_cons] at hlength
      have henter := hfirst.next_enter hargs hcall b
      simp only [List.length_append, List.length_cons] at hlen
      obtain ⟨u, world'', hat, hcalls''⟩ := ih hlines henter hcalls' stored₂ (by omega)
      have htake : (commandLine args ++ 0x0a :: typedLines lines).take stored.length =
          commandLine args ++ 0x0a :: (typedLines lines).take stored₂.length := by
        rw [hlength, List.take_length_add_append, List.take_succ_cons]
      have hrest : (commandLine args ++ 0x0a :: typedLines lines).drop stored.length =
          (typedLines lines).drop stored₂.length := by
        rw [hlength, List.drop_length_add_append, List.drop_succ_cons]
      refine ⟨u, world'', ?_, ?_⟩
      · rw [hrest, hsplit, List.foldl_append, List.foldl_cons]
        exact hat
      · rw [htake, List.count_append, hnewline, Nat.zero_add, List.count_cons_self, List.take_succ_cons]
        show (callWorld env commands args world).bind _ = _
        rw [hcall]
        exact hcalls''

theorem typedLines_keys {lines : List (List (List UInt8))} (hlines : ∀ args ∈ lines, Typable args) :
    ∀ ch ∈ typedLines lines, ch ≠ 0 ∧ (ch ∈ handledBytes → ch = 0x0a) := by
  intro ch hmem
  obtain ⟨args, hargs, hmem⟩ := List.mem_flatMap.mp hmem
  have h := hlines args hargs
  rcases List.mem_append.mp hmem with hmem | hmem
  · exact ⟨commandLine_nulFree h.nulFree ch hmem,
      fun hch => absurd hmem (commandLine_keys hch fun arg harg => h.keys arg harg ch hch)⟩
  · obtain rfl := List.mem_singleton.mp hmem
    exact ⟨by decide, fun _ => rfl⟩

end

section

variable {ι γ σ : Type} [DecidableEq ι] {commands : List (Command γ)}

omit [DecidableEq ι] in
theorem ShellModule.usual_of_keys (m : ShellModule ι) {input : List UInt8}
    (h : ∀ ch ∈ input, ch ≠ 0 ∧ (ch ∈ handledBytes → ch = 0x0a)) : m.Usual input := by
  unfold ShellModule.Usual
  cases input with
  | nil => trivial
  | cons ch input =>
    obtain ⟨hne, hkey⟩ := h ch List.mem_cons_self
    by_cases hch : ch ∈ handledBytes
    · obtain rfl := hkey hch
      trivial
    · have hread := readKey_bytes (.other ch) (fun ch' hch' heq => hch (EditKey.other.inj heq ▸ hch')) input
      rw [show ch :: input = EditKey.bytes (.other ch) ++ input from rfl, hread]
      exact fun heq => hne (EditKey.other.inj heq)

end

/-! ## A command that records its arguments -/

/-- The world is what has been called. -/
def recording : Environment Unit (List (List (List UInt8))) where
  system _ args world := .returned 0 [] (world ++ [args])
  other _ args world := .returned 0 [] (world ++ [args])
  strerror _ := []

def sayCommand : List (List UInt8 × List UInt8 × Callback Unit) := [(bytesOf "say", bytesOf "Say it.", .other ())]

def sayTable : List (Command Unit) :=
  match mlShellStart ComparisonSort.insertion (registerAll mlShellInit sayCommand) with
  | .ok table => table
  | .error _ => []

theorem sayTable_started : mlShellStart ComparisonSort.insertion (registerAll mlShellInit sayCommand) = .ok sayTable := by
  have hok : (mlShellStart ComparisonSort.insertion (registerAll mlShellInit sayCommand)).isOk = true := by decide +kernel
  unfold sayTable
  cases h : mlShellStart ComparisonSort.insertion (registerAll mlShellInit sayCommand) with
  | ok table => rfl
  | error _ =>
    rw [h] at hok
    cases hok

def bootModule : ShellModule ℕ where
  toShell := bootShell
  prevLine := typedLine []
  carriageReturnReceived := false
  newlineReceived := false
  pattern := typedLine []
  matched := typedLine []

def sayLines : List (List (List UInt8)) := [[bytesOf "say", bytesOf "a b"]]

abbrev saySession (input : List UInt8) : System (Option (ShellState ℕ (List (List (List UInt8))))) (Option ℕ) :=
  sessionSystem recording (SortSearch.simple _ _) sayTable bootModule [] input

instance {ι γ σ : Type} [DecidableEq ι] (env : Environment γ σ) (search : SortSearch (List UInt8) (Command γ))
    (commands : List (Command γ)) (m : ShellModule ι) (world : σ) (input : List UInt8) (s : Option (ShellState ι σ))
    (elem : Option ι) : Decidable ((sessionSystem env search commands m world input).enabled s elem) :=
  inferInstanceAs (Decidable (∀ st ∈ s, _ ∧ _))

instance {ι σ : Type} (s : Option (ShellState ι σ)) (elem : Option ι) : Decidable (UsualKeys s elem) :=
  inferInstanceAs (Decidable (∀ st ∈ s, st.module.Usual st.input))

/-- `l`, TAB, UP and a comment behind it: Ctrl-A, `#` and Enter. -/
def commentInput : List UInt8 := [0x6c, 9, 27, 0x5b, 0x41, 1, 0x23, 0x0a]

theorem session_refines_comment : ∃ st, (List.replicate 6 (some 0)).foldl (saySession commentInput).next
    (saySession commentInput).start = some st ∧ st.running = true ∧ st.input = [] ∧ st.world = [] := by
  have hsize : (typedLine []).buf.length = 256 := (typedLine_holds NulFree.nil (Nat.zero_le _)).size
  have hrun : ((saySession commentInput).restrict UsualKeys).Run (List.replicate 6 (some 0))
      ((List.replicate 6 (some 0)).foldl (saySession commentInput).next (saySession commentInput).start) :=
    (System.path_of_runs (by decide +kernel)).run
  obtain ⟨st, hst, hshows⟩ := session_refines ComparisonSort.insertion (SortSearch.simple _ _) recording sayCommand
    sayTable_started (by decide) bootModule hsize hsize hsize hsize [] commentInput hrun
  refine ⟨st, hst, hshows.running.trans ?_, hshows.input.trans ?_, hshows.world.trans ?_⟩
  all_goals decide +kernel

end Monolinux
