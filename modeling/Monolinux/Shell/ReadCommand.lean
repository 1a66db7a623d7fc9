import Monolinux.Shell.Complete
import Monolinux.Shell.Navigation
import Monolinux.Shell.Search

/-!
# Reading a command

`readCommandKey` is one iteration of the loop of `read_command`, for any key: what it reads
from stdin, what it does to the line and the history, and what it prints.  `readText` is the
same on the navigator and its text.

* `autoCompleteCommand_at_end`: TAB behind the line;
* `searchLoopPrinting_eq`: Ctrl-R, with all that it prints;
* `readCommandKey_refines`: a key reads, does and prints the same in both, if TAB is not
  pressed inside the line, DOWN not with a line left over, and no NUL is typed.
-/

namespace Monolinux

/-- `xgetc` prints it before `exit(1)`. -/
def inputError : List UInt8 := bytesOf "error: shell input error"

/-- `"\x1b[K"`. -/
def eraseLine : List UInt8 := [0x1b, 0x5b, 0x4b]

section

variable {ι : Type} [DecidableEq ι]

/-! ## The source -/

omit [DecidableEq ι] in
/-- The rest of `module`, but for the table of commands. -/
structure ShellModule (ι : Type) extends Shell ι where
  prevLine : Line
  carriageReturnReceived : Bool
  newlineReceived : Bool
  /-- `history.pattern` and `history.match` -/
  pattern : Line
  matched : Line

def restorePreviousLine (pattern prevLine : Line) : Option (List UInt8) := do
  let buf ← cstr prevLine.buf 0
  return controlSequence (17 + pattern.length) 0x44 ++ eraseLine ++ buf ++
    if prevLine.cursor ≠ prevLine.length then controlSequence (prevLine.length - prevLine.cursor) 0x44 else []

omit [DecidableEq ι] in
/-- `"%s\x1b[%dD"`, of the match. -/
def matchPrinted (matched : Line) : Option (List UInt8) := do
  let buf ← cstr matched.buf 0
  return buf ++ controlSequence (matched.length + 3) 0x44

omit [DecidableEq ι] in
/-- The loop of `handle_ctrl_r`, with what is printed.  At the end of the input the program exits (`error`). -/
def searchLoopPrinting (h : History ι) (line prevLine : Line) : (pattern matched : Line) → (carriageReturn : Bool) →
    (printed : List UInt8) → List UInt8 → Option (Except (List UInt8) (Searched × List UInt8))
  | _, _, _, printed, [] => some (.error (printed ++ inputError))
  | pattern, matched, carriageReturn, printed, ch :: input =>
    if ch = 127 ∨ ch = 8 then
      if pattern.length = 0 then searchLoopPrinting h line prevLine pattern matched carriageReturn printed input
      else do
        let pattern ← lineDelete (lineSeek pattern (-1)).1
        let matched ← updateMatch h pattern matched
        let found ← matchPrinted matched
        searchLoopPrinting h line prevLine pattern matched carriageReturn
          (printed ++ [0x1b, 0x5b, 0x31, 0x44] ++ eraseLine ++ bytesOf "': " ++ found) input
    else if ch = 13 then searchLoopPrinting h line prevLine pattern matched true printed input
    else if ch = 7 then do
      let restored ← restorePreviousLine pattern prevLine
      return .ok (⟨line, pattern, matched, carriageReturn, false, input⟩, printed ++ restored)
    else if Terminal.isPrintable ch then do
      let (pattern, inserted) ← lineInsert pattern ch
      if inserted then do
        let matched ← updateMatch h pattern matched
        let found ← matchPrinted matched
        searchLoopPrinting h line prevLine pattern matched carriageReturn
          (printed ++ eraseLine ++ [ch] ++ bytesOf "': " ++ found) input
      else searchLoopPrinting h line prevLine pattern matched carriageReturn printed input
    else do
      let restored ← restorePreviousLine pattern prevLine
      -- Copy the match to current line.
      let leave (newline : Bool) (input : List UInt8) : Option (Except (List UInt8) (Searched × List UInt8)) :=
        some (.ok (⟨matched, pattern, matched, carriageReturn, newline, input⟩, printed ++ restored))
      if ch = 10 then leave true input
      else if ch = 27 then
        match input with
        | [] => some (.error (printed ++ restored ++ inputError))
        | 0x64 :: input => leave false input -- d
        | _ :: [] => some (.error (printed ++ restored ++ inputError))
        | _ :: _ :: input => leave false input
      else leave false input

omit [DecidableEq ι] in
/-- `handleCtrlR`, with what is printed. -/
def handleCtrlRPrinting (m : ShellModule ι) (input : List UInt8) :
    Option (Except (List UInt8) (Searched × List UInt8)) := do
  let pattern ← lineInit m.pattern
  let matched ← lineInit m.matched
  let back := if m.line.length ≠ 0 then controlSequence m.line.length 0x44 else []
  searchLoopPrinting m.history m.line m.prevLine pattern matched m.carriageReturnReceived
    (back ++ eraseLine ++ bytesOf "(history-search)\x60': " ++ [0x1b, 0x5b, 0x33, 0x44]) input

omit [DecidableEq ι] in
/-- `show_line` behind what the handler has printed. -/
def shownAfter (m : ShellModule ι) (input printed : List UInt8) :
    Option (Except (List UInt8) (ShellModule ι × List UInt8 × List UInt8)) := do
  let shown ← showLine m.prevLine m.line
  return .ok (m, input, printed ++ shown)

/-- One iteration of `read_command`: `module`, the rest of the input, and what is printed. -/
def readCommandKey (names : List (List UInt8)) (m : ShellModule ι) (input : List UInt8) :
    Option (Except (List UInt8) (ShellModule ι × List UInt8 × List UInt8)) :=
  match readKey input with
  | none => some (.error inputError)
  | some (key, input) => do
    -- Save current line.
    let m := { m with prevLine := m.line }
    match key with
    | .edit key => do
      let line ← key.handle m.line
      shownAfter { m with line } input []
    | .tab => do
      let (line, printed) ← autoCompleteCommand names m.line
      shownAfter { m with line } input printed
    | .carriageReturn => shownAfter { m with carriageReturnReceived := true } input []
    | .newline => shownAfter { m with newlineReceived := true } input []
    | .ctrlR => do
      match ← handleCtrlRPrinting m input with
      | .error printed => return .error printed
      | .ok (searched, printed) =>
        shownAfter { m with line := searched.line, pattern := searched.pattern, matched := searched.matched,
                             carriageReturnReceived := searched.carriageReturn, newlineReceived := searched.newline }
          searched.input printed
    | .up => do
      let shell ← ShellKey.up.handle m.toShell
      shownAfter { m with toShell := shell } input []
    | .down => do
      let shell ← ShellKey.down.handle m.toShell
      shownAfter { m with toShell := shell } input []
    | .unknown => shownAfter m input []

end

/-! ## On texts -/

/-- A line with the names that start with it is completed behind its end. -/
def tabText (names : List (List UInt8)) (t : List UInt8) : List UInt8 :=
  if startingWith names t = [] then t else completion names t

/-- The alternatives are printed if there is nothing to complete. -/
def tabPrinted (names : List (List UInt8)) (t : List UInt8) : List UInt8 :=
  if (startingWith names t).length ≤ 1 ∨ t.length < (longestCommonPrefix (startingWith names t)).length then []
  else 0x0a :: (startingWith names t).flatMap (· ++ [0x0a]) ++ prompt ++ t

/-- What a search leaves. -/
structure SearchedText where
  text : Text
  carriageReturn : Bool
  newline : Bool
  input : List UInt8
  deriving DecidableEq, Repr

def restoredPrinted (pattern : List UInt8) (prev : Text) : List UInt8 :=
  controlSequence (17 + pattern.length) 0x44 ++ eraseLine ++ prev.all ++
    if prev.after ≠ [] then controlSequence prev.after.length 0x44 else []

def foundPrinted (found : List UInt8) : List UInt8 := found ++ controlSequence (found.length + 3) 0x44

/-- A search in the commands, from the pattern and the match on. -/
def searchText (commands : List (List UInt8)) (text : Text) : (pattern matched : List UInt8) → (carriageReturn : Bool) →
    (printed : List UInt8) → List UInt8 → Except (List UInt8) (SearchedText × List UInt8)
  | _, _, _, printed, [] => .error (printed ++ inputError)
  | pattern, matched, carriageReturn, printed, ch :: input =>
    if ch = 127 ∨ ch = 8 then
      if pattern = [] then searchText commands text pattern matched carriageReturn printed input
      else searchText commands text pattern.dropLast (newest commands pattern.dropLast) carriageReturn
        (printed ++ [0x1b, 0x5b, 0x31, 0x44] ++ eraseLine ++ bytesOf "': " ++
          foundPrinted (newest commands pattern.dropLast)) input
    else if ch = 13 then searchText commands text pattern matched true printed input
    else if ch = 7 then
      .ok (⟨text, carriageReturn, false, input⟩, printed ++ restoredPrinted pattern text)
    else if Terminal.isPrintable ch then
      if pattern.length = 255 then searchText commands text pattern matched carriageReturn printed input
      else searchText commands text (pattern ++ [ch]) (newest commands (pattern ++ [ch])) carriageReturn
        (printed ++ eraseLine ++ [ch] ++ bytesOf "': " ++ foundPrinted (newest commands (pattern ++ [ch]))) input
    else
      let leave (newline : Bool) (input : List UInt8) : Except (List UInt8) (SearchedText × List UInt8) :=
        .ok (⟨asText matched, carriageReturn, newline, input⟩, printed ++ restoredPrinted pattern text)
      if ch = 10 then leave true input
      else if ch = 27 then
        match input with
        | [] => .error (printed ++ restoredPrinted pattern text ++ inputError)
        | 0x64 :: input => leave false input
        | _ :: [] => .error (printed ++ restoredPrinted pattern text ++ inputError)
        | _ :: _ :: input => leave false input
      else leave false input

def searchPrinted (text : Text) : List UInt8 :=
  (if text.all ≠ [] then controlSequence text.all.length 0x44 else []) ++ eraseLine ++ bytesOf "(history-search)\x60': " ++
    [0x1b, 0x5b, 0x33, 0x44]

/-- What a key leaves. -/
structure TextRead where
  nav : Navigator Text
  carriageReturn : Bool
  newline : Bool
  input : List UInt8
  printed : List UInt8

/-- The remembered commands. -/
def Navigator.commands (nav : Navigator Text) : List (List UInt8) := (nav.older ++ nav.newer).map Text.all

def readText (names : List (List UInt8)) (nav : Navigator Text) (carriageReturn : Bool) (input : List UInt8) :
    Except (List UInt8) TextRead :=
  match readKey input with
  | none => .error inputError
  | some (key, input) =>
    let done (nav' : Navigator Text) (printed : List UInt8) : Except (List UInt8) TextRead :=
      .ok ⟨nav', carriageReturn, false, input, printed ++ render nav.text nav'.text⟩
    match key with
    | .edit key => done { nav with text := nav.text.edit key } []
    | .tab => done { nav with text := asText (tabText names nav.text.all) } (tabPrinted names nav.text.all)
    | .carriageReturn => .ok ⟨nav, true, false, input, render nav.text nav.text⟩
    | .newline => .ok ⟨nav, carriageReturn, true, input, render nav.text nav.text⟩
    | .ctrlR =>
      match searchText nav.commands nav.text [] [] carriageReturn (searchPrinted nav.text) input with
      | .error printed => .error printed
      | .ok (searched, printed) =>
        .ok ⟨{ nav with text := searched.text }, searched.carriageReturn, searched.newline, searched.input,
          printed ++ render nav.text searched.text⟩
    | .up => done (nav.up recalled) []
    | .down => done (nav.down recalled) []
    | .unknown => done nav []

/-! ## TAB -/

section Tab

variable {names found : List (List UInt8)} {name t : List UInt8} {line line' : Line} {size fuel : ℕ} {completed : Bool}

/-- What was completed stays so. -/
theorem completeLoop_true (h : completeLoop name found fuel size line true = some (line', completed)) : completed = true := by
  induction fuel generalizing size line with
  | zero => cases h
  | succ fuel ih =>
    unfold completeLoop at h
    obtain ⟨nextChar, hnext, h⟩ := Option.bind_eq_some_iff.mp h
    obtain ⟨different, hdifferent, h⟩ := Option.bind_eq_some_iff.mp h
    cases different with
    | true =>
      cases h
      rfl
    | false =>
      rw [if_neg Bool.false_ne_true] at h
      split at h
      · obtain ⟨inserted, hinsert, h⟩ := Option.bind_eq_some_iff.mp h
        cases h
        rfl
      · obtain ⟨inserted, hinsert, h⟩ := Option.bind_eq_some_iff.mp h
        exact ih h

/-- Nothing is completed if the first character is a mismatch already. -/
theorem completeLoop_false (h : completeLoop name found (fuel + 1) size line false = some (line', completed))
    {different : Bool} (hdifferent : mismatch line.buf size (name[size]?.getD 0) found = some different)
    (hsize : size ≤ name.length) : completed = !different := by
  unfold completeLoop at h
  rw [load_name hsize, Option.bind_eq_bind, Option.bind_some, hdifferent, Option.bind_eq_bind, Option.bind_some] at h
  cases different with
  | true =>
    cases h
    rfl
  | false =>
    rw [if_neg Bool.false_ne_true] at h
    split at h
    · obtain ⟨inserted, hinsert, h⟩ := Option.bind_eq_some_iff.mp h
      cases h
      rfl
    · obtain ⟨inserted, hinsert, h⟩ := Option.bind_eq_some_iff.mp h
      exact completeLoop_true h

theorem alternatives_eq {junk : List UInt8} (ht : NulFree t) (hnames : ∀ name ∈ names, NulFree name) :
    alternatives (t ++ 0 :: junk) t.length names = some ((names.takeWhile (t <+: ·)).flatMap (· ++ [0x0a])) := by
  induction names with
  | nil => rfl
  | cons name names ih =>
    obtain ⟨hname, hnames⟩ := List.forall_mem_cons.mp hnames
    have hsame := strncmpZero_eq [] junk hname ht t.length
    rw [if_pos (Nat.le_refl _), List.take_of_length_le (Nat.le_refl _)] at hsame
    unfold alternatives
    rw [hsame, Option.bind_eq_bind, Option.bind_some]
    by_cases hprefix : t <+: name
    · have hscan : (name :: names).takeWhile (t <+: ·) = name :: names.takeWhile (t <+: ·) :=
        List.takeWhile_cons_of_pos (by simpa using hprefix)
      rw [if_pos (decide_eq_true hprefix), ih hnames, hscan, List.flatMap_cons, List.append_assoc]
      rfl
    · rw [if_neg (by simpa using hprefix), List.takeWhile_cons_of_neg (by simpa using hprefix)]
      rfl

/-- **TAB behind the line** completes it, or prints the alternatives. -/
theorem autoCompleteCommand_at_end (hsorted : names.Pairwise (· < ·)) (hnames : ∀ name ∈ names, NulFree name)
    (h : line.Holds ⟨t, []⟩) : ∃ line', autoCompleteCommand names line = some (line', tabPrinted names t) ∧
      line'.Holds ⟨tabText names t, []⟩ := by
  have hfits : t.length ≤ 255 := h.fits
  have hfree : NulFree t := by simpa [Text.all] using h.nulFree
  obtain ⟨junk, hbuf⟩ := h.buf
  dsimp only [List.nil_append] at hbuf
  have hlength : line.length.toNat = t.length := by
    rw [h.length_all]
    simp [Text.all]
  have hfirst := firstMatch_eq hbuf hfree line.length.toNat hnames
  simp only [hlength, Nat.le_refl, if_true, List.take_of_length_le (Nat.le_refl t.length)] at hfirst
  have hstarting := startingWith_dropWhile names t
  cases hdrop : names.dropWhile fun name => !decide (t <+: name) with
  | nil =>
    rw [hdrop] at hstarting
    rw [hdrop] at hfirst
    have hnone : startingWith names t = [] := hstarting.symm
    refine ⟨line, ?_, ?_⟩
    · unfold autoCompleteCommand tabPrinted
      dsimp only
      rw [hlength, hfirst, if_pos (.inl (by rw [hnone]; exact Nat.zero_le _))]
      rfl
    · unfold tabText
      rwa [if_pos hnone]
  | cons name rest =>
    have hsub : (name :: rest).Sublist names := by
      rw [← hdrop]
      exact List.dropWhile_sublist _
    have hmatch : t <+: name := by simpa using dropWhile_cons hdrop
    have hf : Found name rest t [] := ⟨hsorted.sublist hsub, fun n hn => hnames n (hsub.subset hn), by rwa [List.append_nil]⟩
    rw [hdrop] at hfirst hstarting
    have hnil : t ++ [] = t := List.append_nil t
    have hne : startingWith names t ≠ [] := by
      rw [← hstarting]
      exact List.ne_nil_of_mem (hnil ▸ hf.mem)
    obtain ⟨e, r, he, -, -⟩ := hf.exists_common
    have hstart : line.Holds ⟨t ++ ((name.drop (t ++ []).length).take 0).take (255 - (t ++ []).length), []⟩ := by
      rwa [List.take_zero, List.take_nil, List.append_nil]
    obtain ⟨line', completed, x, hloop, h', -⟩ := hf.completeLoop_eq he (by rw [hnil]; exact hmatch.length_le)
      (by omega : _ < name.length + 1) hstart false
    obtain ⟨different, hdifferent, hcases⟩ := hf.mismatch_cases (k := 0) (by rw [hnil]; exact hmatch.length_le) hstart
    simp only [hnil, Nat.add_zero] at hdifferent hloop hcases he
    have hcompleted := completeLoop_false hloop hdifferent hmatch.length_le
    -- the first character is a mismatch if several names start with the text and do not go on together
    have hend : different = true ↔
        ¬((startingWith names t).length ≤ 1 ∨ t.length < (longestCommonPrefix (startingWith names t)).length) := by
      have hpos := List.length_pos_iff.mpr hne
      rw [← hstarting] at hpos ⊢
      constructor
      · intro hd
        obtain ⟨hlen, hseveral⟩ := hcases hd
        omega
      · intro hnot
        have hlen := congrArg List.length he
        rw [List.length_append] at hlen
        obtain rfl : e = [] := List.eq_nil_of_length_eq_zero (by omega)
        have hmis := hf.mismatch_end (by rw [hnil]; exact he) (by rw [hnil]; omega) rfl
          (by rw [List.append_nil]; exact h)
        rw [hnil, List.length_nil, Nat.add_zero, hdifferent] at hmis
        exact Option.some_inj.mp hmis
    have htext : line'.text.all = tabText names t := by
      have hresult := autoCompleteCommand_of_loop hf.nulFree (hlength ▸ hfirst) (hlength ▸ hloop) h'
      obtain ⟨line'', hline'', -, -, hall, -⟩ := (hf.completes_iff (hnil ▸ hstarting.symm) (hlength ▸ hfirst) h).mpr
        ((List.append_nil _).trans (List.nil_append _).symm)
      obtain rfl := Option.some_inj.mp (hresult.symm.trans hline'')
      have hall' := hall (by rw [Text.all, hnil]; exact hne)
      rw [hall', Text.all, hnil]
      unfold tabText
      rw [if_neg hne]
    rw [h'.text_eq, Text.all, List.append_nil] at htext
    dsimp only at htext
    rw [htext] at h'
    refine ⟨line', ?_, h'⟩
    unfold autoCompleteCommand tabPrinted
    dsimp only
    rw [hlength, hfirst, Option.bind_eq_bind, Option.bind_some]
    dsimp only
    rw [hloop, Option.bind_eq_bind, Option.bind_some]
    dsimp only
    rw [hcompleted]
    cases different with
    | false =>
      rw [if_pos (Classical.not_not.mp fun hnot => Bool.false_ne_true (hend.mpr hnot))]
      rfl
    | true =>
      obtain rfl : line' = line := by
        unfold completeLoop at hloop
        rw [load_name hmatch.length_le, Option.bind_eq_bind, Option.bind_some, hdifferent] at hloop
        cases hloop
        rfl
      have hscan : (name :: rest).takeWhile (t <+: ·) = startingWith names t :=
        (takeWhile_prefix_eq_filter hf.sorted hmatch).trans hstarting
      have hcstr : cstr line'.buf 0 = some t := by
        have := h.cstr_eq (Nat.zero_le _)
        rwa [List.drop_zero, Text.all, hnil] at this
      rw [if_neg (hend.mp rfl), hcstr, hbuf, alternatives_eq hfree hf.nulFree, hscan]
      rfl

end Tab

/-! ## Ctrl-R -/

/-- The same error, or related values. -/
def Agree {ε α β : Type} (R : α → β → Prop) : Except ε α → Except ε β → Prop
  | .error e, .error e' => e = e'
  | .ok a, .ok b => R a b
  | _, _ => False

section Search

variable {ι : Type} {h : History ι} {l : List ι} {commands : List (List UInt8)} {p found : List UInt8} {text : Text}
  {line pattern matched : Line}

theorem Line.Holds.cstr_all (hline : line.Holds text) : cstr line.buf 0 = some text.all := hline.cstr_eq (Nat.zero_le _)

theorem restorePreviousLine_eq (hp : pattern.Holds ⟨p, []⟩) (hline : line.Holds text) :
    restorePreviousLine pattern line = some (restoredPrinted p text) := by
  have hlength : pattern.length = p.length := hp.length
  have hcursor : line.cursor ≠ line.length ↔ text.after ≠ [] := by
    rw [hline.cursor, hline.length, Ne, Ne, ← List.length_eq_zero_iff]
    omega
  have hback : line.length - line.cursor = text.after.length := by
    rw [hline.cursor, hline.length]
    omega
  unfold restorePreviousLine restoredPrinted
  rw [hline.cstr_all, hback, hlength]
  simp only [hcursor]
  rfl

theorem matchPrinted_eq (hm : matched.Holds ⟨found, []⟩) : matchPrinted matched = some (foundPrinted found) := by
  have hlength : matched.length = found.length := hm.length
  unfold matchPrinted foundPrinted
  rw [hm.cstr_all, hlength, Text.all, List.append_nil]
  rfl

/-- What is left behind. -/
structure SearchAgrees (result : Searched × List UInt8) (result' : SearchedText × List UInt8) : Prop where
  line : result.1.line.Holds result'.1.text
  pattern : result.1.pattern.buf.length = 256
  matched : result.1.matched.buf.length = 256
  carriageReturn : result.1.carriageReturn = result'.1.carriageReturn
  newline : result.1.newline = result'.1.newline
  input : result.1.input = result'.1.input
  printed : result.2 = result'.2

/-- **The search**, with any keys. -/
theorem searchLoopPrinting_eq (hh : h.Holds l commands) (hfits : Typed commands) (hline : line.Holds text)
    (hp : pattern.Holds ⟨p, []⟩) (hm : matched.Holds ⟨found, []⟩) (carriageReturn : Bool) (printed input : List UInt8) :
    ∃ result, searchLoopPrinting h line line pattern matched carriageReturn printed input = some result ∧
      Agree SearchAgrees result (searchText commands text p found carriageReturn printed input) := by
  induction input generalizing pattern matched p found carriageReturn printed with
  | nil => exact ⟨_, rfl, rfl⟩
  | cons ch input ih =>
    unfold searchLoopPrinting searchText
    by_cases hdelete : ch = 127 ∨ ch = 8
    · rw [if_pos hdelete, if_pos hdelete]
      rcases List.eq_nil_or_concat' p with rfl | ⟨q, c, rfl⟩
      · have hlength : pattern.length = 0 := hp.length
        rw [if_pos hlength, if_pos rfl]
        exact ih hp hm _ _
      · have hlength : ¬pattern.length = 0 := by
          rw [hp.length]
          simp
          omega
        obtain ⟨line₁, hseek, h₁⟩ := lineSeek_left hp
        obtain ⟨line₂, hdel, h₂⟩ := lineDelete_of_cons h₁
        obtain ⟨matched', hupdate, hm'⟩ := updateMatch_holds hh hfits h₂ hm
        rw [if_neg hlength, if_neg (by simp), hseek, hdel, Option.bind_eq_bind, Option.bind_some, hupdate,
          Option.bind_eq_bind, Option.bind_some, matchPrinted_eq hm', List.dropLast_concat]
        exact ih h₂ hm' _ _
    rw [if_neg hdelete, if_neg hdelete]
    by_cases hreturn : ch = 13
    · rw [if_pos hreturn, if_pos hreturn]
      exact ih hp hm _ _
    rw [if_neg hreturn, if_neg hreturn]
    have hrestore := restorePreviousLine_eq hp hline
    by_cases hescape : ch = 7
    · rw [if_pos hescape, if_pos hescape, hrestore]
      exact ⟨_, rfl, hline, hp.size, hm.size, rfl, rfl, rfl, rfl⟩
    rw [if_neg hescape, if_neg hescape]
    by_cases hprint : Terminal.isPrintable ch = true
    · rw [if_pos hprint, if_pos hprint]
      have hfitsPattern := hp.fits
      dsimp only [List.length_nil] at hfitsPattern
      by_cases hfull : p.length = 255
      · rw [if_pos hfull, lineInsert_of_full hp hfull]
        exact ih hp hm _ _
      · have hne0 : ch ≠ 0 := by
          rintro rfl
          exact absurd hprint (by decide)
        obtain ⟨line₁, hinsert, h₁⟩ := lineInsert_of_room hp (by rw [List.length_nil]; omega) hne0
        obtain ⟨matched', hupdate, hm'⟩ := updateMatch_holds hh hfits h₁ hm
        rw [if_neg hfull, hinsert, Option.bind_eq_bind, Option.bind_some]
        dsimp only
        rw [if_pos rfl, hupdate, Option.bind_eq_bind, Option.bind_some, matchPrinted_eq hm']
        exact ih h₁ hm' _ _
    rw [if_neg hprint, if_neg hprint, hrestore, Option.bind_eq_bind, Option.bind_some]
    dsimp only
    have hleave (newline : Bool) (rest : List UInt8) : ∃ result,
        (some (.ok (⟨matched, pattern, matched, carriageReturn, newline, rest⟩, printed ++ restoredPrinted p text)) :
          Option (Except (List UInt8) (Searched × List UInt8))) = some result ∧ Agree SearchAgrees result
        (.ok (⟨asText found, carriageReturn, newline, rest⟩, printed ++ restoredPrinted p text)) :=
      ⟨_, rfl, hm, hp.size, hm.size, rfl, rfl, rfl, rfl⟩
    by_cases henter : ch = 10
    · rw [if_pos henter, if_pos henter]
      exact hleave true input
    rw [if_neg henter, if_neg henter]
    by_cases halt : ch = 27
    · rw [if_pos halt, if_pos halt]
      match input with
      | [] => exact ⟨_, rfl, rfl⟩
      | c :: rest =>
        by_cases hd : c = 0x64
        · subst hd
          exact hleave false rest
        · match rest with
          | [] =>
            simp only
            exact ⟨_, rfl, rfl⟩
          | c' :: rest =>
            simp only
            exact hleave false rest
    · rw [if_neg halt, if_neg halt]
      exact hleave false input

/-- **Ctrl-R.** -/
theorem handleCtrlRPrinting_eq {m : ShellModule ι} (hh : m.history.Holds l commands) (hfits : Typed commands)
    (hline : m.line.Holds text) (hprev : m.prevLine = m.line) (hpattern : m.pattern.buf.length = 256)
    (hmatched : m.matched.buf.length = 256) (input : List UInt8) :
    ∃ result, handleCtrlRPrinting m input = some result ∧
      Agree SearchAgrees result (searchText commands text [] [] m.carriageReturnReceived (searchPrinted text) input) := by
  obtain ⟨pattern, hinit, hp⟩ := lineInit_holds hpattern
  obtain ⟨matched, hinit', hm⟩ := lineInit_holds hmatched
  have hlength := hline.length_all
  have hempty : m.line.length ≠ 0 ↔ text.all ≠ [] := by
    rw [hlength, Ne, Ne, ← List.length_eq_zero_iff]
    omega
  have hstart : (if m.line.length ≠ 0 then controlSequence m.line.length 0x44 else []) ++ eraseLine ++
      bytesOf "(history-search)\x60': " ++ [0x1b, 0x5b, 0x33, 0x44] = searchPrinted text := by
    unfold searchPrinted
    rw [hlength] at hempty ⊢
    simp only [hempty]
  unfold handleCtrlRPrinting
  rw [hinit, Option.bind_eq_bind, Option.bind_some, hinit', Option.bind_some, hprev]
  dsimp only
  rw [hstart]
  exact searchLoopPrinting_eq hh hfits hline hp hm _ _ _

end Search

/-! ## Any key -/

section Keys

variable {ι : Type} [DecidableEq ι] {names : List (List UInt8)} {m : ShellModule ι} {nav : Navigator Text}

omit [DecidableEq ι] in
/-- Between two iterations of `read_command`. -/
structure ShellModule.Reads (m : ShellModule ι) (nav : Navigator Text) (carriageReturn : Bool) : Prop where
  shell : m.toShell.Refines nav
  typed : Typed nav.commands
  carriageReturn : m.carriageReturnReceived = carriageReturn
  pattern : m.pattern.buf.length = 256
  matched : m.matched.buf.length = 256

omit [DecidableEq ι] in
/-- The keys that the shell is for: TAB behind the line, DOWN without a line left over, no NUL. -/
def ShellModule.Usual (m : ShellModule ι) (input : List UInt8) : Prop :=
  match readKey input with
  | some (.edit key, _) => key ≠ .other 0
  | some (.tab, _) => m.line.cursor = m.line.length
  | some (.down, _) => ¬m.toShell.Leftover
  | _ => True

omit [DecidableEq ι] in
instance (m : ShellModule ι) (input : List UInt8) : Decidable (m.Usual input) := by
  unfold ShellModule.Usual
  split <;> infer_instance

omit [DecidableEq ι] in
/-- What a key leaves; Enter leaves the history. -/
structure KeyAgrees (m : ShellModule ι) (result : ShellModule ι × List UInt8 × List UInt8) (result' : TextRead) :
    Prop where
  reads : result.1.Reads result'.nav result'.carriageReturn
  history : result.1.newlineReceived = true → result.1.history = m.history
  newline : result.1.newlineReceived = result'.newline
  input : result.2.1 = result'.input
  printed : result.2.2 = result'.printed

theorem commands_up (nav : Navigator Text) : (nav.up recalled).commands = nav.commands := by
  unfold Navigator.commands
  rcases List.eq_nil_or_concat' nav.older with hnil | ⟨older, a, holder⟩
  · rw [Navigator.up_of_nil hnil]
  · rw [Navigator.up_of_snoc holder, holder, List.append_assoc, List.singleton_append]

theorem commands_down (nav : Navigator Text) : (nav.down recalled).commands = nav.commands := by
  unfold Navigator.commands
  cases hnewer : nav.newer with
  | nil => rw [Navigator.down_of_nil hnewer, hnewer]
  | cons a newer => rw [Navigator.down_of_cons hnewer, List.append_assoc, List.singleton_append]

omit [DecidableEq ι] in
theorem Shell.Refines.holds {shell : Shell ι} (h : shell.Refines nav) : ∃ l, shell.history.Holds l nav.commands := by
  obtain ⟨front, back, older, newer, saved, hn, -, hnavOlder, hnavNewer, -⟩ := h.history
  refine ⟨front ++ back, ?_⟩
  unfold Navigator.commands
  rw [hnavOlder, hnavNewer, ← List.map_append, map_asText_all]
  exact hn.holds

omit [DecidableEq ι] in
/-- Another text is edited. -/
theorem Shell.Refines.edited {shell : Shell ι} (h : shell.Refines nav) {line : Line} {text : Text} (hline : line.Holds text) :
    Shell.Refines { shell with line } { nav with text } := ⟨hline, h.history⟩

omit [DecidableEq ι] in
theorem shownAfter_eq {shell : Shell ι} {prevLine pattern matched : Line} {carriageReturn newline : Bool} {prev text : Text}
    (hprev : prevLine.Holds prev) (hline : shell.line.Holds text) (input printed : List UInt8) :
    shownAfter ⟨shell, prevLine, carriageReturn, newline, pattern, matched⟩ input printed =
      some (.ok (⟨shell, prevLine, carriageReturn, newline, pattern, matched⟩, input, printed ++ render prev text)) := by
  unfold shownAfter
  rw [showLine_eq hprev hline]
  rfl

/-- **One key**: the same is read, done and printed. -/
theorem readCommandKey_refines (hsorted : names.Pairwise (· < ·)) (hnames : ∀ name ∈ names, NulFree name)
    {carriageReturn : Bool} (h : m.Reads nav carriageReturn) (hnewline : m.newlineReceived = false) {input : List UInt8}
    (husual : m.Usual input) : ∃ result, readCommandKey names m input = some result ∧
      Agree (KeyAgrees m) result (readText names nav carriageReturn input) := by
  have hline := h.shell.line
  unfold readCommandKey readText
  unfold ShellModule.Usual at husual
  cases hread : readKey input with
  | none => exact ⟨_, rfl, rfl⟩
  | some keyInput =>
    obtain ⟨key, input⟩ := keyInput
    rw [hread] at husual
    cases key with
    | edit key =>
      dsimp only
      obtain ⟨line, hhandle, hline'⟩ := handle_holds key husual hline
      rw [hhandle, Option.bind_eq_bind, Option.bind_some, shownAfter_eq hline hline']
      exact ⟨_, rfl, ⟨h.shell.edited hline', h.typed, h.carriageReturn, h.pattern, h.matched⟩, fun _ => rfl, hnewline, rfl, rfl⟩
    | tab =>
      dsimp only
      have hafter : nav.text.after = [] := by
        have hcursor := hline.cursor
        have hlength := hline.length
        rw [← List.length_eq_zero_iff]
        have : m.line.cursor = m.line.length := husual
        omega
      have hend : m.line.Holds ⟨nav.text.all, []⟩ := by
        rw [Text.all, hafter, List.append_nil]
        rw [← hafter]
        exact hline
      obtain ⟨line, htab, hline'⟩ := autoCompleteCommand_at_end hsorted hnames hend
      rw [htab, Option.bind_eq_bind, Option.bind_some]
      dsimp only
      rw [shownAfter_eq hline hline']
      exact ⟨_, rfl, ⟨h.shell.edited hline', h.typed, h.carriageReturn, h.pattern, h.matched⟩, fun _ => rfl, hnewline, rfl, rfl⟩
    | carriageReturn =>
      dsimp only
      rw [shownAfter_eq hline hline]
      exact ⟨_, rfl, ⟨h.shell, h.typed, rfl, h.pattern, h.matched⟩, fun _ => rfl, hnewline, rfl, rfl⟩
    | newline =>
      dsimp only
      rw [shownAfter_eq hline hline]
      exact ⟨_, rfl, ⟨h.shell, h.typed, h.carriageReturn, h.pattern, h.matched⟩, fun _ => rfl, rfl, rfl, rfl⟩
    | ctrlR =>
      dsimp only
      obtain ⟨l, hh⟩ := h.shell.holds
      obtain ⟨result, hresult, hagree⟩ := handleCtrlRPrinting_eq (m := { m with prevLine := m.line }) hh h.typed hline rfl
        h.pattern h.matched input
      dsimp only at hagree
      rw [h.carriageReturn] at hagree
      rw [hresult, Option.bind_eq_bind, Option.bind_some]
      cases hsearch : searchText nav.commands nav.text [] [] carriageReturn (searchPrinted nav.text) input with
      | error e =>
        rw [hsearch] at hagree
        cases result with
        | ok _ => exact hagree.elim
        | error e' =>
          obtain rfl : e' = e := hagree
          exact ⟨_, rfl, rfl⟩
      | ok found =>
        rw [hsearch] at hagree
        cases result with
        | error _ => exact hagree.elim
        | ok searched =>
          obtain ⟨hline', hpattern, hmatched, hreturn, hnewline', hinput, hprinted⟩ := (hagree : SearchAgrees _ _)
          dsimp only
          rw [shownAfter_eq hline hline']
          exact ⟨_, rfl, ⟨h.shell.edited hline', h.typed, hreturn, hpattern, hmatched⟩, fun _ => rfl, hnewline', hinput,
            congrArg (· ++ _) hprinted⟩
    | up =>
      dsimp only
      obtain ⟨shell, hup, hrefines⟩ := up_refines h.shell
      rw [hup, Option.bind_eq_bind, Option.bind_some, shownAfter_eq hline hrefines.line]
      exact ⟨_, rfl, ⟨hrefines, (commands_up nav).symm ▸ h.typed, h.carriageReturn, h.pattern, h.matched⟩,
        fun htrue => absurd (htrue.symm.trans hnewline) (by decide), hnewline, rfl, rfl⟩
    | down =>
      dsimp only
      obtain ⟨shell, hdown, hrefines⟩ := down_refines h.shell husual
      rw [hdown, Option.bind_eq_bind, Option.bind_some, shownAfter_eq hline hrefines.line]
      exact ⟨_, rfl, ⟨hrefines, (commands_down nav).symm ▸ h.typed, h.carriageReturn, h.pattern, h.matched⟩,
        fun htrue => absurd (htrue.symm.trans hnewline) (by decide), hnewline, rfl, rfl⟩
    | unknown =>
      dsimp only
      rw [shownAfter_eq hline hline]
      exact ⟨_, rfl, ⟨h.shell, h.typed, h.carriageReturn, h.pattern, h.matched⟩, fun _ => rfl, hnewline, rfl, rfl⟩

end Keys

end Monolinux
