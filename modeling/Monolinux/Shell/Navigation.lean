import Monolinux.Lib.Navigator
import Monolinux.Shell.History

/-!
# UP and DOWN

`ShellKey.handle` is what `read_command` does for one key, on the line and the history;
Enter executes the line, and the next prompt begins.  The navigator is what the keys are
for: its entries are the commands, behind them is the line that is edited.

The line that UP saves stays valid when Enter is pressed with the position in the history.
At the next prompt DOWN restores it (`Leftover`).

* `handle_refines`: any other key does what the navigator says;
* `navigation_refines`: so does every run without such a DOWN, and as many DOWNs as UPs give the
  edited line back.
-/

namespace Monolinux

variable {ι : Type} [DecidableEq ι]

/-- `module.line` and `module.history`. -/
structure Shell (ι : Type) where
  line : Line
  history : History ι

/-- With Enter comes what `malloc` returns for the command, and the line buffer that the execution of it leaves. -/
inductive ShellKey (ι : Type)
  | edit (key : EditKey)
  | up
  | down
  | enter (elem : Option ι) (left : Line)

/-- UP and DOWN show the command that is found, if any. -/
def showCommand (line : Line) : Option (List UInt8) → Option Line
  | none => some line
  | some buf => do lineInsertString (← lineInit line) buf

def ShellKey.handle (shell : Shell ι) : ShellKey ι → Option (Shell ι)
  | edit key => do
    let line ← key.handle shell.line
    return { shell with line }
  | up => do
    let (history, buf) ← historyGetPreviousCommand shell.history shell.line
    let line ← showCommand shell.line buf
    return { line, history }
  | down => do
    let (history, buf) ← historyGetNextCommand shell.history
    let line ← showCommand shell.line buf
    return { line, history }
  | enter elem left => do
    let (history, _) ← executeLine shell.history shell.line elem
    -- `read_command` is called again
    let line ← lineInit left
    return { line, history }

/-- The editing keys insert no NUL, and `malloc` may return the element. -/
def ShellKey.Enabled (shell : Option (Shell ι)) : ShellKey ι → Prop
  | edit key => key ≠ .other 0
  | up | down => True
  | enter elem left =>
    left.buf.length = 256 ∧ ∀ sh ∈ shell, sh.history.MayAllocate elem

instance (shell : Option (Shell ι)) (key : ShellKey ι) : Decidable (key.Enabled shell) :=
  match key with
  | .edit _ => inferInstanceAs (Decidable (_ ≠ _))
  | .up | .down => inferInstanceAs (Decidable True)
  | .enter _ _ => inferInstanceAs (Decidable (_ ∧ _))

/-- The state before the first call of `read_command`, after its `line_init`. -/
def shellInit (shell : Shell ι) : Option (Shell ι) := do
  let history ← historyInit shell.history
  let line ← lineInit shell.line
  return { line, history }

def shellSystem (shell : Shell ι) : System (Option (Shell ι)) (ShellKey ι) where
  start := shellInit shell
  enabled s key := key.Enabled s
  next s key := s.bind key.handle

instance (shell : Shell ι) (s : Option (Shell ι)) (key : ShellKey ι) : Decidable ((shellSystem shell).enabled s key) :=
  inferInstanceAs (Decidable (key.Enabled s))

omit [DecidableEq ι] in
/-- At the edited line, with another line that is still to be restored. -/
def Shell.Leftover (shell : Shell ι) : Prop :=
  shell.history.current = none ∧ shell.history.lineValid = true ∧ shell.line.text ≠ ⟨shell.history.line.text.all, []⟩

omit [DecidableEq ι] in
instance (shell : Shell ι) : Decidable shell.Leftover := inferInstanceAs (Decidable (_ ∧ _ ∧ _))

omit [DecidableEq ι] in
/-- DOWN is not pressed there. -/
def Fresh (s : Option (Shell ι)) : ShellKey ι → Prop
  | .down => ∀ shell ∈ s, ¬shell.Leftover
  | _ => True

omit [DecidableEq ι] in
instance (s : Option (Shell ι)) (key : ShellKey ι) : Decidable (Fresh s key) :=
  match key with
  | .down => inferInstanceAs (Decidable (∀ shell ∈ s, ¬shell.Leftover))
  | .edit _ | .up | .enter _ _ => inferInstanceAs (Decidable True)

/-! ## The navigator of the shell -/

/-- A command, with the cursor behind it. -/
def asText (command : List UInt8) : Text := ⟨command, []⟩

def recalled (text : Text) : Text := asText text.all

/-- The commands after a line was executed. -/
def storeLine (stored : Bool) (entries : List Text) (text : Text) : List Text :=
  if text.all = [] then entries else (remember stored (entries.map Text.all) text.all).map asText

omit [DecidableEq ι] in
def ShellKey.navigatorKey : ShellKey ι → NavigatorKey Text
  | edit key => .edit (·.edit key)
  | up => .up
  | down => .down
  | enter elem _ => .enter (storeLine elem.isSome) ⟨[], []⟩

@[simp] theorem asText_all (command : List UInt8) : (asText command).all = command := List.append_nil _

@[simp] theorem recalled_asText (command : List UInt8) : recalled (asText command) = asText command := by
  unfold recalled
  rw [asText_all]

theorem map_asText_all (commands : List (List UInt8)) : (commands.map asText).map Text.all = commands := by
  rw [List.map_map]
  exact List.map_id'' asText_all _

omit [DecidableEq ι] in
/-- The shell shows what the navigator shows, its position is the navigator's, and the saved line is valid while
the position is at a command. -/
structure Shell.Refines (shell : Shell ι) (nav : Navigator Text) : Prop where
  line : shell.line.Holds nav.text
  history : ∃ front back older newer saved, shell.history.Navigable front back (older ++ newer) saved ∧
    older.length = front.length ∧ nav.older = older.map asText ∧ nav.newer = newer.map asText ∧
    (newer ≠ [] → shell.history.lineValid = true ∧ saved = nav.saved) ∧
    ∀ command ∈ older ++ newer, NulFree command ∧ command.length ≤ 255

section Refinement

variable {shell : Shell ι} {nav : Navigator Text} {line : Line} {text : Text}

theorem Line.Holds.fits_all (h : line.Holds text) : NulFree text.all ∧ text.all.length ≤ 255 := by
  have hfits := h.fits
  exact ⟨h.nulFree, by rw [text.length_all]; omega⟩

theorem showCommand_holds (h : line.Holds text) {command : List UInt8} (hcommand : NulFree command ∧ command.length ≤ 255) :
    ∃ line', showCommand line (some command) = some line' ∧ line'.Holds (asText command) := by
  obtain ⟨line₁, hinit, h₁⟩ := lineInit_holds h.size
  obtain ⟨line₂, hinsert, h₂⟩ := lineInsertString_holds h₁ hcommand.1
  refine ⟨line₂, ?_, ?_⟩
  · unfold showCommand
    rw [hinit]
    exact hinsert
  · have htake : command.take (255 - (([] : List UInt8).length + ([] : List UInt8).length)) = command :=
      List.take_of_length_le hcommand.2
    rw [List.nil_append, htake] at h₂
    exact h₂

theorem handle_up {history : History ι} {buf : Option (List UInt8)}
    (hprev : historyGetPreviousCommand shell.history shell.line = some (history, buf))
    (hshow : showCommand shell.line buf = some line) : ShellKey.up.handle shell = some ⟨line, history⟩ := by
  simp [ShellKey.handle, hprev, hshow]

theorem handle_down {history : History ι} {buf : Option (List UInt8)}
    (hnext : historyGetNextCommand shell.history = some (history, buf)) (hshow : showCommand shell.line buf = some line) :
    ShellKey.down.handle shell = some ⟨line, history⟩ := by
  simp [ShellKey.handle, hnext, hshow]

omit [DecidableEq ι] in
/-- The position is at the edited line for both. -/
theorem Shell.Refines.current_eq_none (h : shell.Refines nav) : shell.history.current = none ↔ nav.newer = [] := by
  obtain ⟨front, back, older, newer, saved, hn, holder, -, hnewer, -, -⟩ := h.history
  have hlen := hn.holds.length_eq
  rw [List.length_append, List.length_append] at hlen
  rw [hn.current, List.head?_eq_none_iff, hnewer, List.map_eq_nil_iff, ← List.length_eq_zero_iff,
    ← List.length_eq_zero_iff, show back.length = newer.length by omega]

theorem up_refines (h : shell.Refines nav) :
    ∃ shell', ShellKey.up.handle shell = some shell' ∧ shell'.Refines (nav.up recalled) := by
  obtain ⟨front, back, older, newer, saved, hn, holder, hnavOlder, hnavNewer, hsaved, hfits⟩ := h.history
  rcases List.eq_nil_or_concat' front with rfl | ⟨front, a, rfl⟩
  · obtain rfl : older = [] := List.eq_nil_of_length_eq_zero holder
    refine ⟨shell, handle_up (previous_of_begin hn.holds hn.current shell.line) rfl, ?_⟩
    rwa [Navigator.up_of_nil hnavOlder]
  · have hh := hn.holds
    have hlen := hh.length_eq
    rw [List.append_assoc, List.singleton_append] at hh
    obtain ⟨older', command, newer', hcommands, holder', hprev⟩ := previous_of_snoc hh hn.current shell.line
    rw [List.append_cons] at hcommands
    simp only [List.length_append, List.length_singleton] at holder hlen
    obtain ⟨rfl, rfl⟩ := List.append_inj hcommands (by rw [List.length_append, List.length_singleton]; omega)
    obtain ⟨line, hshow, hline⟩ := showCommand_holds h.line (hfits command (by simp))
    have hempty : back = [] ↔ newer = [] := by
      rw [← List.length_eq_zero_iff, ← List.length_eq_zero_iff]
      simp only [List.length_append, List.length_singleton] at hlen
      omega
    rw [List.map_append] at hnavOlder
    have hup : nav.up recalled = ⟨older'.map asText, (command :: newer).map asText, asText command,
        if newer = [] then nav.text else nav.saved⟩ := by
      rw [Navigator.up_of_snoc hnavOlder, hnavNewer, recalled_asText]
      cases newer with
      | nil => rfl
      | cons => rfl
    refine ⟨_, handle_up hprev hshow, ?_⟩
    rw [hup]
    refine ⟨hline, front, a :: back, older', command :: newer, if newer = [] then nav.text else nav.saved,
      ⟨⟨hh.linked, ?_, hh.length.trans ?_⟩, rfl, ?_⟩, by omega, rfl, rfl, fun _ => ⟨?_, rfl⟩, ?_⟩
    · rw [List.append_cons older' command newer]
      exact hh.bufs
    · rw [List.append_cons older' command newer]
    · show Line.Holds (if back = [] then shell.line else shell.history.line) _
      by_cases hback : back = []
      · rw [if_pos hback, if_pos (hempty.mp hback)]
        exact h.line
      · rw [if_neg hback, if_neg (fun hnil => hback (hempty.mpr hnil)), ← (hsaved (fun hnil => hback (hempty.mpr hnil))).2]
        exact hn.saved
    · show (back.isEmpty || shell.history.lineValid) = true
      cases back with
      | nil => rfl
      | cons => exact (hsaved fun hnil => List.cons_ne_nil _ _ (hempty.mpr hnil)).1
    · rwa [List.append_cons older' command newer]

/-- DOWN at the edited line. -/
theorem down_at_line (h : shell.Refines nav) (hcurrent : shell.history.current = none) : ∃ saved line',
    shell.history.line.Holds saved ∧
      ShellKey.down.handle shell = some ⟨line', { shell.history with lineValid := false }⟩ ∧
      line'.Holds (if shell.history.lineValid then asText saved.all else nav.text) := by
  obtain ⟨front, back, older, newer, saved, hn, -⟩ := h.history
  obtain rfl : back = [] := List.head?_eq_none_iff.mp (hn.current.symm.trans hcurrent)
  have hnext := (next_of_end hcurrent).trans (restored_navigable hn)
  cases hvalid : shell.history.lineValid with
  | true =>
    obtain ⟨line', hshow, hline⟩ := showCommand_holds h.line hn.saved.fits_all
    rw [hvalid] at hnext
    exact ⟨saved, line', hn.saved, handle_down hnext hshow, hline⟩
  | false =>
    rw [hvalid] at hnext
    exact ⟨saved, shell.line, hn.saved, handle_down hnext rfl, h.line⟩

/-- At the edited line nothing changes, unless a line is left over. -/
theorem down_at_line_refines (h : shell.Refines nav) (hfresh : ¬shell.Leftover) (hcurrent : shell.history.current = none) :
    ∃ shell', ShellKey.down.handle shell = some shell' ∧ shell'.Refines (nav.down recalled) := by
  have hnil := h.current_eq_none.mp hcurrent
  obtain ⟨saved', line', hsaved', hdown, hline⟩ := down_at_line h hcurrent
  obtain ⟨front, back, older, newer, saved, hn, holder, hnavOlder, hnavNewer, -, hfits⟩ := h.history
  have htext : (if shell.history.lineValid then asText saved'.all else nav.text) = nav.text := by
    split
    next hvalid =>
      -- what is restored is there already
      have heq : shell.line.text = ⟨shell.history.line.text.all, []⟩ :=
        Classical.not_not.mp fun hne => hfresh ⟨hcurrent, hvalid, hne⟩
      rw [h.line.text_eq, hsaved'.text_eq] at heq
      exact heq.symm
    next => rfl
  rw [htext] at hline
  refine ⟨_, hdown, ?_⟩
  rw [Navigator.down_of_nil hnil]
  refine ⟨hline, front, back, older, newer, saved, ⟨⟨hn.holds.linked, hn.holds.bufs, hn.holds.length⟩, hn.current, hn.saved⟩,
    holder, hnavOlder, hnavNewer, fun hne => ?_, hfits⟩
  rw [hnavNewer] at hnil
  exact absurd (List.map_eq_nil_iff.mp hnil) hne

theorem down_refines (h : shell.Refines nav) (hfresh : ¬shell.Leftover) :
    ∃ shell', ShellKey.down.handle shell = some shell' ∧ shell'.Refines (nav.down recalled) := by
  obtain ⟨front, back, older, newer, saved, hn, holder, hnavOlder, hnavNewer, hsaved, hfits⟩ := h.history
  cases back with
  | nil => exact down_at_line_refines h hfresh hn.current
  | cons a back =>
    obtain ⟨older', command, newer', hcommands, holder', hnext⟩ := next_of_cons hn.holds hn.current
    have hlen := hn.holds.length_eq
    obtain ⟨rfl, rfl⟩ := List.append_inj hcommands (holder.trans holder'.symm)
    obtain ⟨hvalid, rfl⟩ := hsaved (List.cons_ne_nil _ _)
    have hh := hn.holds
    rw [List.append_cons front, List.append_cons older] at hh
    rw [List.append_cons older] at hfits
    simp only [List.length_append, List.length_cons] at hlen
    have hdown : nav.down recalled = ⟨(older ++ [command]).map asText, newer'.map asText,
        recalled ((newer'.map asText).head?.getD nav.saved), nav.saved⟩ := by
      rw [Navigator.down_of_cons hnavNewer, hnavOlder, List.map_append]
      rfl
    rw [hdown]
    cases back with
    | nil =>
      obtain rfl : newer' = [] := List.eq_nil_of_length_eq_zero (by rw [List.length_nil] at hlen; omega)
      have hend : History.Navigable { shell.history with current := none } (front ++ [a]) [] (older ++ [command] ++ [])
          nav.saved := ⟨⟨hh.linked, hh.bufs, hh.length⟩, rfl, hn.saved⟩
      have hrestored := restored_navigable hend
      dsimp only at hrestored
      rw [if_pos rfl, hrestored, hvalid] at hnext
      obtain ⟨line', hshow, hline⟩ := showCommand_holds h.line hn.saved.fits_all
      refine ⟨_, handle_down hnext hshow, hline, front ++ [a], [], older ++ [command], [], nav.saved, ?_, ?_, rfl, rfl,
        fun hne => absurd rfl hne, hfits⟩
      · exact ⟨⟨hh.linked, hh.bufs, hh.length⟩, rfl, hn.saved⟩
      · rw [List.length_append, List.length_append, holder]
        rfl
    | cons b back =>
      obtain ⟨next, newer, rfl⟩ : ∃ next newer, newer' = next :: newer :=
        List.exists_cons_of_length_pos (by rw [List.length_cons] at hlen; omega)
      rw [if_neg (List.cons_ne_nil b back)] at hnext
      obtain ⟨line', hshow, hline⟩ := showCommand_holds h.line (hfits next (by simp))
      refine ⟨_, handle_down hnext hshow, ?_, front ++ [a], b :: back, older ++ [command], next :: newer, nav.saved, ?_, ?_,
        rfl, rfl, fun _ => ⟨hvalid, rfl⟩, hfits⟩
      · show Line.Holds line' (recalled (asText next))
        rwa [recalled_asText]
      · exact ⟨⟨hh.linked, hh.bufs, hh.length⟩, rfl, hn.saved⟩
      · rw [List.length_append, List.length_append, holder]
        rfl

theorem edit_refines (h : shell.Refines nav) {key : EditKey} (hkey : key ≠ .other 0) : ∃ shell',
    (ShellKey.edit key).handle shell = some shell' ∧ shell'.Refines { nav with text := nav.text.edit key } := by
  obtain ⟨line', hedit, hline⟩ := handle_holds key hkey h.line
  refine ⟨{ shell with line := line' }, ?_, hline, h.history⟩
  simp [ShellKey.handle, hedit]

theorem mem_of_remember {stored : Bool} {commands : List (List UInt8)} {command c : List UInt8}
    (hc : c ∈ remember stored commands command) : c ∈ commands ∨ c = command := by
  unfold remember at hc
  have htail : c ∈ (if commands.length = 64 then commands.tail else commands) → c ∈ commands := by
    split
    next => exact List.mem_of_mem_tail
    next => exact id
  split at hc
  next => exact .inl hc
  next =>
    cases stored with
    | false => exact .inl (htail hc)
    | true => exact (List.mem_append.mp hc).imp htail List.mem_singleton.mp

/-- **Enter**, and the next prompt. -/
theorem enter_refines (h : shell.Refines nav) {elem : Option ι} {left : Line}
    (hkey : (ShellKey.enter elem left).Enabled (some shell)) :
    ∃ shell', (ShellKey.enter elem left).handle shell = some shell' ∧
      shell'.Refines (nav.press recalled (.enter (storeLine elem.isSome) ⟨[], []⟩)) := by
  obtain ⟨hsize, hmalloc⟩ := hkey
  obtain ⟨front, back, older, newer, saved, hn, holder, hnavOlder, hnavNewer, -, hfits⟩ := h.history
  obtain ⟨history, l', hexec, hh', hcurrent, hsaved, -⟩ := executeLine_holds hn.holds h.line (hmalloc shell rfl)
  obtain ⟨line', hinit, hline⟩ := lineInit_holds hsize
  have hstore : storeLine elem.isSome (nav.older ++ nav.newer) nav.text =
      (if nav.text.all = [] then older ++ newer else remember elem.isSome (older ++ newer) nav.text.all).map asText := by
    unfold storeLine
    rw [hnavOlder, hnavNewer, ← List.map_append, map_asText_all]
    split
    next => rfl
    next => rfl
  have hcommands : ∀ command ∈ (if nav.text.all = [] then older ++ newer
      else remember elem.isSome (older ++ newer) nav.text.all), NulFree command ∧ command.length ≤ 255 := by
    intro command hcommand
    split at hcommand
    next => exact hfits command hcommand
    next =>
      rcases mem_of_remember hcommand with hold | rfl
      · exact hfits command hold
      · exact h.line.fits_all
  refine ⟨⟨line', history⟩, by simp [ShellKey.handle, hexec, hinit], hline, ?_⟩
  show ∃ front back older newer saved, _ ∧ _ ∧ storeLine _ _ _ = _ ∧ _
  rw [hstore]
  refine ⟨l', [], _, [], saved, ⟨?_, hcurrent, hsaved ▸ hn.saved⟩, ?_, rfl, rfl, fun hne => absurd rfl hne, ?_⟩
  · rw [List.append_nil, List.append_nil]
    exact hh'
  · exact hh'.length_eq.symm
  · rw [List.append_nil]
    exact hcommands

/-- **One key.** -/
theorem handle_refines (h : shell.Refines nav) {key : ShellKey ι} (hkey : key.Enabled (some shell))
    (hfresh : Fresh (some shell) key) :
    ∃ shell', key.handle shell = some shell' ∧ shell'.Refines (nav.press recalled key.navigatorKey) := by
  cases key with
  | edit key => exact edit_refines h hkey
  | up => exact up_refines h
  | down => exact down_refines h (hfresh shell rfl)
  | enter elem left => exact enter_refines h hkey

end Refinement

/-! ## Runs -/

section Runs

variable {shell₀ : Shell ι} {tr : List (ShellKey ι)} {s : Option (Shell ι)}

omit [DecidableEq ι] in
/-- What the navigator shows after the keys. -/
def navigated (tr : List (ShellKey ι)) : Navigator Text :=
  (tr.map ShellKey.navigatorKey).foldl (Navigator.press recalled) ⟨[], [], ⟨[], []⟩, ⟨[], []⟩⟩

omit [DecidableEq ι] in
theorem shellInit_refines (hhistory : shell₀.history.line.buf.length = 256) (hline : shell₀.line.buf.length = 256) :
    ∃ shell, shellInit shell₀ = some shell ∧ shell.Refines (navigated ([] : List (ShellKey ι))) := by
  obtain ⟨history, hinit, hn, -⟩ := historyInit_navigable hhistory
  obtain ⟨line, hlineInit, hholds⟩ := lineInit_holds hline
  refine ⟨⟨line, history⟩, by simp [shellInit, hinit, hlineInit], hholds, [], [], [], [], _, hn, rfl, rfl, rfl,
    fun hne => absurd rfl hne, fun _ hc => absurd hc List.not_mem_nil⟩

theorem run_refines (hhistory : shell₀.history.line.buf.length = 256) (hline : shell₀.line.buf.length = 256)
    (hr : ((shellSystem shell₀).restrict Fresh).Run tr s) : ∃ shell, s = some shell ∧ shell.Refines (navigated tr) := by
  refine hr.invariantOn (fun tr s => ∃ shell, s = some shell ∧ shell.Refines (navigated tr)) ?_ ?_
  · exact shellInit_refines hhistory hline
  · rintro tr s key - ⟨shell, rfl, h⟩ ⟨hkey, hfresh⟩
    obtain ⟨shell', hhandle, h'⟩ := handle_refines h hkey hfresh
    refine ⟨shell', hhandle, ?_⟩
    unfold navigated
    rw [List.map_append, List.foldl_append]
    exact h'

omit [DecidableEq ι] in
theorem navigated_ups_downs (tr : List (ShellKey ι)) (k j : ℕ) :
    navigated (tr ++ (List.replicate k .up ++ List.replicate j .down)) =
      (Navigator.down recalled)^[j] ((Navigator.up recalled)^[k] (navigated tr)) := by
  have hpress (key : ShellKey ι) (n : Navigator Text) (k : ℕ) :
      ((List.replicate k key).map ShellKey.navigatorKey).foldl (Navigator.press recalled) n =
        (fun n => Navigator.press recalled n key.navigatorKey)^[k] n := by
    induction k generalizing n with
    | zero => rfl
    | succ k ih => rw [List.replicate_succ, List.map_cons, List.foldl_cons, ih, Function.iterate_succ_apply]
  unfold navigated
  rw [List.map_append, List.map_append, List.foldl_append, List.foldl_append, hpress, hpress]
  rfl

/-- A line that is left over takes the place of the edited one. -/
theorem down_leftover {shell : Shell ι} {nav : Navigator Text} (h : shell.Refines nav) (hleft : shell.Leftover) :
    ∃ shell', ShellKey.down.handle shell = some shell' ∧ shell'.line.text ≠ shell.line.text := by
  obtain ⟨hcurrent, hvalid, hne⟩ := hleft
  obtain ⟨saved, line', hsaved, hdown, hline⟩ := down_at_line h hcurrent
  rw [hvalid, if_pos rfl] at hline
  refine ⟨_, hdown, fun heq => hne ?_⟩
  rw [← heq, hsaved.text_eq]
  exact hline.text_eq

/-- **UP and DOWN navigate** in every run in which DOWN is not pressed at the edited line while another line is left
over; there it would change the line.  Up and down again gives the text back. -/
theorem navigation_refines (shell₀ : Shell ι) (hhistory : shell₀.history.line.buf.length = 256)
    (hline : shell₀.line.buf.length = 256) (hr : ((shellSystem shell₀).restrict Fresh).Run tr s) :
    ∃ shell, s = some shell ∧ shell.Refines (navigated tr) ∧
      (∀ (k j : ℕ) (s' : Option (Shell ι)), shell.history.current = none → min (k : ℤ) shell.history.length ≤ j →
        ((shellSystem shell₀).restrict Fresh).Path s (List.replicate k .up ++ List.replicate j .down) s' →
        ∃ shell', s' = some shell' ∧ shell'.line.text.all = shell.line.text.all) ∧
      (shell.Leftover → ∃ shell', ShellKey.down.handle shell = some shell' ∧ shell'.line.text ≠ shell.line.text) := by
  obtain ⟨shell, rfl, h⟩ := run_refines hhistory hline hr
  refine ⟨shell, rfl, h, fun k j s' hcurrent hj hpath => ?_, down_leftover h⟩
  obtain ⟨shell', rfl, h'⟩ := run_refines hhistory hline (hr.append hpath)
  refine ⟨shell', rfl, ?_⟩
  have hnil := h.current_eq_none.mp hcurrent
  have holder : shell.history.length = (navigated tr).older.length := by
    obtain ⟨front, back, older, newer, saved, hn, -, hnavOlder, hnavNewer, -⟩ := h.history
    rw [hnavNewer] at hnil
    obtain rfl := List.map_eq_nil_iff.mp hnil
    rw [hn.holds.length, hnavOlder, List.append_nil, List.length_map]
  rw [navigated_ups_downs] at h'
  rw [h'.line.text_eq, h.line.text_eq]
  have hsteps : min k (navigated tr).older.length ≤ j := by omega
  rcases @Navigator.downs_ups _ recalled _ hnil k j hsteps with heq | heq
  · rw [heq]
  · rw [heq]
    exact asText_all _

end Runs

/-! ## A line that is left over -/

/-- The shell before the first prompt. -/
def bootShell : Shell ℕ := ⟨typedLine [], emptyHistory⟩

/-- `ls` is executed, at the next prompt `a` is typed and UP pressed, and `ls` is executed again. -/
def leftoverKeys : List (ShellKey ℕ) :=
  [.edit (.other 0x6c), .edit (.other 0x73), .enter (some 0) (typedLine []), .edit (.other 0x61), .up,
    .enter none (typedLine [])]

def leftoverState : Option (Shell ℕ) := leftoverKeys.foldl (shellSystem bootShell).next (shellSystem bootShell).start

/-- At the new prompt DOWN shows `a`. -/
theorem down_shows_leftover : ∃ shell, (shellSystem bootShell).Run leftoverKeys (some shell) ∧
    shell.history.current = none ∧ shell.line.text = ⟨[], []⟩ ∧
    (ShellKey.down.handle shell).map (fun shell' : Shell ℕ => shell'.line.text) = some ⟨[0x61], []⟩ := by
  have hrun : (shellSystem bootShell).Run leftoverKeys leftoverState := (System.path_of_runs (by decide +kernel)).run
  obtain ⟨shell, hshell⟩ : ∃ shell, leftoverState = some shell := Option.isSome_iff_exists.mp (by decide +kernel)
  have hcurrent : leftoverState.map (fun shell : Shell ℕ => shell.history.current) = some none := by decide +kernel
  have hline : leftoverState.map (fun shell : Shell ℕ => shell.line.text) = some ⟨[], []⟩ := by decide +kernel
  have hdown : (leftoverState.bind ShellKey.down.handle).map (fun shell' : Shell ℕ => shell'.line.text) =
      some ⟨[0x61], []⟩ := by decide +kernel
  rw [hshell] at hrun hcurrent hline hdown
  exact ⟨shell, hrun, Option.some_inj.mp hcurrent, Option.some_inj.mp hline, hdown⟩

/-- The same keys, and DOWN before Enter. -/
def freshKeys : List (ShellKey ℕ) :=
  [.edit (.other 0x6c), .edit (.other 0x73), .enter (some 0) (typedLine []), .edit (.other 0x61), .up, .down]

theorem navigation_refines_a : ∃ shell,
    freshKeys.foldl (shellSystem bootShell).next (shellSystem bootShell).start = some shell ∧
      shell.line.text = ⟨[0x61], []⟩ := by
  have hsize : (typedLine []).buf.length = 256 := (typedLine_holds NulFree.nil (Nat.zero_le _)).size
  have hrun : ((shellSystem bootShell).restrict Fresh).Run freshKeys
      (freshKeys.foldl (shellSystem bootShell).next (shellSystem bootShell).start) :=
    (System.path_of_runs (by decide +kernel)).run
  obtain ⟨shell, hshell, h, -⟩ := navigation_refines bootShell hsize hsize hrun
  exact ⟨shell, hshell, h.line.text_eq.trans (by decide +kernel)⟩

end Monolinux
