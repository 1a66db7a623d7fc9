import Monolinux.Shell.History
import Monolinux.Lib.Terminal

/-!
# Reverse search

`handleCtrlR` reads the input until the search is left, and keeps a pattern and the match
for it.  `reverseSearched` is the line it leaves when Enter is pressed after the keys.

At the start pattern and match are empty; a backspace that empties the pattern again
searches for it, and the newest command contains the empty pattern.

* `searchLoop_eq`: the loop on the pattern and the match;
* `search_path_independent`: the match depends on the pattern only just when the pattern
  that is left is not empty, or there is no command.
-/

namespace Monolinux

variable {ι : Type} [DecidableEq ι]

/-! ## The search -/

omit [DecidableEq ι] in
/-- The loop of `history_reverse_search` from the element `elem`; not at the end after `fuel` elements: `none`. -/
def reverseSearchLoop (h : History ι) (pattern : List UInt8) : ℕ → Option ι → Option (Option (List UInt8))
  | 0, _ => none
  | _ + 1, none => some none
  | fuel + 1, some a => do
    let elem ← h.mem a
    -- `strstr`
    if pattern <:+: elem.buf then some (some elem.buf) else reverseSearchLoop h pattern fuel elem.prev

omit [DecidableEq ι] in
def historyReverseSearch (h : History ι) (pattern : List UInt8) : Option (Option (List UInt8)) :=
  reverseSearchLoop h pattern (h.length.toNat + 1) h.tail

omit [DecidableEq ι] in
/-- The match is searched for, and copied. -/
def updateMatch (h : History ι) (pattern matched : Line) : Option Line := do
  let str ← cstr pattern.buf 0
  let buf ← historyReverseSearch h str
  let matched ← lineInit matched
  match buf with
  | none => some matched
  | some buf => lineInsertString matched buf

/-- What `handle_ctrl_r` leaves. -/
structure Searched where
  line : Line
  pattern : Line
  matched : Line
  carriageReturn : Bool
  newline : Bool
  input : List UInt8

omit [DecidableEq ι] in
/-- The `while` loop of `handle_ctrl_r`.  At the end of the input the program exits (`none`). -/
def searchLoop (h : History ι) (line : Line) : (pattern matched : Line) → (carriageReturn : Bool) → List UInt8 → Option Searched
  | _, _, _, [] => none
  | pattern, matched, carriageReturn, ch :: input =>
    if ch = 127 ∨ ch = 8 then
      if pattern.length = 0 then searchLoop h line pattern matched carriageReturn input
      else do
        let pattern ← lineDelete (lineSeek pattern (-1)).1
        let matched ← updateMatch h pattern matched
        searchLoop h line pattern matched carriageReturn input
    else if ch = 13 then searchLoop h line pattern matched true input
    else if ch = 7 then some ⟨line, pattern, matched, carriageReturn, false, input⟩
    else if Terminal.isPrintable ch then do
      let (pattern, inserted) ← lineInsert pattern ch
      if inserted then do
        let matched ← updateMatch h pattern matched
        searchLoop h line pattern matched carriageReturn input
      else searchLoop h line pattern matched carriageReturn input
    -- Copy the match to current line.
    else if ch = 10 then some ⟨matched, pattern, matched, carriageReturn, true, input⟩
    else if ch = 27 then
      match input with
      | [] => none
      | 0x64 :: input => some ⟨matched, pattern, matched, carriageReturn, false, input⟩ -- d
      | _ :: [] => none
      | _ :: _ :: input => some ⟨matched, pattern, matched, carriageReturn, false, input⟩
    else some ⟨matched, pattern, matched, carriageReturn, false, input⟩

omit [DecidableEq ι] in
/-- `pattern` and `matched` are what the last search left in memory. -/
def handleCtrlR (h : History ι) (line pattern matched : Line) (carriageReturn : Bool) (input : List UInt8) :
    Option Searched := do
  let pattern ← lineInit pattern
  let matched ← lineInit matched
  searchLoop h line pattern matched carriageReturn input

omit [DecidableEq ι] in
/-- The text that Enter executes when it is pressed after the keys. -/
def reverseSearched (h : History ι) (line pattern matched : Line) (keys : List UInt8) : Option (List UInt8) :=
  (handleCtrlR h line pattern matched false (keys ++ [10])).map fun searched => searched.line.text.all

/-! ## What is found -/

/-- The most recent command that contains the pattern, or the empty line. -/
def newest (commands : List (List UInt8)) (pattern : List UInt8) : List UInt8 :=
  (commands.reverse.find? fun command => pattern <:+: command).getD []

/-- Characters and backspaces. -/
def SearchKey (key : UInt8) : Prop := Terminal.isPrintable key = true ∨ key = 8 ∨ key = 127

/-- The pattern after one more key. -/
def typePattern (pattern : List UInt8) (key : UInt8) : List UInt8 :=
  if key = 127 ∨ key = 8 then pattern.dropLast
  else if pattern.length = 255 then pattern
  else pattern ++ [key]

/-- The pattern that the keys leave. -/
def patternOf (keys : List UInt8) : List UInt8 := keys.foldl typePattern []

/-- Pattern and match after one more key. -/
def typeSearch (commands : List (List UInt8)) (state : List UInt8 × List UInt8) (key : UInt8) : List UInt8 × List UInt8 :=
  if typePattern state.1 key = state.1 then state
  else (typePattern state.1 key, newest commands (typePattern state.1 key))

section Loop

variable {h : History ι} {commands : List (List UInt8)} {pattern p m : List UInt8}

omit [DecidableEq ι] in
/-- The elements in front of a position are searched backwards. -/
theorem reverseSearchLoop_eq {front back : List ι} {older newer : List (List UInt8)}
    (hh : h.Holds (front ++ back) (older ++ newer)) (hlen : older.length = front.length) {fuel : ℕ}
    (hfuel : front.length < fuel) :
    reverseSearchLoop h pattern fuel front.getLast? =
      some (older.reverse.find? fun command => pattern <:+: command) := by
  induction front using List.reverseRecOn generalizing back older newer fuel with
  | nil =>
    obtain rfl := List.eq_nil_of_length_eq_zero hlen
    obtain ⟨fuel, rfl⟩ := Nat.exists_eq_add_of_lt hfuel
    rw [List.length_nil, Nat.zero_add]
    rfl
  | append_singleton front a ih =>
    obtain ⟨fuel, rfl⟩ : ∃ k, fuel = k + 1 := ⟨fuel - 1, by omega⟩
    rw [List.append_assoc, List.singleton_append] at hh
    obtain ⟨older', command, newer', hcommands, holder', hmem⟩ := hh.elem
    rw [List.append_cons] at hcommands
    rw [List.length_append, List.length_singleton] at hlen hfuel
    obtain ⟨rfl, rfl⟩ := List.append_inj hcommands (by rw [List.length_append, List.length_singleton]; omega)
    rw [List.append_assoc, List.singleton_append] at hh
    rw [List.getLast?_concat, List.reverse_append, List.reverse_singleton, List.singleton_append, List.find?_cons]
    unfold reverseSearchLoop
    rw [hmem, Option.bind_eq_bind, Option.bind_some]
    dsimp only
    by_cases hfound : pattern <:+: command
    · rw [if_pos hfound, decide_eq_true hfound]
    · rw [if_neg hfound, decide_eq_false hfound]
      exact ih hh holder' (by omega)

omit [DecidableEq ι] in
theorem historyReverseSearch_eq {l : List ι} (hh : h.Holds l commands) (pattern : List UInt8) :
    historyReverseSearch h pattern = some (commands.reverse.find? fun command => pattern <:+: command) := by
  have hlen := hh.length_eq
  have hlength := hh.length
  have hall : h.Holds (l ++ []) (commands ++ []) := by rwa [List.append_nil, List.append_nil]
  unfold historyReverseSearch
  rw [hh.linked.tail_eq]
  exact reverseSearchLoop_eq hall hlen.symm (by omega)

/-- The commands fit in a line. -/
def Typed (commands : List (List UInt8)) : Prop :=
  ∀ command ∈ commands, command ≠ [] ∧ NulFree command ∧ command.length ≤ 255

theorem newest_fits (hfits : Typed commands) (p : List UInt8) : NulFree (newest commands p) ∧ (newest commands p).length ≤ 255 := by
  unfold newest
  cases hfind : commands.reverse.find? fun command => p <:+: command with
  | none => exact ⟨NulFree.nil, Nat.zero_le _⟩
  | some command => exact (hfits command (List.mem_reverse.mp (List.mem_of_find?_eq_some hfind))).2

omit [DecidableEq ι] in
theorem updateMatch_holds {l : List ι} (hh : h.Holds l commands) (hfits : Typed commands) {pattern matched : Line}
    (hp : pattern.Holds ⟨p, []⟩) (hm : matched.Holds ⟨m, []⟩) :
    ∃ matched', updateMatch h pattern matched = some matched' ∧ matched'.Holds ⟨newest commands p, []⟩ := by
  have hcstr : cstr pattern.buf 0 = some p := by
    have := hp.cstr_eq (Nat.zero_le _)
    rwa [List.drop_zero, Text.all, List.append_nil] at this
  obtain ⟨line₁, hinit, h₁⟩ := lineInit_holds hm.size
  have hnewest := newest_fits hfits p
  unfold updateMatch
  rw [hcstr, Option.bind_eq_bind, Option.bind_some, historyReverseSearch_eq hh, Option.bind_eq_bind, Option.bind_some, hinit,
    Option.bind_eq_bind, Option.bind_some]
  unfold newest at hnewest ⊢
  cases hfind : commands.reverse.find? fun command => p <:+: command with
  | none => exact ⟨line₁, rfl, h₁⟩
  | some command =>
    rw [hfind] at hnewest
    obtain ⟨line₂, hinsert, h₂⟩ := lineInsertString_holds h₁ hnewest.1
    have htake : command.take (255 - (([] : List UInt8).length + ([] : List UInt8).length)) = command :=
      List.take_of_length_le hnewest.2
    rw [List.nil_append, Option.getD_some, htake] at h₂
    exact ⟨line₂, hinsert, h₂⟩

theorem SearchKey.cases {key : UInt8} (hkey : SearchKey key) :
    (key = 127 ∨ key = 8) ∨ ¬(key = 127 ∨ key = 8) ∧ key ≠ 13 ∧ key ≠ 7 ∧ key ≠ 0 ∧ Terminal.isPrintable key = true := by
  rcases hkey with hprint | h8 | h127
  · refine .inr ⟨?_, ?_, ?_, ?_, hprint⟩
    · rintro (rfl | rfl)
      · exact absurd hprint (by decide)
      · exact absurd hprint (by decide)
    all_goals
      rintro rfl
      exact absurd hprint (by decide)
  · exact .inl (.inr h8)
  · exact .inl (.inl h127)

omit [DecidableEq ι] in
/-- **The loop, up to Enter.** -/
theorem searchLoop_eq {l : List ι} (hh : h.Holds l commands) (hfits : Typed commands) (line : Line)
    {pattern matched : Line} (carriageReturn : Bool) (hp : pattern.Holds ⟨p, []⟩) (hm : matched.Holds ⟨m, []⟩)
    {keys : List UInt8} (hkeys : ∀ key ∈ keys, SearchKey key) :
    ∃ searched, searchLoop h line pattern matched carriageReturn (keys ++ [10]) = some searched ∧
      searched.line.Holds ⟨(keys.foldl (typeSearch commands) (p, m)).2, []⟩ ∧ searched.newline = true := by
  induction keys generalizing pattern matched p m with
  | nil => exact ⟨⟨matched, pattern, matched, carriageReturn, true, []⟩, rfl, hm, rfl⟩
  | cons key keys ih =>
    obtain ⟨hkey, hkeys⟩ := List.forall_mem_cons.mp hkeys
    rw [List.cons_append, List.foldl_cons]
    unfold searchLoop
    rcases hkey.cases with hdelete | ⟨hdelete, hne13, hne7, hne0, hprint⟩
    · rw [if_pos hdelete]
      have htype : typePattern p key = p.dropLast := if_pos hdelete
      rcases List.eq_nil_or_concat' p with rfl | ⟨q, c, rfl⟩
      · -- there is nothing to delete
        have hlength : pattern.length = 0 := hp.length
        rw [if_pos hlength]
        have hsame : typeSearch commands ([], m) key = ([], m) := if_pos htype
        rw [hsame]
        exact ih hp hm hkeys
      · have hlength : ¬pattern.length = 0 := by
          rw [hp.length]
          simp
          omega
        rw [List.dropLast_concat] at htype
        have hstep : typeSearch commands (q ++ [c], m) key = (q, newest commands q) := by
          unfold typeSearch
          rw [htype, if_neg (by simp)]
        obtain ⟨line₁, hseek, h₁⟩ := lineSeek_left hp
        obtain ⟨line₂, hdel, h₂⟩ := lineDelete_of_cons h₁
        obtain ⟨matched', hupdate, hm'⟩ := updateMatch_holds hh hfits h₂ hm
        rw [if_neg hlength, hseek, hdel, Option.bind_eq_bind, Option.bind_some, hupdate, hstep]
        exact ih h₂ hm' hkeys
    · rw [if_neg hdelete, if_neg hne13, if_neg hne7, if_pos hprint]
      have hfitsPattern := hp.fits
      dsimp only [List.length_nil] at hfitsPattern
      by_cases hfull : p.length = 255
      · have htype : typePattern p key = p := by
          unfold typePattern
          rw [if_neg hdelete, if_pos hfull]
        have hsame : typeSearch commands (p, m) key = (p, m) := if_pos htype
        rw [lineInsert_of_full hp hfull, hsame]
        exact ih hp hm hkeys
      · have hstep : typeSearch commands (p, m) key = (p ++ [key], newest commands (p ++ [key])) := by
          unfold typeSearch typePattern
          rw [if_neg hdelete, if_neg hfull, if_neg (by simp)]
        obtain ⟨line₁, hinsert, h₁⟩ := lineInsert_of_room hp (by rw [List.length_nil]; omega) hne0
        obtain ⟨matched', hupdate, hm'⟩ := updateMatch_holds hh hfits h₁ hm
        rw [hinsert, Option.bind_eq_bind, Option.bind_some]
        dsimp only
        rw [if_pos rfl, hupdate, hstep]
        exact ih h₁ hm' hkeys

end Loop

/-! ## Keys and patterns -/

section Patterns

variable {commands : List (List UInt8)} {keys : List UInt8}

/-- The match that the keys leave. -/
def matchOf (commands : List (List UInt8)) (keys : List UInt8) : List UInt8 :=
  (keys.foldl (typeSearch commands) ([], [])).2

/-- The match is searched for whenever the pattern changes, so it is the one for the pattern or that of the start. -/
theorem foldl_typeSearch (commands : List (List UInt8)) (keys : List UInt8) :
    (keys.foldl (typeSearch commands) ([], [])).1 = patternOf keys ∧
      (matchOf commands keys = newest commands (patternOf keys) ∨ matchOf commands keys = [] ∧ patternOf keys = []) := by
  unfold matchOf patternOf
  induction keys using List.reverseRecOn with
  | nil => exact ⟨rfl, .inr ⟨rfl, rfl⟩⟩
  | append_singleton keys key ih =>
    rw [List.foldl_append, List.foldl_append, List.foldl_cons, List.foldl_cons, List.foldl_nil, List.foldl_nil]
    generalize keys.foldl (typeSearch commands) ([], []) = state at *
    generalize keys.foldl typePattern [] = pattern at *
    obtain ⟨rfl, hmatch⟩ := ih
    unfold typeSearch
    split
    next hsame => exact ⟨hsame.symm ▸ rfl, by rwa [hsame]⟩
    next => exact ⟨rfl, .inl rfl⟩

theorem matchOf_of_ne (hne : patternOf keys ≠ []) : matchOf commands keys = newest commands (patternOf keys) :=
  (foldl_typeSearch commands keys).2.resolve_right fun h => hne h.2

theorem matchOf_nil (keys : List UInt8) : matchOf [] keys = [] := by
  rcases (foldl_typeSearch [] keys).2 with h | h
  · exact h
  · exact h.1

theorem patternOf_snoc (keys : List UInt8) (key : UInt8) : patternOf (keys ++ [key]) = typePattern (patternOf keys) key := by
  unfold patternOf
  rw [List.foldl_append]
  rfl

theorem matchOf_snoc (keys : List UInt8) (key : UInt8) : matchOf commands (keys ++ [key]) =
    if typePattern (patternOf keys) key = patternOf keys then matchOf commands keys
    else newest commands (typePattern (patternOf keys) key) := by
  have hpattern := (foldl_typeSearch commands keys).1
  unfold matchOf
  rw [List.foldl_append, List.foldl_cons, List.foldl_nil, ← hpattern]
  generalize keys.foldl (typeSearch commands) ([], []) = state
  unfold typeSearch
  split
  next => rfl
  next => rfl

/-- The newest command contains the empty pattern. -/
theorem newest_empty_ne (hfits : Typed commands) (hne : commands ≠ []) : newest commands [] ≠ [] := by
  obtain ⟨older, command, rfl⟩ : ∃ older command, commands = older ++ [command] :=
    ⟨_, _, (List.dropLast_append_getLast hne).symm⟩
  have hfind : newest (older ++ [command]) [] = command := by
    unfold newest
    rw [List.reverse_append, List.reverse_singleton, List.singleton_append,
      List.find?_cons_of_pos (by simp), Option.getD_some]
  rw [hfind]
  exact (hfits command (List.mem_append_right _ List.mem_cons_self)).1

/-- A character that is taken and deleted again. -/
theorem matchOf_type_delete {c d : UInt8} (hc : ¬(c = 127 ∨ c = 8)) (hd : d = 127 ∨ d = 8)
    (hroom : (patternOf keys).length ≠ 255) : matchOf commands (keys ++ [c, d]) = newest commands (patternOf keys) := by
  have hfirst : typePattern (patternOf keys) c = patternOf keys ++ [c] := by
    unfold typePattern
    rw [if_neg hc, if_neg hroom]
  have hsecond : typePattern (patternOf keys ++ [c]) d = patternOf keys := by
    unfold typePattern
    rw [if_pos hd, List.dropLast_concat]
  rw [List.append_cons, matchOf_snoc, patternOf_snoc, hfirst, hsecond, if_neg (by simp)]

/-- A full pattern ignores the character, and its last one is deleted. -/
theorem matchOf_ignore_delete {c d : UInt8} (hc : ¬(c = 127 ∨ c = 8)) (hd : d = 127 ∨ d = 8)
    (hfull : (patternOf keys).length = 255) :
    matchOf commands (keys ++ [c, d]) = newest commands (patternOf keys).dropLast := by
  have hfirst : typePattern (patternOf keys) c = patternOf keys := by
    unfold typePattern
    rw [if_neg hc, if_pos hfull]
  have hsecond : typePattern (patternOf keys) d = (patternOf keys).dropLast := if_pos hd
  have hne : (patternOf keys).dropLast ≠ patternOf keys := by
    intro heq
    have hlen := congrArg List.length heq
    rw [List.length_dropLast] at hlen
    omega
  rw [List.append_cons, matchOf_snoc, patternOf_snoc, hfirst, hsecond, if_neg hne]

end Patterns

/-! ## The result -/

omit [DecidableEq ι] in
/-- What Enter executes is a function of the pattern that the keys leave; a character that is typed and deleted again
changes nothing; a pattern finds the most recent command that contains it. -/
structure PathIndependent (commands : List (List UInt8)) (searched : List UInt8 → Option (List UInt8)) (keys : List UInt8) :
    Prop where
  same : ∀ keys', (∀ key ∈ keys', SearchKey key) → patternOf keys' = patternOf keys → searched keys' = searched keys
  restored : ∀ c d, Terminal.isPrintable c = true → d = 127 ∨ d = 8 → searched (keys ++ [c, d]) = searched keys
  found : patternOf keys ≠ [] → searched keys = some (newest commands (patternOf keys))

section Result

variable {h₀ h : History ι}

omit [DecidableEq ι] in
theorem reverseSearched_eq {l : List ι} {commands : List (List UInt8)} (hh : h.Holds l commands) (hfits : Typed commands)
    (line : Line) {pattern matched : Line} (hpattern : pattern.buf.length = 256) (hmatched : matched.buf.length = 256)
    {keys : List UInt8} (hkeys : ∀ key ∈ keys, SearchKey key) :
    reverseSearched h line pattern matched keys = some (matchOf commands keys) := by
  obtain ⟨pattern', hinit, hp⟩ := lineInit_holds hpattern
  obtain ⟨matched', hinit', hm⟩ := lineInit_holds hmatched
  obtain ⟨searched, hloop, hline, -⟩ := searchLoop_eq hh hfits line false hp hm hkeys
  unfold reverseSearched handleCtrlR
  rw [hinit, Option.bind_eq_bind, Option.bind_some, hinit', Option.bind_some, hloop, Option.map_some, hline.text_eq]
  exact congrArg some (List.append_nil _)

omit [DecidableEq ι] in
theorem not_delete {c : UInt8} (hc : Terminal.isPrintable c = true) : ¬(c = 127 ∨ c = 8) := by
  rintro (rfl | rfl)
  · exact absurd hc (by decide)
  · exact absurd hc (by decide)

omit [DecidableEq ι] in
theorem searchKeys_type_delete {keys : List UInt8} (hkeys : ∀ key ∈ keys, SearchKey key) {c d : UInt8}
    (hc : Terminal.isPrintable c = true) (hd : d = 127 ∨ d = 8) : ∀ key ∈ keys ++ [c, d], SearchKey key := by
  intro key hkey
  rcases List.mem_append.mp hkey with hold | hnew
  · exact hkeys key hold
  · rcases List.mem_cons.mp hnew with rfl | hlast
    · exact .inl hc
    · rw [List.mem_singleton.mp hlast]
      exact .inr hd.symm

section

variable {commands : List (List UInt8)} {searched : List UInt8 → Option (List UInt8)} {keys : List UInt8}

omit [DecidableEq ι] in
/-- Keys that leave no pattern find nothing, or the newest command. -/
theorem PathIndependent.condition (h : PathIndependent commands searched keys) (hfits : Typed commands)
    (hsearched : ∀ keys, (∀ key ∈ keys, SearchKey key) → searched keys = some (matchOf commands keys))
    (hkeys : ∀ key ∈ keys, SearchKey key) : commands = [] ∨ patternOf keys ≠ [] ∧
      ((patternOf keys).length = 255 → newest commands (patternOf keys).dropLast = newest commands (patternOf keys)) := by
  by_cases hcommands : commands = []
  · exact .inl hcommands
  have hx : Terminal.isPrintable 0x78 = true := by decide
  refine .inr ⟨fun hnil => ?_, fun hfull => ?_⟩
  · -- nothing is typed, or a character and a backspace
    have hempty : ∀ key ∈ ([] : List UInt8), SearchKey key := fun _ hkey => absurd hkey List.not_mem_nil
    have htwo : ∀ key ∈ ([0x78, 8] : List UInt8), SearchKey key := searchKeys_type_delete hempty hx (.inr rfl)
    have hfirst := h.same [] hempty hnil.symm
    have hsecond := h.same [0x78, 8] htwo hnil.symm
    rw [hsearched [] hempty] at hfirst
    rw [hsearched _ htwo, ← hfirst] at hsecond
    exact newest_empty_ne hfits hcommands (Option.some_inj.mp hsecond)
  · have hrestored := h.restored 0x78 8 hx (.inr rfl)
    have hne : patternOf keys ≠ [] := by
      intro hnil
      rw [hnil] at hfull
      cases hfull
    rw [hsearched _ (searchKeys_type_delete hkeys hx (.inr rfl)), hsearched keys hkeys,
      matchOf_ignore_delete (not_delete hx) (.inr rfl) hfull, matchOf_of_ne hne] at hrestored
    exact Option.some_inj.mp hrestored

omit [DecidableEq ι] in
theorem pathIndependent_of_condition
    (hsearched : ∀ keys, (∀ key ∈ keys, SearchKey key) → searched keys = some (matchOf commands keys))
    (hkeys : ∀ key ∈ keys, SearchKey key) (hcondition : commands = [] ∨ patternOf keys ≠ [] ∧
      ((patternOf keys).length = 255 → newest commands (patternOf keys).dropLast = newest commands (patternOf keys))) :
    PathIndependent commands searched keys where
  same keys' hkeys' hsame := by
    rw [hsearched keys' hkeys', hsearched keys hkeys]
    rcases hcondition with rfl | ⟨hne, -⟩
    · rw [matchOf_nil, matchOf_nil]
    · rw [matchOf_of_ne hne, matchOf_of_ne (hsame.symm ▸ hne), hsame]
  restored c d hc hd := by
    rw [hsearched _ (searchKeys_type_delete hkeys hc hd), hsearched keys hkeys]
    rcases hcondition with rfl | ⟨hne, hfull⟩
    · rw [matchOf_nil, matchOf_nil]
    · rw [matchOf_of_ne hne]
      by_cases hlen : (patternOf keys).length = 255
      · rw [matchOf_ignore_delete (not_delete hc) hd hlen, hfull hlen]
      · rw [matchOf_type_delete (not_delete hc) hd hlen]
  found hne := by rw [hsearched keys hkeys, matchOf_of_ne hne]

end

/-- **The match depends on the pattern only** just when there is no command, or the pattern that is left is neither
empty nor full with another match for its first 254 characters. -/
theorem search_path_independent (h₀ : History ι) (hsize : h₀.line.buf.length = 256) {tr : List (HistoryOp ι)}
    (hr : (historySystem h₀).Run tr (some h)) (line : Line) {pattern matched : Line} (hpattern : pattern.buf.length = 256)
    (hmatched : matched.buf.length = 256) {keys : List UInt8} (hkeys : ∀ key ∈ keys, SearchKey key) :
    let commands := recent 64 (tr.filterMap HistoryOp.command?)
    PathIndependent commands (reverseSearched h line pattern matched) keys ↔
      commands = [] ∨ patternOf keys ≠ [] ∧
        ((patternOf keys).length = 255 → newest commands (patternOf keys).dropLast = newest commands (patternOf keys)) := by
  obtain ⟨⟨h', front, back, saved, hs, hn⟩, hfits⟩ := run_history hsize hr
  cases hs
  intro commands
  have hsearched : ∀ keys, (∀ key ∈ keys, SearchKey key) →
      reverseSearched h line pattern matched keys = some (matchOf commands keys) :=
    fun keys => reverseSearched_eq hn.holds hfits line hpattern hmatched
  exact ⟨fun hindependent => hindependent.condition hfits hsearched hkeys, pathIndependent_of_condition hsearched hkeys⟩

end Result

/-- Four commands, two of them with `ls` in them. -/
def fourCommands : List (List UInt8) := ["ls", "cat a", "ls -l", "ps"].map bytesOf

/-- They are executed, each one in the next place. -/
def executeFour : List (HistoryOp ℕ) := fourCommands.mapIdx fun i command => .execute (typedLine command) i

/-- `l`, `x`, a backspace and `s`: the newer command with `ls` is found. -/
theorem search_path_independent_l : ∃ h,
    executeFour.foldl (historySystem emptyHistory).next (historySystem emptyHistory).start = some h ∧
      PathIndependent fourCommands (reverseSearched h (typedLine []) (typedLine []) (typedLine [])) [0x6c, 0x78, 8, 0x73] ∧
      reverseSearched h (typedLine []) (typedLine []) (typedLine []) [0x6c, 0x78, 8, 0x73] = some (bytesOf "ls -l") := by
  have hempty : (typedLine []).buf.length = 256 := (typedLine_holds NulFree.nil (Nat.zero_le _)).size
  have hrun : (historySystem emptyHistory).Run executeFour _ := (System.path_of_runs (by decide +kernel)).run
  obtain ⟨⟨h, _, _, _, hs, -⟩, -⟩ := run_history hempty hrun
  rw [hs] at hrun
  have hkeys : ∀ key ∈ ([0x6c, 0x78, 8, 0x73] : List UInt8), SearchKey key := by
    intro key hkey
    simp only [List.mem_cons, List.not_mem_nil, or_false] at hkey
    rcases hkey with rfl | rfl | rfl | rfl
    · exact .inl (by decide)
    · exact .inl (by decide)
    · exact .inr (.inl rfl)
    · exact .inl (by decide)
  have hresult := search_path_independent emptyHistory hempty hrun (typedLine []) hempty hempty hkeys
  have hcommands : recent 64 (executeFour.filterMap HistoryOp.command?) = fourCommands := by decide +kernel
  rw [hcommands] at hresult
  have hpattern : patternOf [0x6c, 0x78, 8, 0x73] = [0x6c, 0x73] := by decide
  have hindependent := hresult.mpr (.inr ⟨by rw [hpattern]; exact List.cons_ne_nil _ _, fun hfull => by
    rw [hpattern] at hfull
    cases hfull⟩)
  refine ⟨h, hs, hindependent, (hindependent.found (by rw [hpattern]; exact List.cons_ne_nil _ _)).trans ?_⟩
  rw [hpattern]
  decide

/-- A character and a backspace leave the newest command as the match, and no key at all the empty line. -/
theorem deleted_character_matches : ∃ h,
    (historySystem emptyHistory).next (historySystem emptyHistory).start executeLs = some h ∧
      patternOf [0x78, 8] = patternOf [] ∧
      reverseSearched h (typedLine []) (typedLine []) (typedLine []) [] = some [] ∧
      reverseSearched h (typedLine []) (typedLine []) (typedLine []) [0x78, 8] = some [0x6c, 0x73] := by
  have hempty : (typedLine []).buf.length = 256 := (typedLine_holds NulFree.nil (Nat.zero_le _)).size
  obtain ⟨⟨h, _, _, _, hs, -⟩, -⟩ := run_history hempty run_executeLs
  have hnone : (((historySystem emptyHistory).next (historySystem emptyHistory).start executeLs).bind fun h =>
      reverseSearched h (typedLine []) (typedLine []) (typedLine []) []) = some [] := by decide +kernel
  have htwo : (((historySystem emptyHistory).next (historySystem emptyHistory).start executeLs).bind fun h =>
      reverseSearched h (typedLine []) (typedLine []) (typedLine []) [0x78, 8]) = some [0x6c, 0x73] := by decide +kernel
  rw [hs, Option.bind_some] at hnone htwo
  exact ⟨h, hs, rfl, hnone, htwo⟩

end Monolinux
