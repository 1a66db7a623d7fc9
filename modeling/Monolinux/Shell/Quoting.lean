import Monolinux.Shell.Grammar

/-!
# Quoted arguments

`commandLine` writes each argument between double quotes, with a backslash in front of
every double quote in it, and joins them with spaces.

* `readArgument_quote`: `parse_argument` reads the argument back;
* `quoted_arguments_parsed`: `parse_command` reads all of them back.
-/

namespace Monolinux

/-- Every double quote is preceded by a backslash. -/
def escape : List UInt8 → List UInt8
  | [] => []
  | c :: s => if c = 0x22 then 0x5c :: 0x22 :: escape s else c :: escape s

def quote (s : List UInt8) : List UInt8 := 0x22 :: (escape s ++ [0x22])

def commandLine : List (List UInt8) → List UInt8
  | [] => []
  | [s] => quote s
  | s :: args => quote s ++ 0x20 :: commandLine args

theorem escape_nulFree {s : List UInt8} (hs : NulFree s) : NulFree (escape s) := by
  induction s with
  | nil => exact NulFree.nil
  | cons c s ih =>
    obtain ⟨hc, hs⟩ := nulFree_cons.mp hs
    unfold escape
    split
    · exact nulFree_cons.mpr ⟨by decide, nulFree_cons.mpr ⟨by decide, ih hs⟩⟩
    · exact nulFree_cons.mpr ⟨hc, ih hs⟩

theorem quote_nulFree {s : List UInt8} (hs : NulFree s) : NulFree (quote s) :=
  nulFree_cons.mpr ⟨by decide, nulFree_append.mpr ⟨escape_nulFree hs, nulFree_cons.mpr ⟨by decide, NulFree.nil⟩⟩⟩

theorem commandLine_nulFree {args : List (List UInt8)} (hargs : ∀ s ∈ args, NulFree s) : NulFree (commandLine args) := by
  induction args with
  | nil => exact NulFree.nil
  | cons s args ih =>
    obtain ⟨hs, hargs⟩ := List.forall_mem_cons.mp hargs
    cases args with
    | nil => exact quote_nulFree hs
    | cons s' args => exact nulFree_append.mpr ⟨quote_nulFree hs, nulFree_cons.mpr ⟨by decide, ih hargs⟩⟩

/-- The closing quote is not escaped. -/
theorem escape_head_ne {s : List UInt8} (hs : s ≠ []) (rest : List UInt8) : (escape s ++ rest).head? ≠ some 0x22 := by
  obtain ⟨c, s, rfl⟩ := List.exists_cons_of_ne_nil hs
  unfold escape
  split
  · simp
  · next hc => simpa using hc

/-- Between quotes an escaped string is read back, up to the closing quote. -/
theorem readArgument_escape {s : List UInt8} (hs : s.getLast? ≠ some 0x5c) (rest : List UInt8) :
    readArgument true (escape s ++ 0x22 :: rest) =
      { readArgument false rest with arg := s ++ (readArgument false rest).arg } := by
  induction s with
  | nil =>
    show readArgument true (0x22 :: rest) = _
    rw [readArgument, if_pos rfl]
    · rfl
    · exact fun _ h => absurd h (by decide)
  | cons c s ih =>
    have hlast : s.getLast? ≠ some 0x5c := by
      intro h
      apply hs
      rw [List.getLast?_cons, h]
      rfl
    unfold escape
    by_cases hc : c = 0x22
    · rw [if_pos hc, List.cons_append, List.cons_append, readArgument, ih hlast, hc]
      rfl
    · rw [if_neg hc, List.cons_append, readArgument, if_neg hc, if_neg (fun h => Bool.noConfusion h.2), ih hlast]
      · rfl
      · -- a backslash is not the last character, and no escaped string starts with a quote
        rintro s' hbackslash hnext
        have hne : s ≠ [] := by
          rintro rfl
          exact hs (by rw [hbackslash]; rfl)
        exact escape_head_ne hne (0x22 :: rest) (by rw [hnext]; rfl)

theorem readArgument_quote {s : List UInt8} (hs : s.getLast? ≠ some 0x5c) (rest : List UInt8) :
    readArgument false (quote s ++ rest) =
      { readArgument false rest with arg := s ++ (readArgument false rest).arg } := by
  have hquote : quote s ++ rest = 0x22 :: (escape s ++ 0x22 :: rest) := by simp [quote]
  rw [hquote, readArgument, if_pos rfl, Bool.not_false, readArgument_escape hs rest]
  exact fun _ h => absurd h (by decide)

/-- A command line starts and ends with a double quote. -/
theorem commandLine_ends {args : List (List UInt8)} (hne : args ≠ []) :
    (∃ tail, commandLine args = 0x22 :: tail) ∧ ∃ init, commandLine args = init ++ [0x22] := by
  induction args with
  | nil => exact absurd rfl hne
  | cons s args ih =>
    cases args with
    | nil => exact ⟨⟨_, rfl⟩, 0x22 :: escape s, rfl⟩
    | cons s' args =>
      obtain ⟨-, init, hinit⟩ := ih (List.cons_ne_nil _ _)
      refine ⟨⟨_, rfl⟩, quote s ++ 0x20 :: init, ?_⟩
      show quote s ++ 0x20 :: commandLine (s' :: args) = _
      rw [hinit]
      simp

theorem strip_commandLine (args : List (List UInt8)) : strip (commandLine args) = commandLine args := by
  by_cases hne : args = []
  · rw [hne]
    rfl
  obtain ⟨⟨tail, htail⟩, init, hinit⟩ := commandLine_ends hne
  have hquote : ¬isspace 0x22 = true := by decide
  unfold strip
  rw [hinit, List.rdropWhile_concat_neg _ _ _ hquote, ← hinit, htail, List.dropWhile_cons_of_neg hquote]

theorem readArguments_commandLine {args : List (List UInt8)} (hargs : ∀ s ∈ args, s.getLast? ≠ some 0x5c) :
    readArguments (commandLine args) = some args := by
  induction args with
  | nil => rw [commandLine, readArguments]
  | cons s args ih =>
    obtain ⟨hs, hargs⟩ := List.forall_mem_cons.mp hargs
    have hquote : ¬isspace 0x22 = true := by decide
    have hcons (rest : List UInt8) : (quote s ++ rest).dropWhile isspace = quote s ++ rest :=
      List.dropWhile_cons_of_neg hquote
    -- behind the closing quote there is nothing, or a space and the other arguments
    have hread (rest : List UInt8) : readArguments (quote s ++ rest) =
        if (readArgument false rest).quoteOpen then none
        else (readArguments (readArgument false rest).rest).map ((s ++ (readArgument false rest).arg) :: ·) := by
      show readArguments (0x22 :: (escape s ++ [0x22] ++ rest)) = _
      rw [readArguments_cons]
      show (if (readArgument false ((quote s ++ rest).dropWhile isspace)).quoteOpen then none
        else (readArguments (readArgument false ((quote s ++ rest).dropWhile isspace)).rest).map
          ((readArgument false ((quote s ++ rest).dropWhile isspace)).arg :: ·)) = _
      rw [hcons, readArgument_quote hs]
    cases args with
    | nil =>
      have := hread []
      rw [List.append_nil] at this
      rw [commandLine, this]
      simp [readArgument, readArguments]
    | cons s' args =>
      have hspace : readArgument false (0x20 :: commandLine (s' :: args)) = ⟨[], commandLine (s' :: args), false⟩ := by
        rw [readArgument, if_neg (by decide), if_pos ⟨rfl, rfl⟩]
        exact fun _ h => absurd h (by decide)
      show readArguments (quote s ++ 0x20 :: commandLine (s' :: args)) = _
      rw [hread, hspace]
      simp [ih hargs]

/-- **Any list of arguments can be passed through the shell.** -/
theorem quoted_arguments_parsed (args : List (List UInt8)) (hne : 1 ≤ args.length) (hlen : args.length ≤ 32)
    (hfree : ∀ s ∈ args, NulFree s) (hend : ∀ s ∈ args, s.getLast? ≠ some 0x5c) (argv : List ℤ)
    (hargv : argv.length = 32) :
    ∃ mem argv', parseCommand (commandLine args ++ [0]) 0 argv = some (mem, argv', (args.length : ℤ)) ∧
      argv'.length = 32 ∧ LaidOut mem 0 (argv'.take args.length) args := by
  have hne' : args ≠ [] := List.ne_nil_of_length_pos hne
  have htok : tokenize (commandLine args) = some args := by
    obtain ⟨⟨tail, htail⟩, -⟩ := commandLine_ends hne'
    unfold tokenize
    rw [strip_commandLine, if_neg (by rw [htail]; exact List.cons_ne_nil _ _), readArguments_commandLine hend,
      Option.filter_some, if_pos (by simpa using hlen)]
  obtain ⟨mem, argv', res, hrun, -, hargv', hout⟩ := parseCommand_eq (commandLine_nulFree hfree) hargv
  rw [htok] at hout
  obtain ⟨hres, hlaid⟩ := hout
  refine ⟨mem, argv', ?_, hargv', hlaid⟩
  rw [hrun, hres]
  simp

/-- The empty argument, a space, and a backslash in front of a quote. -/
theorem quoted_arguments_parsed_three :
    ∃ mem argv', parseCommand (commandLine [[], [0x20], [0x5c, 0x22]] ++ [0]) 0 (List.replicate 32 0) =
      some (mem, argv', 3) ∧ LaidOut mem 0 (argv'.take 3) [[], [0x20], [0x5c, 0x22]] := by
  obtain ⟨mem, argv', hrun, -, hlaid⟩ := quoted_arguments_parsed [[], [0x20], [0x5c, 0x22]] (by decide) (by decide)
    (by decide) (by decide) (List.replicate 32 0) List.length_replicate
  exact ⟨mem, argv', hrun, hlaid⟩

end Monolinux
