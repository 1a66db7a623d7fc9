import Monolinux.Shell.Parse
import Mathlib.Data.List.Infix

/-!
# The grammar of a command

`tokenize` is a grammar for the lines of the shell: strip white space at both ends,
then, until the rest is empty, skip white space and read one argument.

* `parseArgumentLoop_eq`: `parse_argument` leaves the argument in the memory, with the
  rest of the line behind it;
* `parse_command_tokenizes`: `parse_command` ends, stays inside the line and inside
  `argv`, and its result is that of the grammar.
-/

namespace Monolinux

/-! ## The grammar -/

/-- An argument, the rest of the line behind it, and if it ended in a quote. -/
structure Argument where
  arg : List UInt8
  rest : List UInt8
  quoteOpen : Bool
  deriving DecidableEq, Repr

def Argument.push (c : UInt8) (a : Argument) : Argument := { a with arg := c :: a.arg }

@[simp] theorem Argument.push_arg (c : UInt8) (a : Argument) : (a.push c).arg = c :: a.arg := rfl

@[simp] theorem Argument.push_rest (c : UInt8) (a : Argument) : (a.push c).rest = a.rest := rfl

@[simp] theorem Argument.push_quoteOpen (c : UInt8) (a : Argument) : (a.push c).quoteOpen = a.quoteOpen := rfl

/-- A double quote toggles quoting and is dropped, a backslash directly followed by a double
quote is that quote, and a space that is not quoted ends the argument. -/
def readArgument (inQuote : Bool) : List UInt8 → Argument
  | [] => ⟨[], [], inQuote⟩
  | 0x5c :: 0x22 :: s => (readArgument inQuote s).push 0x22
  | c :: s =>
    if c = 0x22 then readArgument (!inQuote) s
    else if c = 0x20 ∧ inQuote = false then ⟨[], s, false⟩
    else (readArgument inQuote s).push c

theorem readArgument_suffix (inQuote : Bool) (s : List UInt8) : (readArgument inQuote s).rest <:+ s := by
  fun_induction readArgument inQuote s with
  | case1 => exact List.suffix_rfl
  | case2 inQuote s ih => exact ih.trans ((List.suffix_cons _ _).trans (List.suffix_cons _ _))
  | case3 inQuote s _ ih => exact ih.trans (List.suffix_cons _ _)
  | case4 inQuote c s => exact List.suffix_cons _ _
  | case5 inQuote c s _ _ _ ih => exact ih.trans (List.suffix_cons _ _)

/-- What is read is taken from the line. -/
theorem readArgument_length (inQuote : Bool) (s : List UInt8) :
    (readArgument inQuote s).rest.length ≤ s.length - 1 := by
  fun_induction readArgument inQuote s with
  | case1 => exact Nat.le_refl _
  | case2 inQuote s ih =>
    simp only [Argument.push_rest, List.length_cons]
    omega
  | case3 inQuote s _ ih =>
    rw [List.length_cons]
    omega
  | case4 inQuote c s => exact Nat.le_refl _
  | case5 inQuote c s _ _ _ ih =>
    simp only [Argument.push_rest, List.length_cons]
    omega

theorem readArgument_arg_nulFree (inQuote : Bool) {s : List UInt8} (hs : NulFree s) :
    NulFree (readArgument inQuote s).arg := by
  fun_induction readArgument inQuote s with
  | case1 => exact NulFree.nil
  | case2 inQuote s ih => exact nulFree_cons.mpr ⟨by decide, ih (nulFree_cons.mp (nulFree_cons.mp hs).2).2⟩
  | case3 inQuote s _ ih => exact ih (nulFree_cons.mp hs).2
  | case4 inQuote c s => exact NulFree.nil
  | case5 inQuote c s _ _ _ ih => exact nulFree_cons.mpr ⟨(nulFree_cons.mp hs).1, ih (nulFree_cons.mp hs).2⟩

theorem readArgument_dropWhile_length (c : UInt8) (s : List UInt8) :
    (readArgument false ((c :: s).dropWhile isspace)).rest.length < (c :: s).length := by
  have hread := readArgument_length false ((c :: s).dropWhile isspace)
  have hdrop := (List.dropWhile_sublist isspace (l := c :: s)).length_le
  rw [List.length_cons] at hdrop ⊢
  omega

/-- The arguments of a line, if no quote is left open. -/
def readArguments : List UInt8 → Option (List (List UInt8))
  | [] => some []
  | c :: s =>
    let a := readArgument false ((c :: s).dropWhile isspace)
    if a.quoteOpen then none else (readArguments a.rest).map (a.arg :: ·)
termination_by s => s.length
decreasing_by exact readArgument_dropWhile_length c s

/-- The arguments of a command: at least one, and not more than 32. -/
def tokenize (line : List UInt8) : Option (List (List UInt8)) :=
  if strip line = [] then none else (readArguments (strip line)).filter (·.length ≤ 32)

/-! ## One argument -/

theorem removeChar_eq (front : List UInt8) (c : UInt8) {s : List UInt8} (back : List UInt8) (hs : NulFree s) :
    removeChar (front ++ c :: (s ++ 0 :: back)) front.length = some (front ++ (s ++ 0 :: 0 :: back)) := by
  have hmem : front ++ c :: (s ++ 0 :: back) = (front ++ [c]) ++ (s ++ 0 :: back) := by simp
  have hline : (front.length : ℤ) + 1 = ((front ++ [c]).length : ℕ) := by simp
  have hlen := strlen_eq (front ++ [c]) back hs
  unfold removeChar
  rw [hmem, hline, hlen, ← hmem, ← hline]
  exact memmove_tail front c s back

/-- `front'` is what is in front of the rest of the line once `a` has been read behind `front`. -/
def Argument.Leaves (a : Argument) (front front' : List UInt8) : Prop :=
  front' = front ++ (a.arg ++ [0]) ∨ (a.rest = [] ∧ front' = front ++ a.arg)

theorem Argument.Leaves.push {a : Argument} {front front' : List UInt8} {c : UInt8}
    (h : a.Leaves (front ++ [c]) front') : (a.push c).Leaves front front' := by
  rcases h with h | ⟨hrest, h⟩
  · left
    simpa using h
  · right
    exact ⟨hrest, by simpa using h⟩

/-- **`parse_argument`.** -/
theorem parseArgumentLoop_eq (inQuote : Bool) {s : List UInt8} (hs : NulFree s) (front back : List UInt8) (fuel : ℕ)
    (hfuel : s.length < fuel) :
    ∃ front' back', parseArgumentLoop fuel (front ++ (s ++ 0 :: back)) front.length inQuote =
        some (front' ++ ((readArgument inQuote s).rest ++ 0 :: back'), (front'.length : ℤ),
          (readArgument inQuote s).quoteOpen) ∧
      (readArgument inQuote s).Leaves front front' ∧
      front'.length + (readArgument inQuote s).rest.length + back'.length = front.length + s.length + back.length := by
  obtain ⟨fuel, rfl⟩ : ∃ k, fuel = k + 1 := ⟨fuel - 1, by omega⟩
  -- what the loop does with the line behind `c`
  have hnext (front : List UInt8) (c : UInt8) (rest : List UInt8) : front ++ [c] ++ rest = front ++ c :: rest ∧
      ((front ++ [c]).length : ℤ) = front.length + 1 := by simp
  fun_induction readArgument inQuote s generalizing front back fuel with
  | case1 inQuote =>
    refine ⟨front, back, ?_, .inr ⟨rfl, (List.append_nil _).symm⟩, by simp⟩
    unfold parseArgumentLoop
    rw [List.nil_append, load_eq]
    rfl
  | case2 inQuote s ih =>
    have hs' : NulFree s := (nulFree_cons.mp (nulFree_cons.mp hs).2).2
    simp only [List.length_cons] at hfuel
    obtain ⟨fuel, rfl⟩ : ∃ k, fuel = k + 1 := ⟨fuel - 1, by omega⟩
    obtain ⟨front', back', hloop, hleaves, hlen⟩ := ih hs' (front ++ [0x22]) (0 :: back) fuel (by omega)
    refine ⟨front', back', ?_, hleaves.push, ?_⟩
    · obtain ⟨hmem, hline⟩ := hnext front 0x5c (0x22 :: (s ++ 0 :: back))
      have hquote : load (front ++ 0x5c :: (0x22 :: s ++ 0 :: back)) (front.length + 1) = some 0x22 := by
        rw [List.cons_append, ← hmem, ← hline]
        exact load_eq _ _ _
      have hremove := removeChar_eq front 0x5c back (nulFree_cons.mp hs).2
      rw [(hnext front 0x22 _).1, (hnext front 0x22 []).2] at hloop
      unfold parseArgumentLoop
      rw [List.cons_append, load_eq]
      simp only [Option.bind_eq_bind, Option.bind_some, if_neg (show ¬(0x5c : UInt8) = 0 by decide), if_true, hquote,
        hremove]
      exact hloop
    · simp only [List.length_append, List.length_cons, List.length_nil] at hlen ⊢
      exact hlen.trans (by omega)
  | case3 inQuote s _ ih =>
    rw [List.length_cons] at hfuel
    obtain ⟨fuel, rfl⟩ : ∃ k, fuel = k + 1 := ⟨fuel - 1, by omega⟩
    obtain ⟨front', back', hloop, hleaves, hlen⟩ := ih (nulFree_cons.mp hs).2 front (0 :: back) fuel (by omega)
    refine ⟨front', back', ?_, hleaves, by rw [hlen, List.length_cons, List.length_cons]; omega⟩
    have hremove := removeChar_eq front 0x22 back (nulFree_cons.mp hs).2
    unfold parseArgumentLoop
    rw [List.cons_append, load_eq]
    cases inQuote <;> simpa [hremove] using hloop
  | case4 inQuote c s _ _ hspace =>
    obtain ⟨rfl, rfl⟩ := hspace
    refine ⟨front ++ [0], back, ?_, .inl rfl, by simp; omega⟩
    have hassign := assign_eq front 0x20 0 (s ++ 0 :: back)
    unfold parseArgumentLoop
    rw [List.cons_append, load_eq]
    simp [hassign]
  | case5 inQuote c s hescape hquote hspace ih =>
    obtain ⟨hc, hs'⟩ := nulFree_cons.mp hs
    rw [List.length_cons] at hfuel
    obtain ⟨fuel, rfl⟩ : ∃ k, fuel = k + 1 := ⟨fuel - 1, by omega⟩
    obtain ⟨front', back', hloop, hleaves, hlen⟩ := ih hs' (front ++ [c]) back fuel (by omega)
    refine ⟨front', back', ?_, hleaves.push, ?_⟩
    · rw [(hnext front c _).1, (hnext front c []).2] at hloop
      unfold parseArgumentLoop
      rw [List.cons_append, load_eq]
      by_cases hbackslash : c = 0x5c
      · -- the next character is not a quote
        obtain ⟨d, rest, hd, hdne⟩ : ∃ d rest, s ++ 0 :: back = d :: rest ∧ d ≠ 0x22 := by
          cases s with
          | nil => exact ⟨0, back, rfl, by decide⟩
          | cons d s => exact ⟨d, s ++ 0 :: back, rfl, fun h => hescape s hbackslash (by rw [h])⟩
        have hload : load (front ++ c :: (s ++ 0 :: back)) (front.length + 1) = some d := by
          rw [hd, ← (hnext front c _).1, ← (hnext front c []).2]
          exact load_eq _ _ _
        subst hbackslash
        simpa [hload, hdne] using hloop
      · cases inQuote with
        | true => simpa [hc, hbackslash, hquote] using hloop
        | false =>
          have hspace' : ¬c = 0x20 := fun h => hspace ⟨h, rfl⟩
          simpa [hc, hbackslash, hquote, hspace'] using hloop
    · simp only [List.length_append, List.length_cons, List.length_nil] at hlen ⊢
      exact hlen.trans (by omega)

theorem parseArgument_eq {s : List UInt8} (hs : NulFree s) (front back : List UInt8) :
    ∃ front' back', parseArgument (front ++ (s ++ 0 :: back)) front.length =
        some (front' ++ ((readArgument false s).rest ++ 0 :: back'),
          if (readArgument false s).quoteOpen then none else some (front'.length : ℤ), (front.length : ℤ)) ∧
      (readArgument false s).Leaves front front' ∧
      front'.length + (readArgument false s).rest.length + back'.length = front.length + s.length + back.length := by
  obtain ⟨front', back', hloop, hleaves, hlen⟩ := parseArgumentLoop_eq false hs front back
    ((front ++ (s ++ 0 :: back)).length + 1) (by simp only [List.length_append]; omega)
  refine ⟨front', back', ?_, hleaves, hlen⟩
  unfold parseArgument
  rw [hloop]
  rfl

/-! ## All arguments -/

/-- The strings `args` are at `ptrs`, one behind the NUL of the other, from `p` on. -/
inductive LaidOut (mem : List UInt8) : ℤ → List ℤ → List (List UInt8) → Prop
  | nil (p : ℤ) : LaidOut mem p [] []
  | cons {p q : ℤ} {ptrs : List ℤ} {arg : List UInt8} {args : List (List UInt8)} (hle : p ≤ q)
      (harg : cstr mem q = some arg) (hrest : LaidOut mem (q + arg.length + 1) ptrs args) :
      LaidOut mem p (q :: ptrs) (arg :: args)

theorem LaidOut.mono {mem : List UInt8} {p p' : ℤ} {ptrs : List ℤ} {args : List (List UInt8)}
    (h : LaidOut mem p ptrs args) (hle : p' ≤ p) : LaidOut mem p' ptrs args := by
  cases h with
  | nil => exact .nil p'
  | cons hpq harg hrest => exact .cons (hle.trans hpq) harg hrest

/-- An argument stays where it is as long as what is in front of the rest stays. -/
theorem cstr_of_leaves {a : Argument} {front front' mem tail : List UInt8} (harg : NulFree a.arg)
    (hleaves : a.Leaves front front') (hmem : front' <+: mem) (hend : a.rest = [] → mem = front' ++ 0 :: tail) :
    cstr mem front.length = some a.arg := by
  rcases hleaves with h | ⟨hrest, h⟩
  · obtain ⟨tail, rfl⟩ := hmem
    have := cstr_eq front tail harg
    rw [h]
    simpa using this
  · have := cstr_eq front tail harg
    rw [hend hrest, h]
    simpa using this

theorem rdropWhile_of_suffix {p : UInt8 → Bool} {s t : List UInt8} (hs : s.rdropWhile p = s) (ht : t <:+ s) :
    t.rdropWhile p = t := by
  rw [List.rdropWhile_eq_self_iff] at hs ⊢
  intro hne
  rw [ht.getLast hne]
  exact hs _

/-- The rest of a line that ends in a character is not stripped at its end. -/
theorem strip_of_stripped {s : List UInt8} (hs : s.rdropWhile isspace = s) : strip s = s.dropWhile isspace := by
  unfold strip
  rw [hs]

theorem strip_stripped (s : List UInt8) : (strip s).rdropWhile isspace = strip s :=
  rdropWhile_of_suffix (List.rdropWhile_idempotent _ _) (List.dropWhile_suffix _)

theorem readArguments_cons (c : UInt8) (s : List UInt8) : readArguments (c :: s) =
    if (readArgument false ((c :: s).dropWhile isspace)).quoteOpen then none
    else (readArguments (readArgument false ((c :: s).dropWhile isspace)).rest).map
      ((readArgument false ((c :: s).dropWhile isspace)).arg :: ·) := by
  rw [readArguments]

/-- The outcome of `parse_command` when `argc` arguments have been read in front of `p`. -/
def Outcome (mem : List UInt8) (p : ℤ) (argv : List ℤ) (argc : ℕ) (res : ℤ) : Option (List (List UInt8)) → Prop
  | none => res = -1
  | some args => res = argc + args.length ∧ LaidOut mem p ((argv.drop argc).take args.length) args

theorem filter_map_cons (arg : List UInt8) (argc : ℕ) (args : Option (List (List UInt8))) :
    (args.map (arg :: ·)).filter (argc + ·.length ≤ 32) =
      (args.filter (argc + 1 + ·.length ≤ 32)).map (arg :: ·) := by
  cases args with
  | none => rfl
  | some args =>
    have hlen : argc + (arg :: args).length = argc + 1 + args.length := by
      rw [List.length_cons]
      omega
    simp only [Option.map_some, Option.filter_some, hlen]
    by_cases h : argc + 1 + args.length ≤ 32
    · simp [h]
    · simp [h]

/-- The line has an argument more than there is room for. -/
theorem filter_readArguments_full (c : UInt8) (s : List UInt8) :
    (readArguments (c :: s)).filter (32 + ·.length ≤ 32) = none := by
  rw [readArguments_cons]
  split
  · rfl
  · rw [filter_map_cons]
    cases readArguments (readArgument false ((c :: s).dropWhile isspace)).rest with
    | none => rfl
    | some args =>
      rw [Option.filter_some, if_neg (by simp; omega)]
      rfl

theorem Argument.Leaves.mono {a : Argument} {front front' : List UInt8} (h : a.Leaves front front') : front <+: front' := by
  rcases h with h | ⟨-, h⟩
  · exact ⟨_, h.symm⟩
  · exact ⟨_, h.symm⟩

theorem Argument.Leaves.le_length {a : Argument} {front front' : List UInt8} (h : a.Leaves front front')
    (hrest : a.rest ≠ []) : (front'.length : ℤ) = front.length + a.arg.length + 1 := by
  rcases h with h | ⟨hnil, -⟩
  · rw [h]
    simp only [List.length_append, List.length_cons, List.length_nil]
    push_cast
    ring
  · exact absurd hnil hrest

/-- An argument in front of those that are laid out behind it. -/
theorem Outcome.push {a : Argument} {front spaces front' mem : List UInt8} {argv : List ℤ} {argc : ℕ} {res : ℤ}
    {args : Option (List (List UInt8))} (h : Outcome mem front'.length argv (argc + 1) res args) (tail : List UInt8)
    (harg : NulFree a.arg) (hleaves : a.Leaves (front ++ spaces) front')
    (hmem : front' <+: mem) (hend : a.rest = [] → mem = front' ++ 0 :: tail ∧ args = some [])
    (hptr : argv[argc]? = some ((front ++ spaces).length : ℤ)) :
    Outcome mem front.length argv argc res (args.map (a.arg :: ·)) := by
  cases args with
  | none => exact h
  | some args =>
    obtain ⟨hres, hlaid⟩ := h
    have hstr := cstr_of_leaves harg hleaves hmem fun hrest => (hend hrest).1
    refine ⟨by rw [hres, List.length_cons]; push_cast; ring, ?_⟩
    have hdrop : argv.drop argc = ((front ++ spaces).length : ℤ) :: argv.drop (argc + 1) := by
      obtain ⟨hlt, hget⟩ := List.getElem?_eq_some_iff.mp hptr
      rw [List.drop_eq_getElem_cons hlt, hget]
    rw [hdrop, List.length_cons, List.take_succ_cons]
    refine .cons (by simp) hstr ?_
    by_cases hrest : a.rest = []
    · obtain rfl := Option.some_inj.mp (hend hrest).2
      exact .nil _
    · rw [← hleaves.le_length hrest]
      exact hlaid

/-- **The loop of `parse_command`.**  By induction on its iterations: what is in front of the
rest of the line stays. -/
theorem parseCommandLoop_eq (fuel : ℕ) {s : List UInt8} (hs : NulFree s) (hstripped : s.rdropWhile isspace = s)
    (front back : List UInt8) (argv : List ℤ) (hargv : argv.length = 32) (argc : ℕ) (hargc : argc ≤ 32)
    (hfuel : s.length < fuel) :
    ∃ mem' argv' res,
      parseCommandLoop fuel (front ++ (s ++ 0 :: back)) front.length argv argc = some (mem', argv', res) ∧
      front <+: mem' ∧ (s = [] → mem' = front ++ (s ++ 0 :: back)) ∧
      mem'.length = (front ++ (s ++ 0 :: back)).length ∧ argv'.length = 32 ∧ argv'.take argc = argv.take argc ∧
      Outcome mem' front.length argv' argc res ((readArguments s).filter (argc + ·.length ≤ 32)) := by
  induction fuel generalizing s front back argv argc with
  | zero => exact absurd hfuel (Nat.not_lt_zero _)
  | succ fuel ih =>
    cases s with
    | nil =>
      refine ⟨front ++ ([] ++ 0 :: back), argv, argc, ?_, List.prefix_append _ _, fun _ => rfl, rfl, hargv, rfl, ?_⟩
      · unfold parseCommandLoop
        rw [List.nil_append, load_eq]
        rfl
      · rw [readArguments, Option.filter_some, if_pos (by simpa using hargc)]
        exact ⟨by simp, .nil _⟩
    | cons c s =>
      have hc : ¬c = 0 := (nulFree_cons.mp hs).1
      unfold parseCommandLoop
      rw [List.cons_append, load_eq, ← List.cons_append]
      simp only [Option.bind_eq_bind, Option.bind_some, if_neg hc]
      by_cases hfull : argc = 32
      · -- one argument too many
        subst hfull
        rw [if_pos rfl, filter_readArguments_full]
        exact ⟨_, argv, -1, rfl, List.prefix_append _ _, nofun, rfl, hargv, rfl, rfl⟩
      rw [if_neg hfull, readArguments_cons]
      obtain ⟨spaces, back₁, hstrip, hlen₁⟩ := mlStrip_eq front back hs
      rw [strip_of_stripped hstripped] at hstrip hlen₁
      rw [hstrip]
      have hdrop : (c :: s).dropWhile isspace <:+ c :: s := List.dropWhile_suffix _
      have hfree : NulFree ((c :: s).dropWhile isspace) := hs.sublist hdrop.sublist
      have hread := readArgument_dropWhile_length c s
      have hargfree := readArgument_arg_nulFree false hfree
      have hrest := readArgument_suffix false ((c :: s).dropWhile isspace)
      obtain ⟨front', back₂, hparse, hleaves, hlen₂⟩ := parseArgument_eq hfree (front ++ spaces) back₁
      generalize readArgument false ((c :: s).dropWhile isspace) = a at hread hargfree hrest hparse hleaves hlen₂ ⊢
      have hlt : argc < argv.length := by omega
      have hmemlen : (front' ++ (a.rest ++ 0 :: back₂)).length = (front ++ (c :: s ++ 0 :: back)).length := by
        simp only [List.length_append, List.length_cons] at hlen₁ hlen₂ ⊢
        omega
      have hstart : front <+: front' := (List.prefix_append _ _).trans hleaves.mono
      rw [Option.bind_some, hparse, Option.bind_some]
      simp only [if_pos hlt]
      cases hopen : a.quoteOpen with
      | true =>
        rw [if_pos rfl, if_pos rfl]
        refine ⟨_, _, -1, rfl, hstart.trans (List.prefix_append _ _), nofun, hmemlen, by simpa using hargv, ?_, rfl⟩
        rw [List.take_set_of_le (Nat.le_refl _)]
      | false =>
        rw [if_neg Bool.false_ne_true, if_neg Bool.false_ne_true]
        have hrestfree : NulFree a.rest := hfree.sublist hrest.sublist
        have hreststripped : a.rest.rdropWhile isspace = a.rest := rdropWhile_of_suffix hstripped (hrest.trans hdrop)
        obtain ⟨mem', argv', res, hrun, hpre, hend, hlen', hargv', htake, hout⟩ :=
          ih hrestfree hreststripped front' back₂ (argv.set argc (front ++ spaces).length) (by simpa using hargv)
            (argc + 1) (by omega) (by omega)
        refine ⟨mem', argv', res, hrun, hstart.trans hpre, nofun, hlen'.trans hmemlen, hargv', ?_, ?_⟩
        · have := congrArg (List.take argc) htake
          rwa [List.take_take, List.take_take, Nat.min_eq_left (Nat.le_succ _), List.take_set_of_le (Nat.le_refl _)] at this
        · rw [filter_map_cons]
          refine hout.push back₂ hargfree hleaves hpre (fun hnil => ?_) ?_
          · rw [hend hnil, hnil, readArguments, Option.filter_some, if_pos (by simp; omega)]
            exact ⟨rfl, rfl⟩
          · have := congrArg (·[argc]?) htake
            simpa [List.getElem?_take, hlt] using this

/-- `parse_command` on a line of its own. -/
theorem parseCommand_eq {line : List UInt8} (hline : NulFree line) {argv : List ℤ} (hargv : argv.length = 32) :
    ∃ mem argv' res, parseCommand (line ++ [0]) 0 argv = some (mem, argv', res) ∧
      mem.length = (line ++ [0]).length ∧ argv'.length = 32 ∧ Outcome mem 0 argv' 0 res (tokenize line) := by
  obtain ⟨spaces, back, hstrip, hlen⟩ := mlStrip_eq [] [] hline
  have hfree : NulFree (strip line) :=
    hline.sublist ((List.dropWhile_suffix _).sublist.trans (List.rdropWhile_prefix _ _).sublist)
  have hmemlen : (spaces ++ (strip line ++ 0 :: back)).length = (line ++ [0]).length := by
    simp only [List.length_append, List.length_cons, List.length_nil] at hlen ⊢
    omega
  simp only [List.nil_append, List.length_nil, Nat.cast_zero] at hstrip
  unfold parseCommand tokenize
  rw [hstrip]
  simp only [Option.bind_eq_bind, Option.bind_some, strlen_eq spaces back hfree]
  by_cases hnil : strip line = []
  · rw [if_pos (by rw [hnil]; rfl), if_pos hnil]
    exact ⟨_, argv, -1, rfl, hmemlen, hargv, rfl⟩
  · rw [if_neg (fun h => hnil (List.length_eq_zero_iff.mp h)), if_neg hnil]
    obtain ⟨mem, argv', res, hrun, -, -, hmem, hargv', -, hout⟩ :=
      parseCommandLoop_eq ((spaces ++ (strip line ++ 0 :: back)).length + 1) hfree (strip_stripped line) spaces back argv
        hargv 0 (Nat.zero_le _) (by simp only [List.length_append]; omega)
    refine ⟨mem, argv', res, hrun, hmem.trans hmemlen, hargv', ?_⟩
    simp only [Nat.zero_add] at hout
    cases hargs : (readArguments (strip line)).filter (·.length ≤ 32) with
    | none =>
      rw [hargs] at hout
      exact hout
    | some args =>
      rw [hargs] at hout
      exact ⟨hout.1, hout.2.mono (Int.natCast_nonneg _)⟩

/-- **In-place parsing is the grammar.**  Every access is inside the line and `argv`, the loops
end, and the arguments are those of the grammar. -/
theorem parse_command_tokenizes (line : List UInt8) (hline : NulFree line) (argv : List ℤ) (hargv : argv.length = 32) :
    ∃ mem argv' res, parseCommand (line ++ [0]) 0 argv = some (mem, argv', res) ∧
      mem.length = (line ++ [0]).length ∧ argv'.length = 32 ∧
      match tokenize line with
      | none => res = -1
      | some args => res = args.length ∧ LaidOut mem 0 (argv'.take args.length) args := by
  obtain ⟨mem, argv', res, hrun, hmem, hargv', hout⟩ := parseCommand_eq hline hargv
  refine ⟨mem, argv', res, hrun, hmem, hargv', ?_⟩
  cases hargs : tokenize line with
  | none =>
    rw [hargs] at hout
    exact hout
  | some args =>
    rw [hargs] at hout
    exact ⟨by simpa using hout.1, hout.2⟩

/-- An argument, and one in quotes that holds a space and a quote. -/
theorem parse_command_tokenizes_quotes :
    ∃ mem argv', parseCommand ([0x61, 0x20, 0x22, 0x62, 0x20, 0x5c, 0x22, 0x22] ++ [0]) 0 (List.replicate 32 0) =
      some (mem, argv', 2) ∧ LaidOut mem 0 (argv'.take 2) [[0x61], [0x62, 0x20, 0x22]] := by
  obtain ⟨mem, argv', res, hrun, -, -, hout⟩ :=
    parse_command_tokenizes [0x61, 0x20, 0x22, 0x62, 0x20, 0x5c, 0x22, 0x22] (by decide)
      (List.replicate 32 0) List.length_replicate
  have htok : tokenize [0x61, 0x20, 0x22, 0x62, 0x20, 0x5c, 0x22, 0x22] = some [[0x61], [0x62, 0x20, 0x22]] := by
    have hstrip : strip [0x61, 0x20, 0x22, 0x62, 0x20, 0x5c, 0x22, 0x22] =
      [0x61, 0x20, 0x22, 0x62, 0x20, 0x5c, 0x22, 0x22] := by decide
    unfold tokenize
    rw [hstrip]
    simp [readArguments, readArgument, isspace]
  rw [htok] at hout
  obtain ⟨rfl, hlaid⟩ := hout
  exact ⟨mem, argv', hrun, hlaid⟩

end Monolinux
