import Monolinux.Log.Objects
import Mathlib.Data.List.TakeWhile

/-!
# Storing and loading log levels

`ml_log_object_store` writes a line for each object in the order of the list, and
`ml_log_object_load` sets the level of the first object of the name in each line it
reads.  A level that is not one of the eight is written as three words, which ends the
load.

* `mlLogObjectLoad_eq`: what a load of the stored file does to the levels (`loaded`);
* `levels_survive`: the levels survive if and only if every object in front of one
  with a valid level has a valid level, too, and another name;
* `levels_lost`: where an object with another level is in front.
-/

namespace Monolinux

variable {ι : Type*} [DecidableEq ι]

/-! ## The file -/

/-- `fprintf(file_p, "%s %s\n", ...)`. -/
def logLine (name : List UInt8) (level : ℤ) : List UInt8 := name ++ 0x20 :: (mlLogObjectLevelToString level ++ [0x0a])

omit [DecidableEq ι] in
/-- The loop of `ml_log_object_store`, which starts with `none`. -/
def storeLoop (m : LogModule ι) : ℕ → Option ι → Option (List UInt8)
  | 0, _ => none
  | fuel + 1, logObject =>
    match mlLogObjectListNext m logObject with
    | none => some []
    | some logObject =>
      (storeLoop m fuel (some logObject)).map
        (logLine (m.object logObject).name (m.object logObject).level ++ ·)

omit [DecidableEq ι] in
/-- The result and the new contents of the file, if it can be opened. -/
def mlLogObjectStore (fuel : ℕ) (opened : Bool) (m : LogModule ι) : Option (ℤ × Option (List UInt8)) :=
  if opened then (storeLoop m fuel none).map fun text => (0, some text) else some (-1000, none)

/-- `fscanf(file_p, "%63s %15s", ...)`, and the input behind it. -/
def scanLine (input : List UInt8) : Option (List UInt8 × List UInt8 × List UInt8) := do
  let (name, input) ← scanString 63 input
  let (level, input) ← scanString 15 (input.dropWhile isspace)
  return (name, level, input)

/-- The loop of `ml_log_object_load`, for not more than the given number of lines. -/
def loadLoop (fuel : ℕ) : ℕ → List UInt8 → LogModule ι → Option (LogModule ι)
  | 0, _, _ => none
  | lines + 1, input, m =>
    match scanLine input with
    | some (name, level, 0x0a :: input) => do
      match ← mlLogObjectGetByName m name fuel none with
      | none => loadLoop fuel lines input m
      | some logObject =>
        let value := mlLogObjectLevelFromString level
        if value = -1 then loadLoop fuel lines input m
        else loadLoop fuel lines input (mlLogObjectSetLevel logObject value m)
    -- not two strings, or no newline behind them
    | _ => some m

/-- `file` are the contents of the file, if it can be opened. -/
def mlLogObjectLoad (fuel : ℕ) (file : Option (List UInt8)) (m : LogModule ι) : Option (LogModule ι) :=
  match file with
  | none => some m
  | some text => loadLoop fuel (text.length + 1) text m

/-! ## Lines -/

/-- What is read back with `%63s`. -/
def IsWord (name : List UInt8) : Prop := name ≠ [] ∧ (∀ c ∈ name, isspace c = false) ∧ name.length ≤ 63

instance (name : List UInt8) : Decidable (IsWord name) :=
  haveI : Decidable (∀ c ∈ name, isspace c = false) := List.decidableBAll _ name
  inferInstanceAs (Decidable (_ ∧ _ ∧ _))

/-- A word, blanks and the string of a level. -/
theorem scanLine_blanks {name blanks : List UInt8} (hname : IsWord name) (hblanks : blanks ≠ [])
    (hspaces : ∀ c ∈ blanks, isspace c = true) {level : ℤ} (hlevel : ValidLevel level) (rest : List UInt8) :
    scanLine (name ++ (blanks ++ (mlLogObjectLevelToString level ++ 0x0a :: rest))) =
      some (name, mlLogObjectLevelToString level, 0x0a :: rest) := by
  obtain ⟨hne, hspace, hlen⟩ := hname
  obtain ⟨-, hne', hspace', hlen'⟩ := levelToString_of_valid hlevel
  have hdrop : (blanks ++ (mlLogObjectLevelToString level ++ 0x0a :: rest)).dropWhile isspace =
      mlLogObjectLevelToString level ++ 0x0a :: rest := by
    obtain ⟨c, s, hs⟩ := List.exists_cons_of_ne_nil hne'
    rw [List.dropWhile_append_of_pos hspaces]
    rw [hs] at hspace' ⊢
    rw [List.cons_append, List.dropWhile_cons_of_neg (by rw [hspace' c List.mem_cons_self]; decide)]
  have hread : scanString 15 (mlLogObjectLevelToString level ++ 0x0a :: rest) =
      some (mlLogObjectLevelToString level, 0x0a :: rest) := scanString_eq rest hne' hspace' hlen' rfl
  obtain ⟨blank, blanks, rfl⟩ := List.exists_cons_of_ne_nil hblanks
  unfold scanLine
  rw [List.cons_append, scanString_eq _ hne hspace hlen (hspaces blank List.mem_cons_self)]
  rw [List.cons_append] at hdrop
  simp only [Option.bind_eq_bind, Option.bind_some, hdrop, hread]
  rfl

theorem scanLine_of_valid {name : List UInt8} (hname : IsWord name) {level : ℤ} (hlevel : ValidLevel level)
    (rest : List UInt8) :
    scanLine (logLine name level ++ rest) = some (name, mlLogObjectLevelToString level, 0x0a :: rest) := by
  have hline : logLine name level ++ rest = name ++ ([0x20] ++ (mlLogObjectLevelToString level ++ 0x0a :: rest)) := by
    simp [logLine]
  have hspaces : ∀ c ∈ [0x20], isspace c = true := by
    intro c hc
    rw [List.mem_singleton.mp hc]
    rfl
  rw [hline]
  exact scanLine_blanks hname (List.cons_ne_nil _ _) hspaces hlevel rest

/-- The second word of the level is in the way of the newline. -/
theorem scanLine_of_invalid {name : List UInt8} (hname : IsWord name) {level : ℤ} (hlevel : ¬ValidLevel level)
    (rest : List UInt8) : ∃ input, scanLine (logLine name level ++ rest) = some (name, bytesOf "***", 0x20 :: input) := by
  obtain ⟨hne, hspace, hlen⟩ := hname
  have hline : logLine name level ++ rest =
      name ++ 0x20 :: (bytesOf "***" ++ 0x20 :: (bytesOf "unknown ***" ++ 0x0a :: rest)) := by
    unfold logLine
    rw [levelToString_of_invalid hlevel, List.append_assoc]
    rfl
  have hdrop : (0x20 :: (bytesOf "***" ++ 0x20 :: (bytesOf "unknown ***" ++ 0x0a :: rest))).dropWhile isspace =
      bytesOf "***" ++ 0x20 :: (bytesOf "unknown ***" ++ 0x0a :: rest) := rfl
  have hread : scanString 15 (bytesOf "***" ++ 0x20 :: (bytesOf "unknown ***" ++ 0x0a :: rest)) =
      some (bytesOf "***", 0x20 :: (bytesOf "unknown ***" ++ 0x0a :: rest)) :=
    scanString_eq _ (by decide) (forall_not_isspace rfl) (by decide) rfl
  refine ⟨bytesOf "unknown ***" ++ 0x0a :: rest, ?_⟩
  unfold scanLine
  rw [hline, scanString_eq _ hne hspace hlen rfl]
  simp only [Option.bind_eq_bind, Option.bind_some, hdrop, hread]
  rfl

/-! ## The levels after a load -/

/-- The module with other levels. -/
def LogModule.withLevels (m : LogModule ι) (levels : ι → ℤ) : LogModule ι :=
  { m with object := fun a => { m.object a with level := levels a } }

/-- Each object in turn, up to the first without a valid level, gives its stored level to the
first object of its name. -/
def loaded (name : ι → List UInt8) (stored : ι → ℤ) (all objects : List ι) (levels : ι → ℤ) : ι → ℤ :=
  (objects.takeWhile fun a => ValidLevel (stored a)).foldl
    (fun levels a =>
      match all.find? fun b => name b = name a with
      | none => levels
      | some b => Function.update levels b (stored a))
    levels

omit [DecidableEq ι] in
theorem store_linked {m : LogModule ι} {p : Option ι} {objects : List ι} {fuel : ℕ}
    (hp : Linked (fun a => (m.object a).next) (mlLogObjectListNext m p) objects) (hfuel : objects.length < fuel) :
    storeLoop m fuel p = some (objects.flatMap fun a => logLine (m.object a).name (m.object a).level) := by
  induction objects generalizing p fuel with
  | nil =>
    obtain ⟨fuel, rfl⟩ : ∃ k, fuel = k + 1 := ⟨fuel - 1, by omega⟩
    unfold storeLoop
    generalize mlLogObjectListNext m p = q at hp ⊢
    cases hp
    rfl
  | cons a objects ih =>
    rw [List.length_cons] at hfuel
    obtain ⟨fuel, rfl⟩ : ∃ k, fuel = k + 1 := ⟨fuel - 1, by omega⟩
    unfold storeLoop
    generalize mlLogObjectListNext m p = q at hp ⊢
    cases hp with
    | cons hrest =>
      have hloop := ih (p := some a) hrest (by omega : objects.length < fuel)
      simp [hloop]

theorem setLevel_withLevels (m : LogModule ι) (levels : ι → ℤ) (a : ι) (level : ℤ) :
    mlLogObjectSetLevel a level (m.withLevels levels) = m.withLevels (Function.update levels a level) := by
  unfold mlLogObjectSetLevel LogModule.withLevels
  congr 1
  funext b
  by_cases hb : b = a
  · subst hb
    simp
  · simp [hb]

/-- **A load of lines that were stored.** -/
theorem loadLoop_eq {m : LogModule ι} {all : List ι} (hall : m.Lists all) {fuel : ℕ} (hfuel : all.length < fuel)
    {objects : List ι} (hwords : ∀ a ∈ objects, IsWord (m.object a).name) (levels : ι → ℤ) {lines : ℕ}
    (hlines : objects.length < lines) :
    loadLoop fuel lines (objects.flatMap fun a => logLine (m.object a).name (m.object a).level) (m.withLevels levels) =
      some (m.withLevels (loaded (fun a => (m.object a).name) (fun a => (m.object a).level) all objects levels)) := by
  induction objects generalizing levels lines with
  | nil =>
    obtain ⟨lines, rfl⟩ : ∃ k, lines = k + 1 := ⟨lines - 1, by omega⟩
    rfl
  | cons a objects ih =>
    rw [List.length_cons] at hlines
    obtain ⟨lines, rfl⟩ : ∃ k, lines = k + 1 := ⟨lines - 1, by omega⟩
    obtain ⟨hword, hwords⟩ := List.forall_mem_cons.mp hwords
    have hfind := mlLogObjectGetByName_eq (m := m.withLevels levels) hall hfuel (m.object a).name
    unfold loadLoop
    rw [List.flatMap_cons]
    by_cases hlevel : ValidLevel (m.object a).level
    · have hvalue := (levelToString_of_valid hlevel).1
      have hne : ¬(m.object a).level = -1 := by
        intro h
        rw [h] at hlevel
        exact absurd hlevel (by decide)
      have htake : ((a :: objects).takeWhile fun a => ValidLevel (m.object a).level) =
          a :: objects.takeWhile fun a => ValidLevel (m.object a).level := List.takeWhile_cons_of_pos (by simpa using hlevel)
      rw [scanLine_of_valid hword hlevel]
      simp only [hfind, Option.bind_eq_bind, Option.bind_some, hvalue, if_neg hne]
      unfold loaded
      rw [htake, List.foldl_cons]
      split
      · next hnone =>
        replace hnone : (all.find? fun b => (m.object b).name = (m.object a).name) = none := hnone
        rw [hnone]
        exact ih hwords levels (by omega)
      · next b hsome =>
        replace hsome : (all.find? fun b => (m.object b).name = (m.object a).name) = some b := hsome
        rw [hsome, setLevel_withLevels]
        exact ih hwords _ (by omega)
    · obtain ⟨input, hscan⟩ := scanLine_of_invalid hword hlevel
        (objects.flatMap fun a => logLine (m.object a).name (m.object a).level)
      have htake : ((a :: objects).takeWhile fun a => ValidLevel (m.object a).level) = [] :=
        List.takeWhile_cons_of_neg (by simpa using hlevel)
      rw [hscan]
      unfold loaded
      rw [htake]
      rfl

/-- **A load of the stored file.** -/
theorem mlLogObjectLoad_eq {m : LogModule ι} {objects : List ι} (h : m.Lists objects)
    (hwords : ∀ a ∈ objects, IsWord (m.object a).name) {fuel : ℕ} (hfuel : objects.length < fuel) :
    ∃ text, mlLogObjectStore fuel true m = some (0, some text) ∧ ∀ levels,
      mlLogObjectLoad fuel (some text) (m.withLevels levels) =
        some (m.withLevels (loaded (fun a => (m.object a).name) (fun a => (m.object a).level) objects objects levels)) := by
  refine ⟨objects.flatMap fun a => logLine (m.object a).name (m.object a).level, ?_, fun levels => ?_⟩
  · have hloop : storeLoop m fuel none = some (objects.flatMap fun a => logLine (m.object a).name (m.object a).level) :=
      store_linked h hfuel
    unfold mlLogObjectStore
    rw [if_pos rfl, hloop]
    rfl
  · -- no line is empty
    have hlines (l : List ι) : l.length ≤ (l.flatMap fun a => logLine (m.object a).name (m.object a).level).length := by
      induction l with
      | nil => exact Nat.zero_le _
      | cons a l ih =>
        have hline : 0 < (logLine (m.object a).name (m.object a).level).length := by
          unfold logLine
          rw [List.length_append, List.length_cons]
          omega
        rw [List.flatMap_cons, List.length_append, List.length_cons]
        omega
    exact loadLoop_eq h hfuel hwords levels (Nat.lt_succ_of_le (hlines objects))

/-! ## Which levels survive -/

section Reload

variable {name : ι → List UInt8} {stored : ι → ℤ}

/-- In front of an object with a valid level all levels are valid, and no other object has
its name. -/
def Survives (name : ι → List UInt8) (stored : ι → ℤ) (objects : List ι) : Prop :=
  objects.Pairwise fun a b => ValidLevel (stored b) → ValidLevel (stored a) ∧ name a ≠ name b

theorem foldl_update (levels : ι → ℤ) (l : List ι) (b : ι) :
    l.foldl (fun levels a => Function.update levels a (stored a)) levels b = if b ∈ l then stored b else levels b := by
  induction l generalizing levels with
  | nil => simp
  | cons a l ih =>
    rw [List.foldl_cons, ih]
    by_cases hb : b ∈ l
    · simp [hb]
    · by_cases hab : b = a
      · subst hab
        simp
      · simp [hb, hab]

omit [DecidableEq ι] in
/-- What is found has not a place behind one that could be found. -/
theorem find?_mem_left {front back : List ι} {p : ι → Bool} {x b : ι} (hx : x ∈ front) (hp : p x = true)
    (hfind : (front ++ back).find? p = some b) : b ∈ front := by
  have hsome : (front.find? p).isSome := List.find?_isSome.mpr ⟨x, hx, hp⟩
  rw [List.find?_append, Option.or_of_isSome hsome] at hfind
  exact List.mem_of_find?_eq_some hfind

omit [DecidableEq ι] in
theorem find?_of_survives {objects : List ι} (h : Survives name stored objects) {a : ι} (ha : a ∈ objects)
    (hvalid : ValidLevel (stored a)) : (objects.find? fun b => name b = name a) = some a := by
  obtain ⟨front, back, rfl⟩ := List.append_of_mem ha
  have hfront : front.find? (fun b => decide (name b = name a)) = none := by
    apply List.find?_eq_none.mpr
    intro b hb
    have := ((List.pairwise_append.mp h).2.2 b hb a List.mem_cons_self hvalid).2
    simpa using this
  rw [List.find?_append, hfront, Option.none_or, List.find?_cons_of_pos (by simp)]

omit [DecidableEq ι] in
theorem mem_takeWhile_of_survives {objects : List ι} (h : Survives name stored objects) {a : ι} (ha : a ∈ objects)
    (hvalid : ValidLevel (stored a)) : a ∈ objects.takeWhile fun a => ValidLevel (stored a) := by
  obtain ⟨front, back, rfl⟩ := List.append_of_mem ha
  have hfront : ∀ b ∈ front, decide (ValidLevel (stored b)) = true := fun b hb =>
    decide_eq_true ((List.pairwise_append.mp h).2.2 b hb a List.mem_cons_self hvalid).1
  rw [List.takeWhile_append_of_pos hfront, List.takeWhile_cons, if_pos (decide_eq_true hvalid)]
  exact List.mem_append_right _ List.mem_cons_self

omit [DecidableEq ι] in
theorem mem_left_of_takeWhile {front back : List ι} {p : ι → Bool} {a c : ι} (ha : a ∈ front) (hp : p a = false)
    (hc : c ∈ (front ++ back).takeWhile p) : c ∈ front := by
  induction front with
  | nil => exact absurd ha List.not_mem_nil
  | cons d front ih =>
    rw [List.cons_append, List.takeWhile_cons] at hc
    split at hc
    · next hd =>
      have hne : a ≠ d := by
        rintro rfl
        rw [hp] at hd
        cases hd
      rcases List.mem_cons.mp hc with rfl | hc
      · exact List.mem_cons_self
      · exact List.mem_cons_of_mem _ (ih (List.mem_of_ne_of_mem hne ha) hc)
    · exact absurd hc List.not_mem_nil

/-- Where the levels survive a load sets the valid ones, and no other. -/
theorem loaded_of_survives {objects : List ι} (h : Survives name stored objects) (levels : ι → ℤ) {a : ι}
    (ha : a ∈ objects) :
    loaded name stored objects objects levels a = if ValidLevel (stored a) then stored a else levels a := by
  have hsub : ∀ b ∈ objects.takeWhile fun a => ValidLevel (stored a), b ∈ objects ∧ ValidLevel (stored b) :=
    fun b hb => ⟨(List.takeWhile_sublist _).subset hb,
      of_decide_eq_true (List.mem_takeWhile_imp (p := fun a => decide (ValidLevel (stored a))) hb)⟩
  have hfold : loaded name stored objects objects levels =
      (objects.takeWhile fun a => ValidLevel (stored a)).foldl (fun levels a => Function.update levels a (stored a))
        levels := by
    apply List.foldl_ext
    intro levels b hb
    obtain ⟨hmem, hvalid⟩ := hsub b hb
    rw [find?_of_survives h hmem hvalid]
  rw [hfold, foldl_update]
  by_cases hvalid : ValidLevel (stored a)
  · rw [if_pos (mem_takeWhile_of_survives h ha hvalid), if_pos hvalid]
  · rw [if_neg (fun hmem => hvalid (hsub a hmem).2), if_neg hvalid]

/-- An object that is not the first of its name in any line keeps its level. -/
theorem loaded_of_not_found (name : ι → List UInt8) (stored : ι → ℤ) {all objects : List ι} {b : ι}
    (h : ∀ a ∈ objects.takeWhile fun a => ValidLevel (stored a), (all.find? fun c => name c = name a) ≠ some b)
    (levels : ι → ℤ) : loaded name stored all objects levels b = levels b := by
  unfold loaded
  generalize (objects.takeWhile fun a => ValidLevel (stored a)) = l at h
  induction l generalizing levels with
  | nil => rfl
  | cons a l ih =>
    obtain ⟨ha, hl⟩ := List.forall_mem_cons.mp h
    rw [List.foldl_cons, ih _ hl]
    cases hc : all.find? fun c => decide (name c = name a) with
    | none => rfl
    | some c =>
      have hne : b ≠ c := by
        rintro rfl
        exact ha hc
      exact Function.update_of_ne hne _ _

/-- **Exactly then the levels survive.** -/
theorem loaded_iff (name : ι → List UInt8) (stored : ι → ℤ) {objects : List ι} (hnodup : objects.Nodup) :
    (∀ levels : ι → ℤ, ∀ a ∈ objects,
      (ValidLevel (stored a) → loaded name stored objects objects levels a = stored a) ∧
      (loaded name stored objects objects levels a = levels a ∨
        loaded name stored objects objects levels a = stored a)) ↔ Survives name stored objects := by
  constructor
  · intro h
    unfold Survives
    rw [List.pairwise_iff_forall_sublist]
    intro a b hsub hvalid
    obtain ⟨front, back, rfl, ha, hb⟩ := List.cons_sublist_iff.mp hsub
    replace hb : b ∈ back := List.singleton_sublist.mp hb
    have hfront : b ∉ front := fun hmem => (List.nodup_append.mp hnodup).2.2 b hmem b hb rfl
    -- the level of `b` has been changed, and is not set
    by_contra hcond
    have hkeep : loaded name stored (front ++ back) (front ++ back) (fun x => stored x + 1) b = stored b + 1 := by
      apply loaded_of_not_found name stored
      intro c hc hfind
      by_cases hva : ValidLevel (stored a)
      · -- `a` is in front of `b` and has its name
        have hab : name a = name b := by
          by_contra hne
          exact hcond ⟨hva, hne⟩
        have hbc : name b = name c := by simpa using List.find?_some hfind
        exact hfront (find?_mem_left ha (by simp [hab, hbc]) hfind)
      · -- the load ends at `a`
        have hcf : c ∈ front := mem_left_of_takeWhile ha (by simpa using hva) hc
        exact hfront (find?_mem_left hcf (by simp) hfind)
    have hb' := (h (fun x => stored x + 1) b (List.mem_append_right _ hb)).1 hvalid
    rw [hkeep] at hb'
    omega
  · intro h levels a ha
    rw [loaded_of_survives h levels ha]
    by_cases hvalid : ValidLevel (stored a)
    · rw [if_pos hvalid]
      exact ⟨fun _ => rfl, .inr rfl⟩
    · rw [if_neg hvalid]
      exact ⟨fun hv => absurd hv hvalid, .inl rfl⟩

end Reload

/-- **Log levels survive store and load** exactly if no object in front of one with a valid
level has another level or the same name. -/
theorem levels_survive (m : LogModule ι) (objects : List ι) (h : m.Lists objects)
    (hwords : ∀ a ∈ objects, IsWord (m.object a).name) (fuel : ℕ) (hfuel : objects.length < fuel) :
    ∃ text, mlLogObjectStore fuel true m = some (0, some text) ∧
      ((∀ levels : ι → ℤ, ∃ m', mlLogObjectLoad fuel (some text) (m.withLevels levels) = some m' ∧
        ∀ a ∈ objects, (ValidLevel (m.object a).level → (m'.object a).level = (m.object a).level) ∧
          ((m'.object a).level = levels a ∨ (m'.object a).level = (m.object a).level)) ↔
      objects.Pairwise fun a b => ValidLevel (m.object b).level →
        ValidLevel (m.object a).level ∧ (m.object a).name ≠ (m.object b).name) := by
  obtain ⟨text, hstore, hload⟩ := mlLogObjectLoad_eq h hwords hfuel
  refine ⟨text, hstore, ?_⟩
  have hiff := loaded_iff (fun a => (m.object a).name) (fun a => (m.object a).level) h.nodup
  unfold Survives at hiff
  rw [← hiff]
  constructor
  · intro hall levels
    obtain ⟨m', hm', hlevels⟩ := hall levels
    rw [hload levels] at hm'
    rw [← Option.some_inj.mp hm'] at hlevels
    exact hlevels
  · intro hall levels
    exact ⟨_, hload levels, hall levels⟩

/-- Two objects, the first in the list with the level `level`. -/
def twoObjects (level : ℤ) : LogModule (Fin 2) where
  head := some 0
  object a := if a = 0 then ⟨bytesOf "dhcp-client", level, some 1⟩ else ⟨bytesOf "log-object", 6, none⟩

theorem twoObjects_lists (level : ℤ) : (twoObjects level).Lists [0, 1] := .cons (.cons .nil)

theorem levels_survive_two : ∃ text, mlLogObjectStore 3 true (twoObjects 7) = some (0, some text) ∧
    ∀ levels : Fin 2 → ℤ, ∃ m', mlLogObjectLoad 3 (some text) ((twoObjects 7).withLevels levels) = some m' ∧
      (m'.object 0).level = 7 ∧ (m'.object 1).level = 6 := by
  obtain ⟨text, hstore, hiff⟩ := levels_survive (twoObjects 7) [0, 1] (twoObjects_lists 7)
    (by decide) 3 (by decide)
  refine ⟨text, hstore, fun levels => ?_⟩
  obtain ⟨m', hload, hlevels⟩ := hiff.mpr (by decide) levels
  exact ⟨m', hload, (hlevels 0 (by decide)).1 (by decide), (hlevels 1 (by decide)).1 (by decide)⟩

/-- The level 8 is written as three words; the level behind it is changed from 6 to 3, and
stays 3. -/
theorem levels_lost : (twoObjects 8).Lists [0, 1] ∧ (∀ a ∈ [0, 1], IsWord ((twoObjects 8).object a).name) ∧
    ∃ text, mlLogObjectStore 3 true (twoObjects 8) = some (0, some text) ∧
      ((twoObjects 8).object 1).level = 6 ∧
      ((mlLogObjectLoad 3 (some text) ((twoObjects 8).withLevels fun _ => 3)).map fun m' => (m'.object 1).level) =
        some 3 := by
  refine ⟨twoObjects_lists 8, by decide, _, rfl, rfl, ?_⟩
  decide +kernel

end Monolinux
