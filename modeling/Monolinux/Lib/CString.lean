import Monolinux.Lib.Bytes

/-!
# Strings in memory

A memory is the list of its bytes and a pointer is an offset into it, negative in
front of it.  An access outside the memory has no result (`none`), so that what has
a result stayed inside.

Where a memory holds `s` behind `front`, that is, for `front ++ (s ++ 0 :: back)`:

* `cstr_eq`, `strlen_eq`: the string at `front.length` is `s`;
* `memmove_tail`: `memmove(p, p + 1, strlen(p + 1) + 1)` removes its first character;
* `memmove_behind`: `memmove(p + 1, p, strlen(p) + 1)` makes room in front of it.

`scanString` is the `%s` of `scanf`; `scanString_eq`: it reads a word back.
-/

namespace Monolinux

/-! ## Accesses -/

/-- `mem[p]`. -/
def load (mem : List UInt8) : ℤ → Option UInt8
  | .ofNat p => mem[p]?
  | .negSucc _ => none

/-- `mem[p] = value`. -/
def assign (mem : List UInt8) (p : ℤ) (value : UInt8) : Option (List UInt8) :=
  match p with
  | .ofNat p => if p < mem.length then some (mem.set p value) else none
  | .negSucc _ => none

/-- A negative number of bytes is a huge `size_t`. -/
def memmove (mem : List UInt8) (dst src size : ℤ) : Option (List UInt8) :=
  match dst, src, size with
  | .ofNat dst, .ofNat src, .ofNat size =>
    if dst + size ≤ mem.length ∧ src + size ≤ mem.length then some (store mem dst ((mem.drop src).take size)) else none
  | _, _, _ => none

/-- The string at `mem[p]`, without its NUL. -/
def cstr (mem : List UInt8) : ℤ → Option (List UInt8)
  | .ofNat p => ((mem.drop p).findIdx? (· = 0)).map fun length => (mem.drop p).take length
  | .negSucc _ => none

/-- Whether `strncmp` of the strings at the starts of two memories gives zero. -/
def strncmpZero : List UInt8 → List UInt8 → ℕ → Option Bool
  | _, _, 0 => some true
  | c :: mem, c' :: mem', n + 1 =>
    if c ≠ c' then some false else if c = 0 then some true else strncmpZero mem mem' n
  | _, _, _ => none

def strlen (mem : List UInt8) (p : ℤ) : Option ℕ := (cstr mem p).map List.length

/-- A string holds no NUL. -/
def NulFree (s : List UInt8) : Prop := ∀ c ∈ s, c ≠ 0

instance (s : List UInt8) : Decidable (NulFree s) := List.decidableBAll _ s

theorem nulFree_append {s s' : List UInt8} : NulFree (s ++ s') ↔ NulFree s ∧ NulFree s' := List.forall_mem_append

theorem nulFree_cons {c : UInt8} {s : List UInt8} : NulFree (c :: s) ↔ c ≠ 0 ∧ NulFree s := List.forall_mem_cons

theorem NulFree.nil : NulFree [] := List.forall_mem_nil _

theorem NulFree.sublist {s s' : List UInt8} (h : NulFree s) (hs : s'.Sublist s) : NulFree s' :=
  fun c hc => h c (hs.subset hc)

/-- The string in front of the first NUL. -/
theorem exists_eq_takeWhile_append {s : List UInt8} (h : ¬NulFree s) :
    ∃ rest, s = s.takeWhile (· ≠ 0) ++ 0 :: rest ∧ NulFree (s.takeWhile (· ≠ 0)) := by
  induction s with
  | nil => exact absurd NulFree.nil h
  | cons c s ih =>
    by_cases hc : c = 0
    · subst hc
      exact ⟨s, rfl, NulFree.nil⟩
    · obtain ⟨rest, hs, hfree⟩ := ih fun hs => h (nulFree_cons.mpr ⟨hc, hs⟩)
      rw [List.takeWhile_cons_of_pos (by simpa using hc)]
      exact ⟨rest, congrArg _ hs, nulFree_cons.mpr ⟨hc, hfree⟩⟩

/-- Characters that are read with the NUL behind them tell where the string ends. -/
theorem getElem?_eq_of_getD {s s' : List UInt8} (h : NulFree s) (h' : NulFree s') {i : ℕ}
    (heq : s[i]?.getD 0 = s'[i]?.getD 0) : s[i]? = s'[i]? := by
  cases hs : s[i]? with
  | none =>
    cases hs' : s'[i]? with
    | none => rfl
    | some c =>
      rw [hs, hs'] at heq
      exact absurd heq.symm (h' c (List.mem_of_getElem? hs'))
  | some c =>
    cases hs' : s'[i]? with
    | none =>
      rw [hs, hs'] at heq
      exact absurd heq (h c (List.mem_of_getElem? hs))
    | some d =>
      rw [hs, hs'] at heq
      exact congrArg some heq

/-! ## What is read -/

theorem load_eq (front : List UInt8) (c : UInt8) (rest : List UInt8) :
    load (front ++ c :: rest) front.length = some c := by
  show (front ++ c :: rest)[front.length]? = some c
  rw [List.getElem?_append_right (Nat.le_refl _), Nat.sub_self, List.getElem?_cons_zero]

theorem cstr_eq (front : List UInt8) {s : List UInt8} (back : List UInt8) (h : NulFree s) :
    cstr (front ++ (s ++ 0 :: back)) front.length = some s := by
  have hidx : (s ++ 0 :: back).findIdx? (· = 0) = some s.length := by
    rw [List.findIdx?_append, List.findIdx?_eq_none_iff.mpr fun c hc => by simpa using h c hc]
    simp [List.findIdx?_cons]
  show ((List.drop _ _).findIdx? _).map (fun length => (List.drop _ _).take length) = _
  rw [List.drop_left, hidx, Option.map_some, List.take_left]

theorem strlen_eq (front : List UInt8) {s : List UInt8} (back : List UInt8) (h : NulFree s) :
    strlen (front ++ (s ++ 0 :: back)) front.length = some s.length := by
  unfold strlen
  rw [cstr_eq front back h, Option.map_some]

/-- Inside the second string its beginning is compared, and behind it the strings. -/
theorem strncmpZero_eq {s s' : List UInt8} (back back' : List UInt8) (h : NulFree s) (h' : NulFree s') (n : ℕ) :
    strncmpZero (s ++ 0 :: back) (s' ++ 0 :: back') n =
      some (if n ≤ s'.length then decide (s'.take n <+: s) else decide (s = s')) := by
  induction n generalizing s s' with
  | zero => simp [strncmpZero]
  | succ n ih =>
    cases s' with
    | nil =>
      cases s with
      | nil => rfl
      | cons c s =>
        have hc := (nulFree_cons.mp h).1
        simp [strncmpZero, hc]
    | cons c' s' =>
      obtain ⟨hc', hs'⟩ := nulFree_cons.mp h'
      cases s with
      | nil =>
        simp [strncmpZero, Ne.symm hc']
      | cons c s =>
        obtain ⟨hc, hs⟩ := nulFree_cons.mp h
        by_cases heq : c = c'
        · subst heq
          have hrec := ih hs hs'
          simp only [List.cons_append, strncmpZero, ne_eq, not_true_eq_false, if_false, hc, hrec, List.length_cons,
            Nat.add_le_add_iff_right, List.take_succ_cons, List.cons_prefix_cons, true_and, List.cons.injEq]
        · simp [strncmpZero, heq, Ne.symm heq]

/-! ## What is written -/

theorem assign_eq (front : List UInt8) (c value : UInt8) (rest : List UInt8) :
    assign (front ++ c :: rest) front.length value = some (front ++ value :: rest) := by
  have hlt : front.length < (front ++ c :: rest).length := by
    rw [List.length_append, List.length_cons]
    omega
  have hset : (front ++ c :: rest).set front.length value = front ++ value :: rest := by
    rw [List.set_append_right _ _ (Nat.le_refl _), Nat.sub_self, List.set_cons_zero]
  show (if _ then _ else none) = _
  rw [if_pos hlt, hset]

/-- `memmove` of `moved`, found behind `front`, to `p` bytes behind `front'`. -/
theorem memmove_eq (front moved rest : List UInt8) {front' behind : List UInt8} (p : ℕ)
    (hmem : front ++ (moved ++ rest) = front' ++ behind) (hroom : p + moved.length ≤ behind.length) :
    memmove (front ++ (moved ++ rest)) (front'.length + p : ℕ) front.length moved.length =
      some (front' ++ store behind p moved) := by
  have hread : ((front ++ (moved ++ rest)).drop front.length).take moved.length = moved := by
    rw [List.drop_left, List.take_left]
  have hlen := congrArg List.length hmem
  simp only [List.length_append] at hlen
  show (if _ then _ else none) = _
  rw [hread, if_pos (by simp only [List.length_append]; omega), hmem, store_append]

/-- The string behind `c` is moved over it. -/
theorem memmove_tail (front : List UInt8) (c : UInt8) (s back : List UInt8) :
    memmove (front ++ c :: (s ++ 0 :: back)) front.length (front.length + 1) (s.length + 1) =
      some (front ++ (s ++ 0 :: 0 :: back)) := by
  have hmem : (front ++ [c]) ++ ((s ++ [0]) ++ back) = front ++ (c :: (s ++ 0 :: back)) := by simp
  have hstore : store (c :: (s ++ 0 :: back)) 0 (s ++ [0]) = s ++ 0 :: 0 :: back := by
    rw [store_zero (by simp)]
    have hdrop : (c :: (s ++ 0 :: back)).drop (s ++ [(0 : UInt8)]).length = 0 :: back := by
      rw [List.length_append, List.length_singleton, List.drop_succ_cons, List.drop_left]
    rw [hdrop]
    simp
  have h := memmove_eq (front ++ [c]) (s ++ [0]) back 0 hmem (by simp)
  rw [hstore, hmem] at h
  simpa using h

/-- The string is moved one to the right, which leaves a byte in front of it. -/
theorem memmove_behind (front s : List UInt8) (x : UInt8) (back : List UInt8) :
    ∃ c, memmove (front ++ (s ++ 0 :: x :: back)) (front.length + 1) front.length (s.length + 1) =
      some (front ++ c :: (s ++ 0 :: back)) := by
  obtain ⟨c, rest, hcons⟩ : ∃ c rest, s ++ [(0 : UInt8)] = c :: rest := List.exists_cons_of_ne_nil (by simp)
  have hmem : front ++ ((s ++ [0]) ++ x :: back) = (front ++ [c]) ++ (rest ++ x :: back) := by
    rw [hcons]
    simp
  have hlen := congrArg List.length hcons
  simp only [List.length_append, List.length_cons, List.length_nil] at hlen
  have hstore : store (rest ++ x :: back) 0 (s ++ [0]) = s ++ 0 :: back := by
    have hdrop : (rest ++ x :: back).drop (s ++ [(0 : UInt8)]).length = back := by
      have : (s ++ [(0 : UInt8)]).length = (rest ++ [x]).length := by simp; omega
      rw [this, show rest ++ x :: back = (rest ++ [x]) ++ back by simp, List.drop_left]
    rw [store_zero (by simp; omega), hdrop]
    simp
  have h := memmove_eq front (s ++ [0]) (x :: back) 0 hmem (by simp; omega)
  rw [hstore] at h
  exact ⟨c, by simpa using h⟩

/-! ## Formatted input -/

/-- The bytes of a string constant. -/
def bytesOf (s : String) : List UInt8 := s.toList.map fun c => c.toNat.toUInt8

def isspace (c : UInt8) : Bool := c == 0x20 || 0x09 ≤ c && c ≤ 0x0d

theorem forall_not_isspace {s : List UInt8} (h : s.any isspace = false) : ∀ c ∈ s, isspace c = false :=
  fun c hc => Bool.eq_false_iff.mpr (List.any_eq_false.mp h c hc)

/-- `scanf` of `%s` with a maximum width: the string, and the input behind it. -/
def scanString (width : ℕ) (input : List UInt8) : Option (List UInt8 × List UInt8) :=
  let input := input.dropWhile isspace
  let s := (input.takeWhile (!isspace ·)).take width
  if s = [] then none else some (s, input.drop s.length)

/-- A word in front of white space is read whole. -/
theorem scanString_eq {width : ℕ} {s : List UInt8} {c : UInt8} (rest : List UInt8) (hne : s ≠ [])
    (hs : ∀ c ∈ s, isspace c = false) (hlen : s.length ≤ width) (hc : isspace c = true) :
    scanString width (s ++ c :: rest) = some (s, c :: rest) := by
  have hdrop : (s ++ c :: rest).dropWhile isspace = s ++ c :: rest := by
    obtain ⟨d, s, rfl⟩ := List.exists_cons_of_ne_nil hne
    exact List.dropWhile_cons_of_neg (by rw [hs d List.mem_cons_self]; decide)
  have htake : (s ++ c :: rest).takeWhile (!isspace ·) = s := by
    rw [List.takeWhile_append_of_pos (fun c hc => by rw [hs c hc]; rfl), List.takeWhile_cons_of_neg (by rw [hc]; decide),
      List.append_nil]
  unfold scanString
  dsimp only
  rw [hdrop, htake, List.take_of_length_le hlen, if_neg hne, List.drop_left]

end Monolinux
