import Monolinux.Lib.SortedTable
import Mathlib.Data.List.FinRange
import Mathlib.Data.List.NodupEquivFin
import Mathlib.Data.List.Pairwise
import Mathlib.Algebra.Order.Group.Int
import Mathlib.Tactic.Ring

/-!
# Sorting with a comparison function that may exit

A `Comparing` program knows the elements it works on by what comparing two of them gives.
A `ComparisonSort` is one for each number of elements that sorts them for every
`Consistent` comparison function, as the C library promises it of `qsort`.

* `exists_compared`: of two equal elements such a program compares some pair.  It cannot
  know their order otherwise: with the ties broken one way or the other it would do the
  same;
* `sortList_unique`: so a comparison function that exits for equal elements finds every
  duplicate.
-/

namespace Monolinux

/-- Compares elements, which it names by their positions, and returns. -/
inductive Comparing (ι β : Type)
  | done (result : β)
  | compare (i j : ι) (next : ℤ → Comparing ι β)

namespace Comparing

variable {ι β γ ε : Type}

def run (cmp : ι → ι → ℤ) : Comparing ι β → β
  | done result => result
  | compare i j next => (next (cmp i j)).run cmp

/-- The pairs that are compared. -/
def compared (cmp : ι → ι → ℤ) : Comparing ι β → List (ι × ι)
  | done _ => []
  | compare i j next => (i, j) :: (next (cmp i j)).compared cmp

/-- With a comparison function that may exit. -/
def runExcept (cmp : ι → ι → Except ε ℤ) : Comparing ι β → Except ε β
  | done result => .ok result
  | compare i j next => do
    let res ← cmp i j
    (next res).runExcept cmp

def bind : Comparing ι β → (β → Comparing ι γ) → Comparing ι γ
  | done result, f => f result
  | compare i j next, f => compare i j fun res => (next res).bind f

variable {cmp cmp' : ι → ι → ℤ} {t : Comparing ι β}

/-- Comparison functions that give the same for the pairs that are compared. -/
theorem run_congr (h : ∀ p ∈ t.compared cmp, cmp' p.1 p.2 = cmp p.1 p.2) : t.run cmp' = t.run cmp := by
  induction t with
  | done result => rfl
  | compare i j next ih =>
    obtain ⟨hfirst, hrest⟩ := List.forall_mem_cons.mp h
    show (next (cmp' i j)).run cmp' = (next (cmp i j)).run cmp
    rw [hfirst]
    exact ih _ hrest

@[simp] theorem run_bind (f : β → Comparing ι γ) : (t.bind f).run cmp = (f (t.run cmp)).run cmp := by
  induction t with
  | done result => rfl
  | compare i j next ih => exact ih _

@[simp] theorem compared_bind (f : β → Comparing ι γ) :
    (t.bind f).compared cmp = t.compared cmp ++ (f (t.run cmp)).compared cmp := by
  induction t with
  | done result => rfl
  | compare i j next ih => exact congrArg ((i, j) :: ·) (ih _)

variable {exiting : ι → ι → Except ε ℤ}

/-- It returns if no comparison exits. -/
theorem runExcept_ok (h : ∀ p ∈ t.compared cmp, exiting p.1 p.2 = .ok (cmp p.1 p.2)) :
    t.runExcept exiting = .ok (t.run cmp) := by
  induction t with
  | done result => rfl
  | compare i j next ih =>
    obtain ⟨hfirst, hrest⟩ := List.forall_mem_cons.mp h
    show ((exiting i j).bind fun res => (next res).runExcept exiting) = _
    rw [hfirst]
    exact ih _ hrest

/-- It exits with the first comparison that does. -/
theorem runExcept_error (hcmp : ∀ i j res, exiting i j = .ok res → res = cmp i j)
    (h : ∃ p ∈ t.compared cmp, ∀ res, exiting p.1 p.2 ≠ .ok res) :
    ∃ p ∈ t.compared cmp, ∃ e, exiting p.1 p.2 = .error e ∧ t.runExcept exiting = .error e := by
  induction t with
  | done result =>
    obtain ⟨p, hp, -⟩ := h
    exact absurd hp List.not_mem_nil
  | compare i j next ih =>
    cases hfirst : exiting i j with
    | error e =>
      refine ⟨(i, j), List.mem_cons_self, e, hfirst, ?_⟩
      show ((exiting i j).bind fun res => (next res).runExcept exiting) = _
      rw [hfirst]
      rfl
    | ok res =>
      obtain rfl := hcmp i j res hfirst
      obtain ⟨p, hp, hexits⟩ := h
      have hp' : p ∈ (next (cmp i j)).compared cmp := by
        refine (List.mem_cons.mp hp).resolve_left ?_
        rintro rfl
        exact hexits _ hfirst
      obtain ⟨q, hq, e, herror, hrun⟩ := ih _ ⟨p, hp', hexits⟩
      refine ⟨q, List.mem_cons_of_mem _ hq, e, herror, ?_⟩
      show ((exiting i j).bind fun res => (next res).runExcept exiting) = _
      rw [hfirst]
      exact hrun

end Comparing

/-- What the C library asks of a comparison function: it orders the elements. -/
structure Consistent {ι : Type*} (cmp : ι → ι → ℤ) : Prop where
  flip : ∀ i j, (cmp j i).sign = -(cmp i j).sign
  trans : ∀ i j k, cmp i j ≤ 0 → cmp j k ≤ 0 → cmp i k ≤ 0

section Consistent

variable {ι : Type*} {cmp : ι → ι → ℤ} {i j k : ι}

theorem Consistent.pos_iff (h : Consistent cmp) : 0 < cmp j i ↔ cmp i j < 0 := by
  rw [← Int.sign_eq_one_iff_pos, h.flip, neg_eq_iff_eq_neg, Int.sign_eq_neg_one_iff_neg]

theorem Consistent.eq_zero_iff (h : Consistent cmp) : cmp j i = 0 ↔ cmp i j = 0 := by
  rw [← Int.sign_eq_zero_iff_zero, h.flip, neg_eq_zero, Int.sign_eq_zero_iff_zero]

theorem Consistent.lt_of_lt_of_le (h : Consistent cmp) (hij : cmp i j < 0) (hjk : cmp j k ≤ 0) : cmp i k < 0 := by
  have hle := h.trans i j k (le_of_lt hij) hjk
  by_contra hnot
  have h0 : cmp k i = 0 := h.eq_zero_iff.mp (by omega)
  have hji := h.trans j k i hjk (le_of_eq h0)
  have := h.pos_iff.mpr hij
  omega

theorem Consistent.lt_of_le_of_lt (h : Consistent cmp) (hij : cmp i j ≤ 0) (hjk : cmp j k < 0) : cmp i k < 0 := by
  have hle := h.trans i j k hij (le_of_lt hjk)
  by_contra hnot
  have h0 : cmp k i = 0 := h.eq_zero_iff.mp (by omega)
  have hkj := h.trans k i j (le_of_eq h0) hij
  have := h.pos_iff.mpr hjk
  omega

/-- Equal elements are ordered by `rank`. -/
def tieBreak (rank : ι → ℤ) (cmp : ι → ι → ℤ) (i j : ι) : ℤ := if cmp i j = 0 then rank i - rank j else cmp i j

theorem Consistent.tieBreak (h : Consistent cmp) (rank : ι → ℤ) : Consistent (tieBreak rank cmp) where
  flip i j := by
    unfold Monolinux.tieBreak
    by_cases h0 : cmp i j = 0
    · rw [if_pos h0, if_pos (h.eq_zero_iff.mpr h0), ← Int.sign_neg, neg_sub]
    · rw [if_neg h0, if_neg (fun h0' => h0 (h.eq_zero_iff.mp h0')), h.flip]
  trans i j k := by
    have hij (hle : Monolinux.tieBreak rank cmp i j ≤ 0) : cmp i j < 0 ∨ cmp i j = 0 ∧ rank i ≤ rank j := by
      unfold Monolinux.tieBreak at hle
      split at hle <;> omega
    have hjk (hle : Monolinux.tieBreak rank cmp j k ≤ 0) : cmp j k < 0 ∨ cmp j k = 0 ∧ rank j ≤ rank k := by
      unfold Monolinux.tieBreak at hle
      split at hle <;> omega
    intro h₁ h₂
    have hlt (hlt : cmp i k < 0) : Monolinux.tieBreak rank cmp i k ≤ 0 := by
      unfold Monolinux.tieBreak
      rw [if_neg (by omega)]
      omega
    rcases hij h₁ with h₁ | ⟨h₁, hr₁⟩
    · exact hlt (h.lt_of_lt_of_le h₁ ((hjk h₂).elim le_of_lt fun h => le_of_eq h.1))
    · rcases hjk h₂ with h₂ | ⟨h₂, hr₂⟩
      · exact hlt (h.lt_of_le_of_lt (le_of_eq h₁) h₂)
      · have hle := h.trans i j k (le_of_eq h₁) (le_of_eq h₂)
        unfold Monolinux.tieBreak
        split <;> omega

end Consistent

/-! ## Sorting -/

/-- `qsort`. -/
structure ComparisonSort where
  program : (n : ℕ) → Comparing (Fin n) (List (Fin n))
  perm : ∀ n cmp, Consistent cmp → ((program n).run cmp).Perm (List.finRange n)
  sorted : ∀ n cmp, Consistent cmp → ((program n).run cmp).Pairwise fun i j => cmp i j ≤ 0

namespace ComparisonSort

variable (c : ComparisonSort)

/-- No element is compared with itself. -/
def Distinguishing : Prop := ∀ n cmp, Consistent cmp → ∀ p ∈ (c.program n).compared cmp, p.1 ≠ p.2

/-- **A sort compares equal elements**, if there are any. -/
theorem exists_compared {n : ℕ} {cmp : Fin n → Fin n → ℤ} (h : Consistent cmp) {i j : Fin n} (hij : i ≠ j)
    (h0 : cmp i j = 0) : ∃ p ∈ (c.program n).compared cmp, p.1 ≠ p.2 ∧ cmp p.1 p.2 = 0 := by
  by_contra hnone
  push Not at hnone
  -- with the ties broken by any rank, the comparisons and so the result are the same
  have hsame (rank : Fin n → ℤ) : (c.program n).run (tieBreak rank cmp) = (c.program n).run cmp := by
    refine Comparing.run_congr fun p hp => ?_
    unfold tieBreak
    split
    · next hzero =>
      obtain heq : p.1 = p.2 := by_contra fun hne => hnone p hp hne hzero
      rw [hzero, heq, sub_self]
    · rfl
  have hsorted (rank : Fin n → ℤ) : ((c.program n).run cmp).Pairwise fun i j => tieBreak rank cmp i j ≤ 0 :=
    hsame rank ▸ c.sorted n _ (h.tieBreak rank)
  have hmem (i : Fin n) : i ∈ (c.program n).run cmp := (c.perm n cmp h).mem_iff.mpr (List.mem_finRange i)
  have hranks := (hsorted fun i => i.val).and (hsorted fun i => -i.val)
  have hne : i.val ≠ j.val := fun heq => hij (Fin.ext heq)
  have hdiffer {i j : Fin n} (hne : i.val ≠ j.val) (h0 : cmp i j = 0) :
      ¬(tieBreak (fun i => i.val) cmp i j ≤ 0 ∧ tieBreak (fun i => -i.val) cmp i j ≤ 0) := by
    rintro ⟨h₁, h₂⟩
    unfold tieBreak at h₁ h₂
    rw [if_pos h0] at h₁ h₂
    dsimp only at h₁ h₂
    omega
  have hunequal := hranks.imp (S := fun i j => i.val ≠ j.val → cmp i j ≠ 0) fun hij hne h0 => hdiffer hne h0 hij
  have : Std.Symm fun i j : Fin n => i.val ≠ j.val → cmp i j ≠ 0 :=
    ⟨fun i j hij hne h0 => hij hne.symm (h.eq_zero_iff.mp h0)⟩
  exact hunequal.forall (hmem i) (hmem j) hij hne h0

variable {α ε υ : Type} [LinearOrder υ]

/-- The sorted array. -/
def sortList (cmp : α → α → Except ε ℤ) (l : List α) : Except ε (List α) := do
  let order ← (c.program l.length).runExcept fun i j => cmp l[i] l[j]
  return order.map fun i => l[i]

/-- Compares the keys, and exits with a message about the first element if they are equal. -/
def exitIfEqual (key : α → υ) (message : α → ε) (a b : α) : Except ε ℤ :=
  if threeWay (key a) (key b) = 0 then .error (message a) else .ok (threeWay (key a) (key b))

end ComparisonSort

section Unique

variable {c : ComparisonSort} {α ε υ : Type} [LinearOrder υ] {key : α → υ} {message : α → ε} {l : List α}

theorem threeWay_neg (a b : υ) : (threeWay b a).sign = -(threeWay a b).sign := by
  unfold threeWay
  rcases lt_trichotomy a b with h | rfl | h
  · rw [if_neg (lt_asymm h), if_neg (ne_of_gt h), if_pos h]
    rfl
  · rw [if_neg (lt_irrefl a), if_pos rfl]
    rfl
  · rw [if_pos h, if_neg (lt_asymm h), if_neg (ne_of_gt h)]
    rfl

theorem threeWay_consistent {ι : Type*} (key : ι → υ) : Consistent fun i j => threeWay (key i) (key j) where
  flip i j := threeWay_neg (key i) (key j)
  trans _ _ _ hij hjk := threeWay_nonpos.mpr (le_trans (threeWay_nonpos.mp hij) (threeWay_nonpos.mp hjk))

theorem getElem_key_ne (hne : ∀ p ∈ (c.program l.length).compared fun i j => threeWay (key l[i]) (key l[j]),
    key l[p.1] ≠ key l[p.2]) {i j : Fin l.length} (hij : i ≠ j) : key l[i] ≠ key l[j] := by
  intro heq
  have hcons : Consistent fun i j : Fin l.length => threeWay (key l[i]) (key l[j]) := threeWay_consistent _
  obtain ⟨p, hp, -, h0⟩ := c.exists_compared hcons hij (threeWay_eq_zero.mpr heq)
  exact hne p hp (threeWay_eq_zero.mp h0)

/-- The sort returns a good table if the comparisons are of unequal keys. -/
theorem sortList_ok (hne : ∀ p ∈ (c.program l.length).compared fun i j => threeWay (key l[i]) (key l[j]),
    key l[p.1] ≠ key l[p.2]) :
    ∃ l', c.sortList (ComparisonSort.exitIfEqual key message) l = .ok l' ∧ l'.Perm l ∧ Ascending key l' := by
  have hcons : Consistent fun i j : Fin l.length => threeWay (key l[i]) (key l[j]) := threeWay_consistent _
  have hrun : (c.program l.length).runExcept (fun i j => ComparisonSort.exitIfEqual key message l[i] l[j]) =
      .ok ((c.program l.length).run fun i j => threeWay (key l[i]) (key l[j])) :=
    Comparing.runExcept_ok fun p hp => if_neg fun h0 => hne p hp (threeWay_eq_zero.mp h0)
  have hperm := c.perm _ _ hcons
  have hsorted := c.sorted _ _ hcons
  generalize (c.program l.length).run _ = order at hrun hperm hsorted
  refine ⟨order.map fun i => l[i], ?_, ?_, ?_⟩
  · unfold ComparisonSort.sortList
    rw [hrun]
    rfl
  · have hall : (List.finRange l.length).map (fun i => l[i]) = l := by
      rw [← List.ofFn_eq_map]
      exact List.ofFn_getElem
    have hmap := hperm.map fun i : Fin l.length => l[i]
    rwa [hall] at hmap
  · have hnodup : order.Pairwise (· ≠ ·) := hperm.nodup_iff.mpr (List.nodup_finRange _)
    unfold Ascending
    rw [List.pairwise_map]
    exact (hsorted.and hnodup).imp fun hij => lt_of_le_of_ne (threeWay_nonpos.mp hij.1) (getElem_key_ne hne hij.2)

theorem exitIfEqual_error {a b : α} {e : ε} (h : ComparisonSort.exitIfEqual key message a b = .error e) :
    key a = key b ∧ e = message a := by
  unfold ComparisonSort.exitIfEqual at h
  split at h
  · next h0 => exact ⟨threeWay_eq_zero.mp h0, (Except.error.inj h).symm⟩
  · cases h

theorem exitIfEqual_ok {a b : α} {res : ℤ} (h : ComparisonSort.exitIfEqual key message a b = .ok res) :
    key a ≠ key b ∧ res = threeWay (key a) (key b) := by
  unfold ComparisonSort.exitIfEqual at h
  split at h
  · cases h
  · next h0 => exact ⟨fun heq => h0 (threeWay_eq_zero.mpr heq), (Except.ok.inj h).symm⟩

/-- Otherwise it exits with an element of a pair with equal keys. -/
theorem sortList_error (heq : ∃ p ∈ (c.program l.length).compared fun i j => threeWay (key l[i]) (key l[j]),
    key l[p.1] = key l[p.2]) :
    ∃ p ∈ (c.program l.length).compared fun i j => threeWay (key l[i]) (key l[j]), key l[p.1] = key l[p.2] ∧
      c.sortList (ComparisonSort.exitIfEqual key message) l = .error (message l[p.1]) := by
  obtain ⟨q, hq, hqkeys⟩ := heq
  have hcmp (i j : Fin l.length) (res : ℤ) (h : ComparisonSort.exitIfEqual key message l[i] l[j] = .ok res) :
      res = threeWay (key l[i]) (key l[j]) :=
    (exitIfEqual_ok h).2
  obtain ⟨p, hp, e, herror, hrun⟩ := Comparing.runExcept_error hcmp ⟨q, hq, fun res h => (exitIfEqual_ok h).1 hqkeys⟩
  obtain ⟨hkeys, rfl⟩ := exitIfEqual_error herror
  refine ⟨p, hp, hkeys, ?_⟩
  unfold ComparisonSort.sortList
  rw [hrun]
  rfl

omit [LinearOrder υ] in
/-- Elements at different positions with equal keys. -/
theorem duplicate_of_getElem {i j : Fin l.length} (hij : i ≠ j) (heq : key l[i] = key l[j]) :
    (l.map key).Duplicate (key l[i]) := by
  have hlen : (l.map key).length = l.length := List.length_map _
  have hget (i : Fin l.length) : (l.map key).get (i.cast hlen.symm) = key l[i] := List.getElem_map _
  rw [List.duplicate_iff_exists_distinct_get]
  rcases lt_or_gt_of_ne hij with hlt | hlt
  · exact ⟨i.cast hlen.symm, j.cast hlen.symm, hlt, (hget i).symm, heq.trans (hget j).symm⟩
  · exact ⟨j.cast hlen.symm, i.cast hlen.symm, hlt, heq.trans (hget j).symm, (hget i).symm⟩

/-- **Duplicates are found**, by any sort: what is returned is a good table.  Otherwise the key of the element with which
it exits is there twice, unless an element was compared with itself. -/
theorem sortList_unique (c : ComparisonSort) (key : α → υ) (message : α → ε) (l : List α) :
    (∃ l', c.sortList (ComparisonSort.exitIfEqual key message) l = .ok l' ∧ l'.Perm l ∧ Ascending key l') ∨
      ∃ a ∈ l, c.sortList (ComparisonSort.exitIfEqual key message) l = .error (message a) ∧
        (c.Distinguishing → (l.map key).Duplicate (key a)) := by
  by_cases hne : ∀ p ∈ (c.program l.length).compared fun i j => threeWay (key l[i]) (key l[j]), key l[p.1] ≠ key l[p.2]
  · exact .inl (sortList_ok hne)
  · push Not at hne
    obtain ⟨p, hp, heq, herror⟩ := sortList_error hne
    exact .inr ⟨_, List.getElem_mem _, herror,
      fun hself => duplicate_of_getElem (hself _ _ (threeWay_consistent _) p hp) heq⟩

end Unique

/-! ## Insertion sort -/

namespace Comparing

variable {ι : Type}

def insertion (i : ι) : List ι → Comparing ι (List ι)
  | [] => done [i]
  | j :: l => compare i j fun res =>
    if res ≤ 0 then done (i :: j :: l) else (insertion i l).bind fun l => done (j :: l)

def insertionSort : List ι → Comparing ι (List ι)
  | [] => done []
  | i :: l => (insertionSort l).bind (insertion i)

variable {cmp : ι → ι → ℤ} {i : ι} {l : List ι}

theorem run_insertion : (insertion i l).run cmp = l.orderedInsert (fun i j => cmp i j ≤ 0) i := by
  induction l with
  | nil => rfl
  | cons j l ih =>
    show (if cmp i j ≤ 0 then done (i :: j :: l) else (insertion i l).bind fun l => done (j :: l)).run cmp = _
    rw [List.orderedInsert_cons]
    split
    · rfl
    · rw [run_bind, ih]
      rfl

theorem run_insertionSort : (insertionSort l).run cmp = l.insertionSort fun i j => cmp i j ≤ 0 := by
  induction l with
  | nil => rfl
  | cons i l ih =>
    show ((insertionSort l).bind (insertion i)).run cmp = _
    rw [run_bind, ih, run_insertion, List.insertionSort_cons]

/-- The new element is compared with the others. -/
theorem compared_insertion {p : ι × ι} (hp : p ∈ (insertion i l).compared cmp) : p.1 = i ∧ p.2 ∈ l := by
  induction l with
  | nil => exact absurd hp List.not_mem_nil
  | cons j l ih =>
    rcases List.mem_cons.mp hp with rfl | hp
    · exact ⟨rfl, List.mem_cons_self⟩
    · dsimp only at hp
      split at hp
      · exact absurd hp List.not_mem_nil
      · rw [compared_bind, List.mem_append] at hp
        obtain ⟨hi, hl⟩ := ih (hp.resolve_right List.not_mem_nil)
        exact ⟨hi, List.mem_cons_of_mem _ hl⟩

theorem compared_insertionSort (hl : l.Nodup) {p : ι × ι} (hp : p ∈ (insertionSort l).compared cmp) : p.1 ≠ p.2 := by
  induction l with
  | nil => exact absurd hp List.not_mem_nil
  | cons i l ih =>
    obtain ⟨hi, hl⟩ := List.nodup_cons.mp hl
    have hp' : p ∈ ((insertionSort l).bind (insertion i)).compared cmp := hp
    rw [compared_bind, List.mem_append, run_insertionSort] at hp'
    rcases hp' with hp | hp
    · exact ih hl hp
    · obtain ⟨rfl, hmem⟩ := compared_insertion hp
      rw [List.mem_insertionSort] at hmem
      rintro heq
      exact hi (heq ▸ hmem)

end Comparing

/-- Insertion sort keeps the promise. -/
def ComparisonSort.insertion : ComparisonSort where
  program n := Comparing.insertionSort (List.finRange n)
  perm n cmp _ := by
    rw [Comparing.run_insertionSort]
    exact List.perm_insertionSort _ _
  sorted n cmp h := by
    have htotal : Std.Total fun i j => cmp i j ≤ 0 := ⟨fun i j => by
      rcases le_or_gt (cmp i j) 0 with hle | hlt
      · exact .inl hle
      · exact .inr (le_of_lt (h.pos_iff.mp hlt))⟩
    have htrans : IsTrans _ fun i j => cmp i j ≤ 0 := ⟨h.trans⟩
    rw [Comparing.run_insertionSort]
    exact List.pairwise_insertionSort _ _

theorem ComparisonSort.insertion_distinguishing : insertion.Distinguishing :=
  fun n _ _ _ hp => Comparing.compared_insertionSort (List.nodup_finRange n) hp

end Monolinux
