import Mathlib.Order.Basic
import Mathlib.Data.Int.Notation
import Mathlib.Data.List.Nodup
import Mathlib.Data.List.Perm.Basic
import Mathlib.Data.List.Sort

/-!
# Tables sorted with `qsort` and searched with `bsearch`

`SortSearch` is what the C library promises of its two functions, as far as a table
with a key in each element needs it.  A table is good if its keys ascend strictly
(`Ascending`): then a search finds exactly the elements that are there
(`search_some`, `search_none`), and appending a new element and sorting gives a good
table with one element more (`sort_append`).
-/

namespace Monolinux

/-- `qsort` and `bsearch` on arrays of `α`, with keys `υ`.  `search` returns the index of an element. -/
structure SortSearch (υ α : Type*) where
  sort : (α → α → ℤ) → List α → List α
  sort_perm : ∀ cmp l, (sort cmp l).Perm l
  /-- for a comparison that orders the elements -/
  sort_sorted : ∀ cmp l, (∀ a b, cmp a b ≤ 0 ∨ cmp b a ≤ 0) → (∀ a b c, cmp a b ≤ 0 → cmp b c ≤ 0 → cmp a c ≤ 0) →
    (sort cmp l).Pairwise fun a b => cmp a b ≤ 0
  search : (υ → α → ℤ) → υ → List α → Option ℕ
  /-- for elements in the order less than, equal to and greater than the key -/
  search_spec : ∀ cmp k l, (l.Pairwise fun a b => (cmp k b).sign ≤ (cmp k a).sign) →
    match search cmp k l with
    | some i => ∃ e, l[i]? = some e ∧ cmp k e = 0
    | none => ∀ e ∈ l, cmp k e ≠ 0

/-- Insertion sort and a search from the front keep the promise. -/
def SortSearch.simple (υ α : Type*) : SortSearch υ α where
  sort cmp l := l.insertionSort fun a b => cmp a b ≤ 0
  sort_perm cmp l := List.perm_insertionSort _ l
  sort_sorted cmp l htotal htrans :=
    haveI : Std.Total fun a b => cmp a b ≤ 0 := ⟨htotal⟩
    haveI : IsTrans α fun a b => cmp a b ≤ 0 := ⟨htrans⟩
    List.pairwise_insertionSort _ l
  search cmp k l := l.findIdx? fun e => cmp k e = 0
  search_spec cmp k l _ := by
    cases hf : l.findIdx? fun e => cmp k e = 0 with
    | none =>
      intro e he
      simpa using List.findIdx?_eq_none_iff.mp hf e he
    | some i =>
      obtain ⟨hi, he, -⟩ := List.findIdx?_eq_some_iff_getElem.mp hf
      exact ⟨l[i], List.getElem?_eq_getElem hi, by simpa using he⟩

section
variable {υ α : Type*} [LinearOrder υ]

/-- The usual three-way comparison. -/
def threeWay (a b : υ) : ℤ := if a < b then -1 else if a = b then 0 else 1

theorem threeWay_nonpos {a b : υ} : threeWay a b ≤ 0 ↔ a ≤ b := by
  unfold threeWay
  split
  · next h => exact ⟨fun _ => le_of_lt h, fun _ => by decide⟩
  · next h =>
    split
    · next he => exact ⟨fun _ => le_of_eq he, fun _ => by decide⟩
    · next hne => exact ⟨fun h1 => absurd h1 (by decide), fun hle => absurd (lt_of_le_of_ne hle hne) h⟩

theorem threeWay_eq_zero {a b : υ} : threeWay a b = 0 ↔ a = b := by
  unfold threeWay
  split
  · next h => exact ⟨fun h0 => absurd h0 (by decide), fun he => absurd h (he ▸ lt_irrefl a)⟩
  · next h =>
    split
    · next he => exact ⟨fun _ => he, fun _ => rfl⟩
    · next hne => exact ⟨fun h0 => absurd h0 (by decide), fun he => absurd he hne⟩

theorem threeWay_sign_anti {k a b : υ} (h : a < b) : (threeWay k b).sign ≤ (threeWay k a).sign := by
  rcases lt_trichotomy k a with hk | rfl | hk
  · have hkb := lt_trans hk h
    unfold threeWay
    exact le_of_eq (by rw [if_pos hk, if_pos hkb])
  · unfold threeWay
    rw [if_pos h, if_neg (lt_irrefl k), if_pos rfl]
    decide
  · have hnot : ¬ k < a := lt_asymm hk
    have hne : k ≠ a := ne_of_gt hk
    unfold threeWay
    rw [if_neg hnot, if_neg hne]
    split
    · decide
    · split <;> decide

/-- The keys ascend strictly: the table is sorted and has no key twice. -/
def Ascending (key : α → υ) (l : List α) : Prop := l.Pairwise fun a b => key a < key b

variable {key : α → υ} {l : List α} {k : υ}

theorem Ascending.nodup (h : Ascending key l) : (l.map key).Nodup := by
  unfold List.Nodup
  rw [List.pairwise_map]
  exact h.imp fun hab => ne_of_lt hab

theorem Ascending.searchable (h : Ascending key l) (k : υ) :
    l.Pairwise fun a b => (threeWay k (key b)).sign ≤ (threeWay k (key a)).sign :=
  h.imp fun hab => threeWay_sign_anti hab

variable (c : SortSearch υ α)

theorem search_some (h : Ascending key l) {i : ℕ} (hs : c.search (fun k a => threeWay k (key a)) k l = some i) :
    ∃ e, l[i]? = some e ∧ key e = k := by
  have := c.search_spec (fun k a => threeWay k (key a)) k l (h.searchable k)
  rw [hs] at this
  obtain ⟨e, he, h0⟩ := this
  exact ⟨e, he, (threeWay_eq_zero.mp h0).symm⟩

theorem search_none (h : Ascending key l) (hs : c.search (fun k a => threeWay k (key a)) k l = none) :
    k ∉ l.map key := by
  have := c.search_spec (fun k a => threeWay k (key a)) k l (h.searchable k)
  rw [hs] at this
  intro hk
  obtain ⟨e, he, hek⟩ := List.mem_map.mp hk
  exact this e he (threeWay_eq_zero.mpr hek.symm)

/-- A key that is in the table is found. -/
theorem search_of_mem (h : Ascending key l) (hk : k ∈ l.map key) :
    ∃ i, c.search (fun k a => threeWay k (key a)) k l = some i := by
  cases hs : c.search (fun k a => threeWay k (key a)) k l with
  | some i => exact ⟨i, rfl⟩
  | none => exact absurd hk (search_none c h hs)

/-- **Insertion** of an element with a new key. -/
theorem sort_append (h : Ascending key l) {e : α} (he : key e ∉ l.map key) :
    Ascending key (c.sort (fun a b => threeWay (key a) (key b)) (l ++ [e])) ∧
      (c.sort (fun a b => threeWay (key a) (key b)) (l ++ [e])).Perm (l ++ [e]) := by
  have hperm := c.sort_perm (fun a b => threeWay (key a) (key b)) (l ++ [e])
  have hsorted := c.sort_sorted (fun a b => threeWay (key a) (key b)) (l ++ [e])
    (fun a b => (le_total (key a) (key b)).imp threeWay_nonpos.mpr threeWay_nonpos.mpr)
    fun a b d hab hbd => threeWay_nonpos.mpr (le_trans (threeWay_nonpos.mp hab) (threeWay_nonpos.mp hbd))
  have hnodup : ((l ++ [e]).map key).Nodup := by
    rw [List.map_append]
    exact h.nodup.append (List.nodup_singleton _) (by simpa using he)
  have hne : (c.sort (fun a b => threeWay (key a) (key b)) (l ++ [e])).Pairwise fun a b => key a ≠ key b := by
    have := (hperm.map key).nodup_iff.mpr hnodup
    unfold List.Nodup at this
    rwa [List.pairwise_map] at this
  exact ⟨(hsorted.and hne).imp fun hab => lt_of_le_of_ne (threeWay_nonpos.mp hab.1) hab.2, hperm⟩

end

end Monolinux
