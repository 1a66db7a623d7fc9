import Mathlib.Data.List.Infix
import Mathlib.Data.List.TakeWhile
import Mathlib.Tactic.Common

/-!
# Common prefixes

`longestCommonPrefix ls` is the longest list that all lists in `ls` begin with
(`prefix_longestCommonPrefix_iff`); behind it two of them differ (`exists_differs`).

In lexicographic order the lists that begin with `t` are next to each other
(`takeWhile_prefix_eq_filter`).
-/

namespace Monolinux

variable {α : Type*}

section LongestCommonPrefix

variable [DecidableEq α] {t l l' : List α} {ls : List (List α)}

def commonPrefix : List α → List α → List α
  | a :: l, b :: l' => if a = b then a :: commonPrefix l l' else []
  | _, _ => []

theorem prefix_commonPrefix_iff : t <+: commonPrefix l l' ↔ t <+: l ∧ t <+: l' := by
  induction t generalizing l l' with
  | nil => simp
  | cons x t ih =>
    cases l with
    | nil => simp [commonPrefix]
    | cons a l =>
      cases l' with
      | nil => simp [commonPrefix]
      | cons b l' =>
        unfold commonPrefix
        by_cases hab : a = b
        · rw [if_pos hab, List.cons_prefix_cons, List.cons_prefix_cons, List.cons_prefix_cons, ih, hab]
          constructor
          · rintro ⟨hx, hl, hl'⟩
            exact ⟨⟨hx, hl⟩, hx, hl'⟩
          · rintro ⟨⟨hx, hl⟩, -, hl'⟩
            exact ⟨hx, hl, hl'⟩
        · rw [if_neg hab, List.cons_prefix_cons, List.cons_prefix_cons]
          constructor
          · intro h
            cases List.prefix_nil.mp h
          · rintro ⟨⟨rfl, -⟩, hx, -⟩
            exact absurd hx hab

/-- The longest list that all begin with; nothing if there are none. -/
def longestCommonPrefix : List (List α) → List α
  | [] => []
  | l :: ls => ls.foldl commonPrefix l

theorem prefix_foldl_commonPrefix_iff : t <+: ls.foldl commonPrefix l ↔ t <+: l ∧ ∀ l' ∈ ls, t <+: l' := by
  induction ls generalizing l with
  | nil => simp
  | cons l' ls ih =>
    rw [List.foldl_cons, ih, prefix_commonPrefix_iff, List.forall_mem_cons, and_assoc]

/-- **The longest common prefix.** -/
theorem prefix_longestCommonPrefix_iff (hne : ls ≠ []) : t <+: longestCommonPrefix ls ↔ ∀ l ∈ ls, t <+: l := by
  cases ls with
  | nil => exact absurd rfl hne
  | cons l ls =>
    rw [List.forall_mem_cons]
    exact prefix_foldl_commonPrefix_iff

theorem longestCommonPrefix_prefix (hl : l ∈ ls) : longestCommonPrefix ls <+: l :=
  (prefix_longestCommonPrefix_iff (List.ne_nil_of_mem hl)).mp (List.prefix_refl _) l hl

/-- In the common prefix all are the same. -/
theorem getElem?_eq_of_lt (hl : l ∈ ls) (hl' : l' ∈ ls) {k : ℕ} (hk : k < (longestCommonPrefix ls).length) :
    l[k]? = l'[k]? := by
  obtain ⟨r, hr⟩ := longestCommonPrefix_prefix hl
  obtain ⟨r', hr'⟩ := longestCommonPrefix_prefix hl'
  rw [← hr, ← hr', List.getElem?_append_left hk, List.getElem?_append_left hk]

/-- Behind it one of them differs from any other one. -/
theorem exists_differs (hl : l ∈ ls) (hl' : l' ∈ ls) (hne : l' ≠ l) :
    ∃ m ∈ ls, m[(longestCommonPrefix ls).length]? ≠ l[(longestCommonPrefix ls).length]? := by
  by_contra hall
  push Not at hall
  obtain ⟨r, hr⟩ := longestCommonPrefix_prefix hl
  obtain ⟨r', hr'⟩ := longestCommonPrefix_prefix hl'
  cases r with
  | nil =>
    -- `l` ends there, so `l'` does
    have hend := hall l' hl'
    rw [← hr, ← hr', List.append_nil, List.getElem?_eq_none (Nat.le_refl _), List.getElem?_eq_none_iff,
      List.length_append] at hend
    obtain rfl : r' = [] := List.eq_nil_of_length_eq_zero (by omega)
    exact hne (hr'.symm.trans hr)
  | cons c r =>
    have hlonger : longestCommonPrefix ls ++ [c] <+: longestCommonPrefix ls := by
      rw [prefix_longestCommonPrefix_iff (List.ne_nil_of_mem hl)]
      intro m hm
      obtain ⟨s, hs⟩ := longestCommonPrefix_prefix hm
      have hnext := hall m hm
      rw [← hr, ← hs, List.getElem?_append_right (Nat.le_refl _), List.getElem?_append_right (Nat.le_refl _),
        Nat.sub_self, List.getElem?_cons_zero] at hnext
      obtain ⟨s', rfl⟩ : ∃ s', s = c :: s' := by
        cases s with
        | nil => cases hnext
        | cons d s' =>
          rw [List.getElem?_cons_zero] at hnext
          exact ⟨s', by rw [Option.some_inj.mp hnext]⟩
      exact ⟨s', by rw [← hs, List.append_assoc, List.singleton_append]⟩
    have hlen := hlonger.length_le
    rw [List.length_append, List.length_singleton] at hlen
    omega

end LongestCommonPrefix

/-! ## Lexicographic order -/

section Lexicographic

variable [LT α] [Std.Asymm (· < · : α → α → Prop)] {t a b c : List α} {ls : List (List α)}

theorem prefix_of_between (hab : a < b) (hbc : b < c) (ha : t <+: a) (hc : t <+: c) : t <+: b := by
  induction t generalizing a b c with
  | nil => exact List.nil_prefix
  | cons x t ih =>
    obtain ⟨a, rfl⟩ : ∃ a', a = x :: a' := by
      obtain ⟨r, rfl⟩ := ha
      exact ⟨t ++ r, rfl⟩
    obtain ⟨c, rfl⟩ : ∃ c', c = x :: c' := by
      obtain ⟨r, rfl⟩ := hc
      exact ⟨t ++ r, rfl⟩
    rw [List.cons_prefix_cons] at ha hc
    cases b with
    | nil => cases hab
    | cons y b =>
      rw [← List.lex_lt, List.cons_lex_cons_iff] at hab hbc
      rcases hab with hxy | ⟨rfl, hab⟩
      · rcases hbc with hyx | ⟨rfl, -⟩
        · exact absurd hyx (Std.Asymm.asymm x y hxy)
        · exact absurd hxy (Std.Asymm.asymm y y hxy)
      · rcases hbc with hxx | ⟨-, hbc⟩
        · exact absurd hxx (Std.Asymm.asymm x x hxx)
        · exact List.cons_prefix_cons.mpr ⟨rfl, ih hab hbc ha.2 hc.2⟩

/-- **The lists that begin with `t`** follow the first of them. -/
theorem takeWhile_prefix_eq_filter [DecidableEq α] (h : (a :: ls).Pairwise (· < ·)) (ha : t <+: a) :
    (a :: ls).takeWhile (t <+: ·) = (a :: ls).filter (t <+: ·) := by
  induction ls generalizing a with
  | nil => simp [ha]
  | cons b ls ih =>
    obtain ⟨hlt, hrest⟩ := List.pairwise_cons.mp h
    rw [List.takeWhile_cons_of_pos (by simpa using ha), List.filter_cons_of_pos (by simpa using ha)]
    by_cases hb : t <+: b
    · rw [ih hrest hb]
    · have hnone : (b :: ls).filter (t <+: ·) = [] := by
        rw [List.filter_eq_nil_iff]
        intro c hc
        rcases List.mem_cons.mp hc with rfl | hc
        · simpa using hb
        · have hbc := (List.pairwise_cons.mp hrest).1 c hc
          intro htc
          exact hb (prefix_of_between (hlt b List.mem_cons_self) hbc ha (by simpa using htc))
      rw [hnone, List.takeWhile_cons_of_neg (by simpa using hb)]

end Lexicographic

end Monolinux
