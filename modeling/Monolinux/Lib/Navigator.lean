import Mathlib.Logic.Function.Iterate
import Mathlib.Data.List.Basic
import Mathlib.Tactic.Common

/-!
# A cursor over a list of entries

A `Navigator` has a list of entries and, behind them, a text that is edited.  Its position
is one of the entries, the first of `newer`, or the edited text when `newer` is empty.
`text` is what is shown and `saved` the edited text while the position is at an entry;
`view` is how an entry or the saved text is shown.

* `downs_eq`: enough steps down end at the edited text;
* `downs_ups`: steps up and enough steps down give the edited text back.
-/

namespace Monolinux

structure Navigator (α : Type*) where
  older : List α
  newer : List α
  text : α
  saved : α

inductive NavigatorKey (α : Type*)
  /-- The text is edited. -/
  | edit (f : α → α)
  | up
  | down
  /-- The entries change as `store` says, and another text is edited. -/
  | enter (store : List α → α → List α) (blank : α)

namespace Navigator

variable {α : Type*} (view : α → α)

/-- One entry back; the edited text is saved when it is left. -/
def up (n : Navigator α) : Navigator α :=
  match n.older.getLast? with
  | none => n
  | some a =>
    { older := n.older.dropLast, newer := a :: n.newer, text := view a,
      saved := if n.newer.isEmpty then n.text else n.saved }

/-- One entry forward; behind the last one is the saved text. -/
def down (n : Navigator α) : Navigator α :=
  match n.newer with
  | [] => n
  | a :: newer => { n with older := n.older ++ [a], newer, text := view (newer.head?.getD n.saved) }

def press (n : Navigator α) : NavigatorKey α → Navigator α
  | .edit f => { n with text := f n.text }
  | .up => n.up view
  | .down => n.down view
  | .enter store blank => ⟨store (n.older ++ n.newer) n.text, [], blank, blank⟩

variable {view} {n : Navigator α}

theorem up_of_nil (h : n.older = []) : n.up view = n := by
  unfold up
  rw [h]
  rfl

theorem up_of_snoc {older : List α} {a : α} (h : n.older = older ++ [a]) :
    n.up view = ⟨older, a :: n.newer, view a, if n.newer.isEmpty then n.text else n.saved⟩ := by
  unfold up
  rw [h, List.getLast?_concat, List.dropLast_concat]

theorem down_of_nil (h : n.newer = []) : n.down view = n := by
  unfold down
  rw [h]

theorem down_of_cons {newer : List α} {a : α} (h : n.newer = a :: newer) :
    n.down view = ⟨n.older ++ [a], newer, view (newer.head?.getD n.saved), n.saved⟩ := by
  unfold down
  rw [h]

theorem downs_of_nil (h : n.newer = []) (j : ℕ) : (down view)^[j] n = n := by
  induction j with
  | zero => rfl
  | succ j ih => rw [Function.iterate_succ_apply, down_of_nil h, ih]

/-- **Enough steps down.** -/
theorem downs_eq (hne : n.newer ≠ []) {j : ℕ} (hj : n.newer.length ≤ j) :
    (down view)^[j] n = ⟨n.older ++ n.newer, [], view n.saved, n.saved⟩ := by
  obtain ⟨older, newer, text, saved⟩ := n
  dsimp only at hne hj ⊢
  induction newer generalizing older text j with
  | nil => exact absurd rfl hne
  | cons a newer ih =>
    obtain ⟨j, rfl⟩ : ∃ i, j = i + 1 := ⟨j - 1, by rw [List.length_cons] at hj; omega⟩
    rw [Function.iterate_succ_apply, down_of_cons rfl]
    dsimp only
    cases newer with
    | nil => exact downs_of_nil rfl j
    | cons b newer =>
      rw [ih (older ++ [a]) _ (List.cons_ne_nil b newer) (by rw [List.length_cons] at hj; omega), List.append_assoc]
      rfl

/-- Steps up from the edited text: nothing has moved, or it is saved. -/
theorem ups_cases (hn : n.newer = []) (k : ℕ) : ((up view)^[k] n = n) ∨
    ((up view)^[k] n).newer ≠ [] ∧ ((up view)^[k] n).older ++ ((up view)^[k] n).newer = n.older ∧
      ((up view)^[k] n).newer.length ≤ k ∧ ((up view)^[k] n).saved = n.text := by
  induction k with
  | zero => exact .inl rfl
  | succ k ih =>
    rw [Function.iterate_succ_apply']
    rcases ih with heq | ⟨hne, hall, hlen, hsaved⟩
    · rw [heq]
      rcases List.eq_nil_or_concat' n.older with hnil | ⟨older, a, holder⟩
      · exact .inl (up_of_nil hnil)
      · rw [up_of_snoc holder, hn, holder]
        exact .inr ⟨List.cons_ne_nil _ _, rfl, by rw [List.length_singleton]; omega, rfl⟩
    · generalize (up view)^[k] n = m at *
      rcases List.eq_nil_or_concat' m.older with hnil | ⟨older, a, holder⟩
      · rw [up_of_nil hnil]
        exact .inr ⟨hne, hall, by omega, hsaved⟩
      · have hempty : m.newer.isEmpty = false := by
          cases hm : m.newer with
          | nil => exact absurd hm hne
          | cons => rfl
        rw [up_of_snoc holder, hempty]
        refine .inr ⟨List.cons_ne_nil _ _, ?_, ?_, hsaved⟩
        · rw [← hall, holder, List.append_assoc, List.singleton_append]
        · rw [List.length_cons]
          omega

/-- **Up and down again** gives the edited text back. -/
theorem downs_ups (hn : n.newer = []) {k j : ℕ} (hj : min k n.older.length ≤ j) :
    (down view)^[j] ((up view)^[k] n) = n ∨
      (down view)^[j] ((up view)^[k] n) = ⟨n.older, [], view n.text, n.text⟩ := by
  rcases ups_cases hn k with heq | ⟨hne, hall, hlen, hsaved⟩
  · rw [heq]
    exact .inl (downs_of_nil hn j)
  · have hlen' := congrArg List.length hall
    rw [List.length_append] at hlen'
    rw [downs_eq hne (by omega), hall, hsaved]
    exact .inr rfl

end Navigator

end Monolinux
