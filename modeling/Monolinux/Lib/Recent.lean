import Mathlib.Data.List.Destutter
import Mathlib.Data.List.DropRight
import Mathlib.Tactic.Common

/-!
# The most recent entries

`recent n l`: what a list of at most `n` entries holds after the entries `l` were put at
its end, one after the other, when an entry that repeats the last one is left out and the
oldest one makes room.

  one more entry    (`recent_snoc`)
-/

namespace Monolinux

variable {α : Type*} [DecidableEq α]

def recent (n : ℕ) (l : List α) : List α := (l.destutter (· ≠ ·)).rtake n

theorem mem_of_mem_recent {n : ℕ} {l : List α} {a : α} (ha : a ∈ recent n l) : a ∈ l :=
  (List.destutter_sublist _ l).subset (List.mem_of_mem_drop ha)

/-- A list without repetitions grows at its end. -/
theorem destutter_snoc (l : List α) (a : α) :
    (l ++ [a]).destutter (· ≠ ·) =
      if (l.destutter (· ≠ ·)).getLast? = some a then l.destutter (· ≠ ·) else l.destutter (· ≠ ·) ++ [a] := by
  cases l with
  | nil => rfl
  | cons b l =>
    rw [List.cons_append, List.destutter_cons', List.destutter_cons']
    induction l generalizing b with
    | nil =>
      rw [List.nil_append, List.destutter'_singleton, List.destutter'_nil]
      by_cases h : b = a
      · rw [h]
        simp
      · rw [if_pos h, if_neg (by simpa using h)]
        rfl
    | cons c l ih =>
      by_cases h : b ≠ c
      · rw [List.cons_append, List.destutter'_cons_pos _ h, List.destutter'_cons_pos _ h, ih c]
        have hlast : (b :: List.destutter' (· ≠ ·) c l).getLast? = (List.destutter' (· ≠ ·) c l).getLast? := by
          obtain ⟨x, y, hxy⟩ := List.exists_cons_of_ne_nil (List.destutter'_ne_nil (R := (· ≠ ·)) l (a := c))
          rw [hxy]
          rfl
        rw [hlast]
        split
        next => rfl
        next => rfl
      · rw [List.cons_append, List.destutter'_cons_neg _ h, List.destutter'_cons_neg _ h, ih b]

omit [DecidableEq α] in
theorem rtake_snoc {n : ℕ} (hn : 0 < n) (l : List α) (a : α) :
    (l ++ [a]).rtake n = (if (l.rtake n).length = n then (l.rtake n).tail else l.rtake n) ++ [a] := by
  have hlen : (l.rtake n).length = min n l.length := by
    unfold List.rtake
    rw [List.length_drop]
    omega
  unfold List.rtake at hlen ⊢
  rw [hlen, List.length_append, List.length_singleton]
  by_cases hfull : n ≤ l.length
  · rw [if_pos (Nat.min_eq_left hfull), List.drop_append_of_le_length (by omega), List.tail_drop,
      show l.length + 1 - n = l.length - n + 1 by omega]
  · rw [if_neg (by omega), List.drop_append_of_le_length (by omega), show l.length + 1 - n = 0 by omega,
      show l.length - n = 0 by omega]

omit [DecidableEq α] in
theorem getLast?_rtake {n : ℕ} (hn : 0 < n) (l : List α) : (l.rtake n).getLast? = l.getLast? := by
  rcases List.eq_nil_or_concat' l with rfl | ⟨l, a, rfl⟩
  · simp [List.rtake]
  · rw [rtake_snoc hn, List.getLast?_concat, List.getLast?_concat]

/-- **One more entry.** -/
theorem recent_snoc {n : ℕ} (hn : 0 < n) (l : List α) (a : α) :
    recent n (l ++ [a]) = if (recent n l).getLast? = some a then recent n l
      else (if (recent n l).length = n then (recent n l).tail else recent n l) ++ [a] := by
  unfold recent
  rw [destutter_snoc, getLast?_rtake hn]
  split
  next => rfl
  next => exact rtake_snoc hn _ a

end Monolinux
