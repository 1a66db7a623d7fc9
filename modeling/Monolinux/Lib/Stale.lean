import Monolinux.Lib.Run
import Mathlib.Data.List.Basic

/-!
# Telling stale messages by counting

A source makes messages that are checked in the order they were made.  A
cancellation makes all messages that are still on the way stale.  Two counters
are enough to tell them, without a mark in the message: the number of messages on
the way, and how many of the oldest of these are to be ignored.

  the counters in every run          (`stale_run`)
  what the next check must answer    (`stale_check`)
-/

namespace Monolinux

inductive StaleEvent
  | made
  | cancelled
  | checked
  deriving DecidableEq

structure StaleCounters where
  outstanding : ℕ
  toIgnore : ℕ

/-- The check takes the answer from `toIgnore`. -/
def stale : System StaleCounters StaleEvent where
  start := ⟨0, 0⟩
  enabled
    | c, .checked => 0 < c.outstanding
    | _, _ => True
  next
    | c, .made => ⟨c.outstanding + 1, c.toIgnore⟩
    | c, .cancelled => ⟨c.outstanding, c.outstanding⟩
    | c, .checked => ⟨c.outstanding - 1, c.toIgnore - 1⟩

def freshStep (l : List Bool) : StaleEvent → List Bool
  | .made => l ++ [true]
  | .cancelled => l.map fun _ => false
  | .checked => l

/-- For each message made in `tr`, oldest first: nothing was cancelled since. -/
def fresh (tr : List StaleEvent) : List Bool := tr.foldl freshStep []

theorem fresh_snoc (tr : List StaleEvent) (e : StaleEvent) : fresh (tr ++ [e]) = freshStep (fresh tr) e := by
  unfold fresh
  rw [List.foldl_append]
  rfl

theorem length_fresh (tr : List StaleEvent) : (fresh tr).length = tr.count .made := by
  induction tr using List.reverseRecOn with
  | nil => rfl
  | append_singleton tr e ih =>
    rw [fresh_snoc, List.count_append, ← ih]
    cases e <;> simp [freshStep]

/-- `fresh` says of the `k`-th message what its name promises. -/
theorem fresh_spec {tr : List StaleEvent} {k : ℕ} {b : Bool} (h : (fresh tr)[k]? = some b) :
    ∃ tr₁ tr₂, tr = tr₁ ++ .made :: tr₂ ∧ tr₁.count .made = k ∧ (b = true ↔ .cancelled ∉ tr₂) := by
  induction tr using List.reverseRecOn generalizing b with
  | nil => cases h
  | append_singleton tr e ih =>
    rw [fresh_snoc] at h
    cases e with
    | made =>
      have hlen := length_fresh tr
      by_cases hk : k < (fresh tr).length
      · rw [freshStep, List.getElem?_append_left hk] at h
        obtain ⟨tr₁, tr₂, rfl, hc, hb⟩ := ih h
        exact ⟨tr₁, tr₂ ++ [.made], by simp, hc, by rw [hb]; simp⟩
      · rw [freshStep, List.getElem?_append_right (by omega)] at h
        obtain ⟨hk0, hb⟩ := List.getElem?_eq_some_iff.mp h
        rw [List.length_singleton] at hk0
        exact ⟨tr, [], rfl, by omega, by rw [← hb]; simp⟩
    | cancelled =>
      rw [freshStep, List.getElem?_map, Option.map_eq_some_iff] at h
      obtain ⟨b', hb', rfl⟩ := h
      obtain ⟨tr₁, tr₂, rfl, hc, -⟩ := ih hb'
      exact ⟨tr₁, tr₂ ++ [.cancelled], by simp, hc, by simp⟩
    | checked =>
      obtain ⟨tr₁, tr₂, rfl, hc, hb⟩ := ih h
      exact ⟨tr₁, tr₂ ++ [.checked], by simp, hc, by rw [hb]; simp⟩

/-- **The counters.**  Of the messages on the way, the `toIgnore` oldest are stale and the others
are not. -/
theorem stale_run {tr : List StaleEvent} {c : StaleCounters} (h : stale.Run tr c) :
    c.toIgnore ≤ c.outstanding ∧ tr.count .checked + c.outstanding = tr.count .made ∧
      (fresh tr).drop (tr.count .checked) =
        List.replicate c.toIgnore false ++ List.replicate (c.outstanding - c.toIgnore) true := by
  induction h with
  | nil => exact ⟨Nat.le_refl 0, rfl, rfl⟩
  | @snoc tr c e _ he ih =>
    obtain ⟨hle, hsum, hdrop⟩ := ih
    have hlen := length_fresh tr
    rw [fresh_snoc]
    cases e with
    | made =>
      refine ⟨Nat.le_succ_of_le hle, by simp [stale]; omega, ?_⟩
      have hc : (tr ++ [StaleEvent.made]).count .checked = tr.count .checked := by simp
      rw [hc, freshStep, List.drop_append_of_le_length (by omega), hdrop]
      show _ = List.replicate c.toIgnore false ++ List.replicate (c.outstanding + 1 - c.toIgnore) true
      rw [Nat.succ_sub hle, List.replicate_succ', List.append_assoc]
    | cancelled =>
      refine ⟨Nat.le_refl _, by simpa [stale] using hsum, ?_⟩
      have hc : (tr ++ [StaleEvent.cancelled]).count .checked = tr.count .checked := by simp
      have hlen' := congrArg List.length hdrop
      rw [List.length_append, List.length_replicate, List.length_replicate] at hlen'
      rw [hc, freshStep, ← List.map_drop, List.map_const', hlen']
      show _ = List.replicate c.outstanding false ++ List.replicate (c.outstanding - c.outstanding) true
      rw [Nat.sub_self, List.replicate_zero, List.append_nil, Nat.add_sub_cancel' hle]
    | checked =>
      have hpos : 0 < c.outstanding := he
      refine ⟨Nat.sub_le_sub_right hle 1, by simp [stale]; omega, ?_⟩
      have hc : (tr ++ [StaleEvent.checked]).count .checked = tr.count .checked + 1 := by simp
      rw [hc, freshStep, ← List.drop_drop, hdrop]
      show _ = List.replicate (c.toIgnore - 1) false ++ List.replicate (c.outstanding - 1 - (c.toIgnore - 1)) true
      cases hi : c.toIgnore with
      | zero => simp
      | succ i =>
        rw [List.replicate_succ, List.cons_append, List.drop_one, List.tail_cons, Nat.add_sub_cancel]
        congr 2
        omega

/-- **The next check** finds `toIgnore` zero exactly if nothing was cancelled since its message
was made. -/
theorem stale_check {tr : List StaleEvent} {c : StaleCounters} (h : stale.Run tr c) (hpos : 0 < c.outstanding) :
    ∃ tr₁ tr₂, tr = tr₁ ++ .made :: tr₂ ∧ tr₁.count .made = tr.count .checked ∧
      (c.toIgnore = 0 ↔ .cancelled ∉ tr₂) := by
  obtain ⟨hle, -, hdrop⟩ := stale_run h
  have hhead : (fresh tr)[tr.count .checked]? = some (decide (c.toIgnore = 0)) := by
    rw [← List.head?_drop, hdrop]
    cases hi : c.toIgnore with
    | succ i => simp [List.replicate_succ]
    | zero =>
      obtain ⟨o, ho⟩ := Nat.exists_eq_add_of_lt hpos
      rw [Nat.zero_add] at ho
      simp [ho, List.replicate_succ]
  obtain ⟨tr₁, tr₂, htr, hc, hb⟩ := fresh_spec hhead
  exact ⟨tr₁, tr₂, htr, hc, by rw [← hb, decide_eq_true_eq]⟩

end Monolinux
