import Mathlib.Data.List.Perm.Basic
import Mathlib.Data.List.Nodup

/-!
# Delta lists

A delta list keeps the expiry times of its keys in ascending order, each one as
the difference to the one before it.  `due l a` is the time left for `a`: the
sum of the differences from the head up to `a`.

Inserting and removing a key touch one neighbour and change the time of no other
key (`due_insert_of_ne`, `due_remove_of_ne`); taking one from the head's
difference takes one from every time (`due_decHead`); a head whose difference is
zero can be dropped (`due_drop_of_ne`).
-/

namespace Monolinux

variable {α : Type*} [DecidableEq α]

namespace DeltaList

def keys (l : List (α × ℕ)) : List α := l.map Prod.fst

/-- Time left for `a`, if it is in the list. -/
def due : List (α × ℕ) → α → Option ℕ
  | [], _ => none
  | (b, d) :: l, a => if b = a then some d else (due l a).map (d + ·)

/-- Puts `a` before the first key that is due no earlier. -/
def insert (a : α) : ℕ → List (α × ℕ) → List (α × ℕ)
  | d, [] => [(a, d)]
  | d, (b, e) :: l => if e < d then (b, e) :: insert a (d - e) l else (a, d) :: (b, e - d) :: l

/-- Hands the head `d` more time. -/
def addHead (d : ℕ) : List (α × ℕ) → List (α × ℕ)
  | [] => []
  | (b, e) :: l => (b, e + d) :: l

def remove (a : α) : List (α × ℕ) → List (α × ℕ)
  | [] => []
  | (b, d) :: l => if b = a then addHead d l else (b, d) :: remove a l

def decHead : List (α × ℕ) → List (α × ℕ)
  | [] => []
  | (b, d) :: l => (b, d - 1) :: l

/-- No key is due now. -/
def HeadPos : List (α × ℕ) → Prop
  | [] => True
  | (_, d) :: _ => 0 < d

/-- Number of keys at the head that are due now. -/
def zeros : List (α × ℕ) → ℕ
  | [] => 0
  | (_, d) :: l => if d = 0 then zeros l + 1 else 0

/-! ## Times and keys -/

theorem due_eq_none {l : List (α × ℕ)} {a : α} : due l a = none ↔ a ∉ keys l := by
  induction l with
  | nil => simp [due, keys]
  | cons e l ih =>
    obtain ⟨b, d⟩ := e
    have hk : keys ((b, d) :: l) = b :: keys l := rfl
    rw [hk, due, List.mem_cons]
    by_cases h : b = a
    · simp [h]
    · rw [if_neg h, Option.map_eq_none_iff, ih]
      have := Ne.symm h
      simp [this]

theorem mem_keys_of_due {l : List (α × ℕ)} {a : α} {d : ℕ} (h : due l a = some d) : a ∈ keys l := by
  by_contra hn
  rw [due_eq_none.mpr hn] at h
  cases h

/-- A key's own difference is at most its time. -/
theorem le_due {l : List (α × ℕ)} (hn : (keys l).Nodup) {a : α} {d : ℕ} (hm : (a, d) ∈ l) :
    ∃ r, due l a = some r ∧ d ≤ r := by
  induction l with
  | nil => cases hm
  | cons e l ih =>
    obtain ⟨b, e⟩ := e
    have hk : keys ((b, e) :: l) = b :: keys l := rfl
    rw [hk, List.nodup_cons] at hn
    rcases List.mem_cons.mp hm with h | h
    · cases h
      exact ⟨d, by simp [due], Nat.le_refl d⟩
    · have hne : b ≠ a := by
        rintro rfl
        exact hn.1 (List.mem_map_of_mem h)
      obtain ⟨r, hr, hle⟩ := ih hn.2 h
      exact ⟨e + r, by simp [due, hne, hr], by omega⟩

theorem HeadPos.due_pos {l : List (α × ℕ)} (h : HeadPos l) {a : α} {r : ℕ} (hr : due l a = some r) : 0 < r := by
  cases l with
  | nil => cases hr
  | cons e l =>
    obtain ⟨b, d⟩ := e
    have hd : 0 < d := h
    unfold due at hr
    split at hr
    · obtain rfl := Option.some.inj hr
      exact hd
    · obtain ⟨r', -, rfl⟩ := Option.map_eq_some_iff.mp hr
      omega

/-! ## Insertion -/

omit [DecidableEq α] in
theorem keys_insert (a : α) (d : ℕ) (l : List (α × ℕ)) : (keys (insert a d l)).Perm (a :: keys l) := by
  induction l generalizing d with
  | nil => exact List.Perm.refl _
  | cons e l ih =>
    obtain ⟨b, e⟩ := e
    unfold insert
    split
    · exact ((ih (d - e)).cons b).trans (List.Perm.swap a b (keys l))
    · exact List.Perm.refl _

omit [DecidableEq α] in
theorem nodup_insert {a : α} {d : ℕ} {l : List (α × ℕ)} (hn : (keys l).Nodup) (ha : a ∉ keys l) :
    (keys (insert a d l)).Nodup :=
  (keys_insert a d l).nodup_iff.mpr (List.nodup_cons.mpr ⟨ha, hn⟩)

omit [DecidableEq α] in
theorem mem_keys_insert {a b : α} {d : ℕ} {l : List (α × ℕ)} : b ∈ keys (insert a d l) ↔ b = a ∨ b ∈ keys l := by
  rw [(keys_insert a d l).mem_iff, List.mem_cons]

theorem due_insert_self {a : α} {d : ℕ} {l : List (α × ℕ)} (ha : a ∉ keys l) : due (insert a d l) a = some d := by
  induction l generalizing d with
  | nil => simp [insert, due]
  | cons e l ih =>
    obtain ⟨b, e⟩ := e
    have hb : b ≠ a := fun h => ha (h ▸ List.mem_cons_self)
    unfold insert
    split
    · next hlt =>
      rw [due, if_neg hb, ih (fun h => ha (List.mem_cons_of_mem _ h)), Option.map_some]
      congr 1
      omega
    · simp [due]

theorem due_insert_of_ne {a b : α} (h : b ≠ a) (d : ℕ) (l : List (α × ℕ)) : due (insert a d l) b = due l b := by
  induction l generalizing d with
  | nil => simp [insert, due, Ne.symm h]
  | cons e l ih =>
    obtain ⟨c, e⟩ := e
    unfold insert
    split
    · rw [due, due, ih]
    · next hge =>
      rw [due, if_neg (Ne.symm h), due, due]
      split
      · rw [Option.map_some]
        congr 1
        omega
      · rw [Option.map_map]
        congr 1
        funext x
        simp only [Function.comp]
        omega

omit [DecidableEq α] in
theorem HeadPos.insert {a : α} {d : ℕ} {l : List (α × ℕ)} (h : HeadPos l) (hd : 0 < d) :
    HeadPos (insert a d l) := by
  cases l with
  | nil => exact hd
  | cons e l =>
    obtain ⟨b, e⟩ := e
    unfold DeltaList.insert
    split
    · exact h
    · exact hd

/-! ## Removal -/

omit [DecidableEq α] in
theorem keys_addHead (d : ℕ) (l : List (α × ℕ)) : keys (addHead d l) = keys l := by
  cases l <;> rfl

theorem due_addHead (d : ℕ) (l : List (α × ℕ)) (a : α) : due (addHead d l) a = (due l a).map (d + ·) := by
  cases l with
  | nil => rfl
  | cons e l =>
    obtain ⟨b, e⟩ := e
    unfold addHead due
    split
    · rw [Option.map_some, Nat.add_comm]
    · rw [Option.map_map]
      congr 1
      funext x
      simp only [Function.comp]
      omega

theorem keys_remove (a : α) (l : List (α × ℕ)) : keys (remove a l) = (keys l).erase a := by
  induction l with
  | nil => rfl
  | cons e l ih =>
    obtain ⟨b, d⟩ := e
    unfold remove
    split
    · next h =>
      rw [keys_addHead, h]
      exact (List.erase_cons_head a (keys l)).symm
    · next h =>
      show b :: keys (remove a l) = (b :: keys l).erase a
      rw [ih, List.erase_cons_tail (by simpa using h)]

theorem due_remove_self {a : α} {l : List (α × ℕ)} (hn : (keys l).Nodup) : due (remove a l) a = none := by
  rw [due_eq_none, keys_remove]
  exact hn.not_mem_erase

theorem due_remove_of_ne {a b : α} (h : b ≠ a) (l : List (α × ℕ)) : due (remove a l) b = due l b := by
  induction l with
  | nil => rfl
  | cons e l ih =>
    obtain ⟨c, d⟩ := e
    unfold remove
    split
    · next hc => rw [due_addHead, due, hc, if_neg (Ne.symm h)]
    · rw [due, due, ih]

theorem HeadPos.remove {a : α} {l : List (α × ℕ)} (h : HeadPos l) : HeadPos (remove a l) := by
  cases l with
  | nil => exact h
  | cons e l =>
    obtain ⟨b, d⟩ := e
    have hd : 0 < d := h
    unfold DeltaList.remove
    split
    · cases l with
      | nil => exact trivial
      | cons e l => exact Nat.add_pos_right _ hd
    · exact hd

/-! ## Time passes -/

theorem due_decHead {l : List (α × ℕ)} (h : HeadPos l) (a : α) : due (decHead l) a = (due l a).map (· - 1) := by
  cases l with
  | nil => rfl
  | cons e l =>
    obtain ⟨b, d⟩ := e
    have hd : 0 < d := h
    unfold decHead due
    split
    · rfl
    · rw [Option.map_map]
      congr 1
      funext x
      simp only [Function.comp]
      omega

theorem due_head (b : α) (d : ℕ) (l : List (α × ℕ)) : due ((b, d) :: l) b = some d := by simp [due]

theorem due_drop_of_ne {a b : α} (h : a ≠ b) (l : List (α × ℕ)) : due ((b, 0) :: l) a = due l a := by
  rw [due, if_neg (Ne.symm h)]
  cases due l a with
  | none => rfl
  | some r => rw [Option.map_some, Nat.zero_add]

/-! ## Keys that are due -/

omit [DecidableEq α] in
theorem zeros_le_length (l : List (α × ℕ)) : zeros l ≤ l.length := by
  induction l with
  | nil => exact Nat.le_refl 0
  | cons e l ih =>
    unfold zeros
    split
    · exact Nat.succ_le_succ ih
    · exact Nat.zero_le _

omit [DecidableEq α] in
theorem zeros_eq_zero {l : List (α × ℕ)} : zeros l = 0 ↔ HeadPos l := by
  cases l with
  | nil => exact ⟨fun _ => trivial, fun _ => rfl⟩
  | cons e l =>
    obtain ⟨b, d⟩ := e
    show (if d = 0 then zeros l + 1 else 0) = 0 ↔ 0 < d
    split <;> omega

omit [DecidableEq α] in
theorem zeros_insert (a : α) {d : ℕ} (hd : 0 < d) (l : List (α × ℕ)) : zeros (insert a d l) = zeros l := by
  induction l generalizing d with
  | nil => simp [insert, zeros, Nat.pos_iff_ne_zero.mp hd]
  | cons e l ih =>
    obtain ⟨b, e⟩ := e
    unfold insert
    split
    · next hlt => rw [zeros, zeros, ih (by omega)]
    · next hge =>
      have he : e ≠ 0 := by omega
      have hd' : d ≠ 0 := by omega
      simp [zeros, he, hd']

end DeltaList

end Monolinux
