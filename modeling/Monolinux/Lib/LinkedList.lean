import Mathlib.Logic.Function.Basic
import Mathlib.Data.List.Nodup

/-!
# Linked lists

`Linked next p l`: following `next` from `p` visits exactly the elements `l`, and then the
list ends.  Nothing is ever removed from such a list; an element is put in front of it
by pointing it to the old head.

* `Linked.unique`, `Linked.nodup`: the elements are determined, and no element is
  visited twice;
* `Linked.push`: a new element is put in front;
* `Reaches.not_linked`: with an element that is visited again the list has no end;
* `Reaches.update_self`, `Reaches.update`: an element in front that is visited
  already is visited again, and a new one leaves a cycle as it is.
-/

namespace Monolinux

variable {ι : Type*} {next next' : ι → Option ι} {p head : Option ι} {a : ι} {l l' : List ι}

inductive Linked (next : ι → Option ι) : Option ι → List ι → Prop
  | nil : Linked next none []
  | cons {a : ι} {l : List ι} (h : Linked next (next a) l) : Linked next (some a) (a :: l)

theorem Linked.unique (h : Linked next p l) (h' : Linked next p l') : l = l' := by
  induction h generalizing l' with
  | nil =>
    cases h'
    rfl
  | cons _ ih =>
    cases h' with
    | cons h' => rw [ih h']

/-- What is behind an element of the list. -/
theorem Linked.of_mem (h : Linked next p l) (ha : a ∈ l) : ∃ front back, l = front ++ a :: back ∧
    Linked next (some a) (a :: back) := by
  induction h with
  | nil => exact absurd ha List.not_mem_nil
  | cons h ih =>
    rcases List.mem_cons.mp ha with rfl | ha
    · exact ⟨[], _, rfl, .cons h⟩
    · obtain ⟨front, back, hl, hback⟩ := ih ha
      exact ⟨_ :: front, back, by rw [hl, List.cons_append], hback⟩

theorem Linked.nodup (h : Linked next p l) : l.Nodup := by
  induction h with
  | nil => exact List.nodup_nil
  | cons h ih =>
    refine List.nodup_cons.mpr ⟨fun ha => ?_, ih⟩
    -- the rest of the list would be a part of itself
    obtain ⟨front, back, hl, hback⟩ := h.of_mem ha
    have hsame := (Linked.cons h).unique hback
    have hlen := congrArg List.length hl
    rw [(List.cons.inj hsame).2, List.length_append, List.length_cons] at hlen
    omega

theorem Linked.congr (h : Linked next p l) (heq : ∀ b ∈ l, next' b = next b) : Linked next' p l := by
  induction h with
  | nil => exact .nil
  | cons h ih =>
    obtain ⟨ha, hl⟩ := List.forall_mem_cons.mp heq
    have hrest := ih hl
    rw [← ha] at hrest
    exact .cons hrest

variable [DecidableEq ι]

theorem Linked.push (h : Linked next head l) (ha : a ∉ l) :
    Linked (Function.update next a head) (some a) (a :: l) := by
  have hrest : Linked (Function.update next a head) head l := by
    apply h.congr
    intro b hb
    rw [Function.update_of_ne]
    rintro rfl
    exact ha hb
  refine .cons ?_
  rwa [Function.update_self]

/-! ## Cycles -/

omit [DecidableEq ι]

/-- Following `next` from `p` visits `a`. -/
inductive Reaches (next : ι → Option ι) : Option ι → ι → Prop
  | here (a : ι) : Reaches next (some a) a
  | further {a b : ι} (h : Reaches next (next b) a) : Reaches next (some b) a

theorem Linked.reaches (h : Linked next p l) (ha : a ∈ l) : Reaches next p a := by
  induction h with
  | nil => exact absurd ha List.not_mem_nil
  | cons _ ih =>
    rcases List.mem_cons.mp ha with rfl | ha
    · exact .here _
    · exact .further (ih ha)

theorem Linked.mem_of_reaches (h : Linked next p l) (hr : Reaches next p a) : a ∈ l := by
  induction h with
  | nil => cases hr
  | cons _ ih =>
    cases hr with
    | here => exact List.mem_cons_self
    | further hr => exact List.mem_cons_of_mem _ (ih hr)

theorem Reaches.trans {c : ι} (h : Reaches next p a) (h' : Reaches next (next a) c) : Reaches next p c := by
  induction h with
  | here b => exact .further h'
  | further _ ih => exact .further (ih h')

/-- What is visited stays in a set that the pointers do not leave. -/
theorem Reaches.mem_of_closed {s : Set ι} (h : Reaches next p a) (hp : ∀ b, p = some b → b ∈ s)
    (hs : ∀ b ∈ s, ∀ d, next b = some d → d ∈ s) : a ∈ s := by
  induction h with
  | here b => exact hp b rfl
  | further _ ih => exact ih (hs _ (hp _ rfl))

/-- **An element that is visited again** after itself: the list has no end. -/
theorem Reaches.not_linked (h : Reaches next p a) (hcycle : Reaches next (next a) a) (l : List ι) : ¬Linked next p l := by
  intro hl
  obtain ⟨front, back, rfl, hback⟩ := hl.of_mem (hl.mem_of_reaches h)
  cases hback with
  | cons hback =>
    -- the element is in the list a second time
    have hnodup := (List.nodup_append.mp hl.nodup).2.1
    exact (List.nodup_cons.mp hnodup).1 (hback.mem_of_reaches hcycle)

variable [DecidableEq ι] {b : ι}

/-- Where `a` points to does not matter on the way to `a`. -/
theorem Reaches.update_self (h : Reaches next p a) (q : Option ι) : Reaches (Function.update next a q) p a := by
  induction h with
  | here b => exact .here b
  | @further a b _ ih =>
    by_cases hb : b = a
    · subst hb
      exact .here b
    · refine .further ?_
      rwa [Function.update_of_ne hb]

/-- Where an element points to that is not visited does not matter. -/
theorem Reaches.update (h : Reaches next p a) (hb : ¬Reaches next p b) (q : Option ι) :
    Reaches (Function.update next b q) p a := by
  induction h with
  | here c => exact .here c
  | @further a c _ ih =>
    have hc : c ≠ b := by
      rintro rfl
      exact hb (.here c)
    refine .further ?_
    rw [Function.update_of_ne hc]
    exact ih fun h => hb (.further h)

end Monolinux
