import Monolinux.Lib.LinkedList

/-!
# Doubly linked lists

`DLinked next prev head tail l`: following `next` from `head` visits the elements `l` in
order, and following `prev` from `tail` visits them in the opposite order.

  the neighbours of an element       (`DLinked.next_eq`, `DLinked.prev_eq`)
  a new element at the end           (`DLinked.single`, `DLinked.snoc`)
  the first element is taken out     (`DLinked.unlinkHead`)
-/

namespace Monolinux

variable {ι : Type*} {next next' prev prev' : ι → Option ι} {p head tail : Option ι} {a q : ι} {l front back : List ι}

/-! ## One direction -/

theorem Linked.head_eq (h : Linked next p l) : p = l.head? := by
  cases h with
  | nil => rfl
  | cons => rfl

theorem Linked.next_eq (h : Linked next p (front ++ a :: back)) : next a = back.head? := by
  induction front generalizing p with
  | nil =>
    cases h with
    | cons h => exact h.head_eq
  | cons b front ih =>
    cases h with
    | cons h => exact ih h

variable [DecidableEq ι]

/-- The list ends where an element is made to point nowhere. -/
theorem Linked.cut (h : Linked next p (front ++ a :: back)) : Linked (Function.update next a none) p (front ++ [a]) := by
  have hnodup := h.nodup
  induction front generalizing p with
  | nil =>
    cases h with
    | cons h =>
      refine .cons ?_
      rw [Function.update_self]
      exact .nil
  | cons b front ih =>
    cases h with
    | cons h =>
      obtain ⟨hb, hrest⟩ := List.nodup_cons.mp hnodup
      have hne : b ≠ a := by
        rintro rfl
        exact hb (List.mem_append_right _ List.mem_cons_self)
      refine .cons ?_
      rw [Function.update_of_ne hne]
      exact ih h hrest

/-- The last element is made to point to a new one. -/
theorem Linked.extend (h : Linked next p (front ++ [q])) (ha : a ∉ front ++ [q]) :
    Linked (Function.update (Function.update next a none) q (some a)) p (front ++ [q] ++ [a]) := by
  have hnodup := h.nodup
  have hne : a ≠ q := fun heq => ha (by rw [heq]; exact List.mem_append_right _ List.mem_cons_self)
  have hlast : Linked (Function.update (Function.update next a none) q (some a)) (some a) [a] := by
    refine .cons ?_
    rw [Function.update_of_ne hne, Function.update_self]
    exact .nil
  induction front generalizing p with
  | nil =>
    cases h with
    | cons h =>
      refine .cons ?_
      rw [Function.update_self]
      exact hlast
  | cons b front ih =>
    cases h with
    | cons h =>
      obtain ⟨hb, hrest⟩ := List.nodup_cons.mp hnodup
      have hbq : b ≠ q := by
        rintro rfl
        exact hb (List.mem_append_right _ List.mem_cons_self)
      have hba : b ≠ a := by
        rintro rfl
        exact ha List.mem_cons_self
      refine .cons ?_
      rw [Function.update_of_ne hbq, Function.update_of_ne hba]
      exact ih h (fun hmem => ha (List.mem_cons_of_mem _ hmem)) hrest

/-- An element outside the list can point anywhere. -/
theorem Linked.update_of_notMem (h : Linked next p l) (ha : a ∉ l) (r : Option ι) :
    Linked (Function.update next a r) p l := by
  apply h.congr
  intro b hb
  rw [Function.update_of_ne]
  rintro rfl
  exact ha hb

/-! ## Both directions -/

omit [DecidableEq ι] in
structure DLinked (next prev : ι → Option ι) (head tail : Option ι) (l : List ι) : Prop where
  forward : Linked next head l
  backward : Linked prev tail l.reverse

namespace DLinked

omit [DecidableEq ι]

theorem head_eq (h : DLinked next prev head tail l) : head = l.head? := h.forward.head_eq

theorem tail_eq (h : DLinked next prev head tail l) : tail = l.getLast? := by
  rw [List.getLast?_eq_head?_reverse]
  exact h.backward.head_eq

theorem nodup (h : DLinked next prev head tail l) : l.Nodup := h.forward.nodup

theorem next_eq (h : DLinked next prev head tail (front ++ a :: back)) : next a = back.head? := h.forward.next_eq

theorem prev_eq (h : DLinked next prev head tail (front ++ a :: back)) : prev a = front.getLast? := by
  have hback := h.backward
  rw [List.reverse_append, List.reverse_cons, List.append_assoc] at hback
  rw [List.getLast?_eq_head?_reverse]
  exact hback.next_eq

/-- The neighbours of an element are elements. -/
theorem closed (h : DLinked next prev head tail l) (ha : a ∈ l) (hq : next a = some q ∨ prev a = some q) : q ∈ l := by
  obtain ⟨front, back, rfl⟩ := List.append_of_mem ha
  rcases hq with hq | hq
  · rw [h.next_eq] at hq
    exact List.mem_append_right _ (List.mem_cons_of_mem _ (List.mem_of_head? hq))
  · rw [h.prev_eq] at hq
    exact List.mem_append_left _ (List.mem_of_getLast? hq)

theorem nil : DLinked next prev none none [] := ⟨.nil, .nil⟩

variable [DecidableEq ι]

theorem single (next prev : ι → Option ι) (a : ι) :
    DLinked (Function.update next a none) (Function.update prev a none) (some a) (some a) [a] := by
  constructor
  · refine .cons ?_
    rw [Function.update_self]
    exact .nil
  · refine .cons ?_
    rw [Function.update_self]
    exact .nil

/-- **A new element at the end.** -/
theorem snoc (h : DLinked next prev head (some q) (front ++ [q])) (ha : a ∉ front ++ [q]) :
    DLinked (Function.update (Function.update next a none) q (some a)) (Function.update prev a (some q)) head (some a)
      (front ++ [q] ++ [a]) := by
  constructor
  · exact h.forward.extend ha
  · rw [List.reverse_append]
    exact h.backward.push fun hmem => ha (List.mem_reverse.mp hmem)

/-- **The first element is taken out**; where it points does not matter any more. -/
theorem unlinkHead {b : ι} (h : DLinked next prev (some a) tail (a :: b :: l)) (r r' : Option ι) :
    DLinked (Function.update next a r) (Function.update (Function.update prev b none) a r') (some b) tail (b :: l) := by
  obtain ⟨ha, _⟩ := List.nodup_cons.mp h.nodup
  constructor
  · have hrest : Linked next (some b) (b :: l) := by
      cases h.forward with
      | cons hrest =>
        have := hrest.head_eq
        rwa [this] at hrest
    exact hrest.update_of_notMem ha r
  · have hback := h.backward
    rw [List.reverse_cons, List.reverse_cons, List.append_assoc] at hback
    have hcut : Linked (Function.update prev b none) tail (b :: l).reverse := by
      rw [List.reverse_cons]
      exact hback.cut
    exact hcut.update_of_notMem (fun hmem => ha (List.mem_reverse.mp hmem)) r'

end DLinked

end Monolinux
