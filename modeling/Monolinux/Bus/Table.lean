import Monolinux.Lib.SortedTable

/-!
# `ml_bus_t`: who is subscribed to which message

The elements of a bus are an array sorted by the address of the message identifier;
an element lists the queues subscribed to its identifier, in the order they
subscribed.  `υ` is the type of identifiers, ordered by address, and `κ` the type of
queues.

`bus.queuesOf uid` are the queues that a broadcast of a message `uid` goes to:

  the table stays sorted and has no identifier twice, and
  one subscription adds one queue to one identifier        (`mlBusSubscribe_spec`)
  any sequence of subscriptions                            (`subscribeAll_spec`)
-/

namespace Monolinux

/-- `struct ml_bus_elem_t`; `number_of_queues` is the length of `queues`. -/
structure BusElem (υ κ : Type*) where
  uid : υ
  queues : List κ

/-- `struct ml_bus_t`. -/
structure Bus (υ κ : Type*) where
  elems : List (BusElem υ κ)

variable {υ κ : Type*} [LinearOrder υ]

def compareBsearch (uid : υ) (elem : BusElem υ κ) : ℤ :=
  if uid < elem.uid then -1 else if uid = elem.uid then 0 else 1

def compareQsort (lelem relem : BusElem υ κ) : ℤ :=
  if lelem.uid < relem.uid then -1 else if lelem.uid = relem.uid then 0 else 1

namespace Bus

variable (c : SortSearch υ (BusElem υ κ))

def insertElement (self : Bus υ κ) (uid : υ) : Bus υ κ where
  elems := c.sort compareQsort (self.elems ++ [⟨uid, []⟩])

/-- The index of the element. -/
def findElement (self : Bus υ κ) (uid : υ) : Option ℕ := c.search compareBsearch uid self.elems

def appendQueueToElement (self : Bus υ κ) (elem : ℕ) (queue : κ) : Bus υ κ where
  elems := self.elems.modify elem fun e => { e with queues := e.queues ++ [queue] }

def mlBusInit : Bus υ κ := ⟨[]⟩

/-- `none`: the element that was inserted is not found. -/
def mlBusSubscribe (self : Bus υ κ) (queue : κ) (uid : υ) : Option (Bus υ κ) :=
  match self.findElement c uid with
  | some elem => some (self.appendQueueToElement elem queue)
  | none => ((self.insertElement c uid).findElement c uid).map fun elem =>
      (self.insertElement c uid).appendQueueToElement elem queue

def subscribeAll (self : Bus υ κ) : List (κ × υ) → Option (Bus υ κ)
  | [] => some self
  | (queue, uid) :: subs => (self.mlBusSubscribe c queue uid).bind fun self' => subscribeAll self' subs

/-- The queues that a broadcast of `uid` goes to. -/
def queuesOf (self : Bus υ κ) (uid : υ) : List κ :=
  ((self.elems.find? fun e => e.uid = uid).map BusElem.queues).getD []

end Bus

/-- Sorted, without duplicates, and every element has a queue. -/
structure Bus.Wf (bus : Bus υ κ) : Prop where
  ascending : Ascending BusElem.uid bus.elems
  queues : ∀ e ∈ bus.elems, e.queues ≠ []

/-! ## Elements by identifier -/

section
variable {self : Bus υ κ} {uid : υ}

theorem queuesOf_of_mem (h : Ascending BusElem.uid self.elems) {e : BusElem υ κ} (he : e ∈ self.elems) :
    self.queuesOf e.uid = e.queues := by
  unfold Bus.queuesOf
  cases hf : self.elems.find? fun x => x.uid = e.uid with
  | none =>
    have := List.find?_eq_none.mp hf e he
    simp at this
  | some x =>
    have hx := List.mem_of_find?_eq_some hf
    have hxe : x.uid = e.uid := by simpa using List.find?_some hf
    obtain rfl := List.inj_on_of_nodup_map h.nodup hx he hxe
    rfl

theorem queuesOf_of_notMem (h : uid ∉ self.elems.map BusElem.uid) : self.queuesOf uid = [] := by
  unfold Bus.queuesOf
  have hf : (self.elems.find? fun x => x.uid = uid) = none := by
    rw [List.find?_eq_none]
    intro x hx hxu
    exact h (List.mem_map.mpr ⟨x, hx, by simpa using hxu⟩)
  rw [hf]
  rfl

end

/-! ## Subscriptions -/

section
variable {c : SortSearch υ (BusElem υ κ)} {self : Bus υ κ} {uid : υ}

theorem findElement_some (h : Ascending BusElem.uid self.elems) {i : ℕ} (hf : self.findElement c uid = some i) :
    ∃ e, self.elems[i]? = some e ∧ e.uid = uid := search_some c h hf

theorem findElement_none (h : Ascending BusElem.uid self.elems) (hf : self.findElement c uid = none) :
    uid ∉ self.elems.map BusElem.uid := search_none c h hf

theorem insertElement_spec (h : Ascending BusElem.uid self.elems) (hu : uid ∉ self.elems.map BusElem.uid) :
    Ascending BusElem.uid (self.insertElement c uid).elems ∧
      ∀ e, e ∈ (self.insertElement c uid).elems ↔ e ∈ self.elems ∨ e = ⟨uid, []⟩ := by
  obtain ⟨hasc, hperm⟩ := sort_append c h (e := ⟨uid, []⟩) hu
  refine ⟨hasc, fun e => ?_⟩
  have hmem : e ∈ (self.insertElement c uid).elems ↔ e ∈ self.elems ++ [⟨uid, []⟩] := hperm.mem_iff
  rw [hmem, List.mem_append, List.mem_singleton]

/-- The queue goes to the end of the element's queues, and to no other element. -/
theorem appendQueueToElement_spec (h : Ascending BusElem.uid self.elems) {i : ℕ} {e : BusElem υ κ}
    (hi : self.elems[i]? = some e) (queue : κ) :
    Ascending BusElem.uid (self.appendQueueToElement i queue).elems ∧
      ∀ x, x ∈ (self.appendQueueToElement i queue).elems ↔
        x = ⟨e.uid, e.queues ++ [queue]⟩ ∨ x ∈ self.elems ∧ x.uid ≠ e.uid := by
  obtain ⟨hlt, hget⟩ := List.getElem?_eq_some_iff.mp hi
  obtain ⟨l₁, a, l₂, hl, hlen, hmod⟩ :=
    List.exists_of_modify (fun e : BusElem υ κ => { e with queues := e.queues ++ [queue] }) hlt
  obtain rfl : a = e := by
    rw [← hget]
    simp [hl, hlen]
  have helems : (self.appendQueueToElement i queue).elems = l₁ ++ ⟨a.uid, a.queues ++ [queue]⟩ :: l₂ := hmod
  have hnodup := h.nodup
  unfold Ascending at h ⊢
  rw [hl, List.map_append, List.map_cons] at hnodup
  constructor
  · rw [← List.pairwise_map] at h ⊢
    rw [hl, List.map_append, List.map_cons] at h
    rw [helems, List.map_append, List.map_cons]
    exact h
  · -- no other element has the identifier
    have hne₁ : ∀ x ∈ l₁, x.uid ≠ a.uid := fun x hx he =>
      (List.nodup_append.mp hnodup).2.2 _ (List.mem_map_of_mem hx) _ List.mem_cons_self he
    have hne₂ : ∀ x ∈ l₂, x.uid ≠ a.uid := fun x hx he =>
      (List.nodup_cons.mp (List.nodup_append.mp hnodup).2.1).1 (he ▸ List.mem_map_of_mem hx)
    intro x
    rw [helems, hl, List.mem_append, List.mem_cons, List.mem_append, List.mem_cons]
    constructor
    · rintro (hx | rfl | hx)
      · exact Or.inr ⟨Or.inl hx, hne₁ x hx⟩
      · exact Or.inl rfl
      · exact Or.inr ⟨Or.inr (Or.inr hx), hne₂ x hx⟩
    · rintro (rfl | ⟨hx | rfl | hx, hne⟩)
      · exact Or.inr (Or.inl rfl)
      · exact Or.inl hx
      · exact absurd rfl hne
      · exact Or.inr (Or.inr hx)

theorem queuesOf_append (h : Ascending BusElem.uid self.elems) {i : ℕ} {e : BusElem υ κ}
    (hi : self.elems[i]? = some e) (queue : κ) (u : υ) :
    (self.appendQueueToElement i queue).queuesOf u =
      if u = e.uid then self.queuesOf u ++ [queue] else self.queuesOf u := by
  obtain ⟨hasc, hmem⟩ := appendQueueToElement_spec h hi queue
  have he : e ∈ self.elems := List.mem_of_getElem? hi
  split
  · next hu =>
    subst hu
    rw [queuesOf_of_mem h he]
    exact queuesOf_of_mem hasc ((hmem _).mpr (Or.inl rfl))
  · next hu =>
    by_cases hk : u ∈ self.elems.map BusElem.uid
    · obtain ⟨x, hx, rfl⟩ := List.mem_map.mp hk
      rw [queuesOf_of_mem h hx, queuesOf_of_mem hasc ((hmem x).mpr (Or.inr ⟨hx, hu⟩))]
    · rw [queuesOf_of_notMem hk, queuesOf_of_notMem]
      intro hm
      obtain ⟨x, hx, rfl⟩ := List.mem_map.mp hm
      rcases (hmem x).mp hx with rfl | ⟨hx', -⟩
      · exact hu rfl
      · exact hk (List.mem_map_of_mem hx')

/-- **One subscription.** -/
theorem mlBusSubscribe_spec (h : self.Wf) (queue : κ) (uid : υ) :
    ∃ self', self.mlBusSubscribe c queue uid = some self' ∧ self'.Wf ∧
      ∀ u, self'.queuesOf u = if u = uid then self.queuesOf u ++ [queue] else self.queuesOf u := by
  unfold Bus.mlBusSubscribe
  cases hf : self.findElement c uid with
  | some i =>
    obtain ⟨e, hi, rfl⟩ := findElement_some h.ascending hf
    obtain ⟨hasc, hmem⟩ := appendQueueToElement_spec h.ascending hi queue
    refine ⟨_, rfl, ⟨hasc, fun x hx => ?_⟩, queuesOf_append h.ascending hi queue⟩
    rcases (hmem x).mp hx with rfl | ⟨hx', -⟩
    · simp
    · exact h.queues x hx'
  | none =>
    have hu := findElement_none h.ascending hf
    obtain ⟨hasc, hmem⟩ := insertElement_spec (c := c) h.ascending hu
    have hnew : (⟨uid, []⟩ : BusElem υ κ) ∈ (self.insertElement c uid).elems := (hmem _).mpr (Or.inr rfl)
    obtain ⟨i, hs⟩ := search_of_mem c hasc (List.mem_map_of_mem hnew)
    have hfind : (self.insertElement c uid).findElement c uid = some i := hs
    obtain ⟨e, hi, heu⟩ := findElement_some hasc hfind
    obtain rfl := List.inj_on_of_nodup_map hasc.nodup (List.mem_of_getElem? hi) hnew heu
    obtain ⟨hasc', hmem'⟩ := appendQueueToElement_spec hasc hi queue
    have hsame : ∀ u, (self.insertElement c uid).queuesOf u = self.queuesOf u := by
      intro u
      by_cases hk : u ∈ self.elems.map BusElem.uid
      · obtain ⟨x, hx, rfl⟩ := List.mem_map.mp hk
        rw [queuesOf_of_mem h.ascending hx, queuesOf_of_mem hasc ((hmem x).mpr (Or.inl hx))]
      · rw [queuesOf_of_notMem hk]
        by_cases huu : u = uid
        · subst huu
          exact queuesOf_of_mem hasc hnew
        · apply queuesOf_of_notMem
          intro hm
          obtain ⟨x, hx, rfl⟩ := List.mem_map.mp hm
          rcases (hmem x).mp hx with hx' | rfl
          · exact hk (List.mem_map_of_mem hx')
          · exact huu rfl
    refine ⟨_, by dsimp only; rw [hfind]; rfl, ⟨hasc', fun x hx => ?_⟩, fun u => ?_⟩
    · rcases (hmem' x).mp hx with rfl | ⟨hx', hne⟩
      · simp
      · rcases (hmem x).mp hx' with hx'' | rfl
        · exact h.queues x hx''
        · exact absurd rfl hne
    · rw [queuesOf_append hasc hi queue u, hsame u]

/-- **Any sequence of subscriptions** gives each identifier the queues subscribed to it, in order. -/
theorem subscribeAll_spec (h : self.Wf) (subs : List (κ × υ)) :
    ∃ self', self.subscribeAll c subs = some self' ∧ self'.Wf ∧
      ∀ u, self'.queuesOf u = self.queuesOf u ++ (subs.filter fun s => s.2 = u).map Prod.fst := by
  induction subs generalizing self with
  | nil => exact ⟨self, rfl, h, fun u => by simp⟩
  | cons s subs ih =>
    obtain ⟨queue, uid⟩ := s
    obtain ⟨self₁, h1, hwf₁, hq₁⟩ := mlBusSubscribe_spec (c := c) h queue uid
    obtain ⟨self', h2, hwf', hq'⟩ := ih hwf₁
    refine ⟨self', by rw [Bus.subscribeAll, h1]; exact h2, hwf', fun u => ?_⟩
    rw [hq' u, hq₁ u]
    by_cases hu : u = uid
    · subst hu; simp
    · simp [hu, Ne.symm hu]

end

end Monolinux
