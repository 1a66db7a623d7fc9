import Monolinux.Lib.RefCount
import Monolinux.Queue.Ring
import Monolinux.Bus.Table

/-!
# Broadcasts and the lifetime of messages

`deliveries c bus cap`: any number of threads allocate messages and broadcast them on
`bus`, whose subscribers get the messages from their queues and free them; `cap q` is
the capacity of the queue `q`.  The locked sections of `ml_message.c`, the puts and the
gets are the steps.  Messages are numbered as they are allocated.

For each message the system is the reference counting of `Lib.RefCount`
(`deliveries_refcount`): the broadcaster is the owner, and the queues subscribed to the
message's identifier are the holders.  With the table of subscriptions this gives
delivery and lifetime of every message (`bus_delivery`).
-/

namespace Monolinux

variable {υ κ : Type*}

/-- `struct ml_message_header_t`; `onFree`: the callback is set. -/
structure MessageHeader (υ : Type*) where
  uid : υ
  count : ℤ
  onFree : Bool

structure DeliveryState (υ κ : Type*) where
  /-- the memory; `none` before a message is allocated and after it is freed -/
  header : ℕ → Option (MessageHeader υ)
  /-- where the thread is that allocated and broadcasts the message; it has returned from
  `ml_bus_broadcast` when nobody is left to give the message to -/
  sender : ℕ → Owner κ
  queue : κ → Queue ℕ
  /-- copies that the reader of a queue has got and not freed -/
  taken : κ → List ℕ
  /-- in `ml_message_free`, about to call `on_free` -/
  calling : List ℕ
  /-- in `ml_message_free`, about to free the memory -/
  freeing : List ℕ

inductive DeliveryLabel (υ κ : Type*)
  /-- `ml_message_alloc` and `ml_message_set_on_free` -/
  | alloc (m : ℕ) (uid : υ) (onFree : Bool)
  /-- `ml_bus_broadcast` up to its branch -/
  | broadcast (m : ℕ)
  | share (m : ℕ)
  | put (m : ℕ) (q : κ)
  | get (m : ℕ) (q : κ)
  /-- the reader of `q` calls `ml_message_free` -/
  | release (m : ℕ) (q : κ)
  /-- `ml_bus_broadcast` calls `ml_message_free` -/
  | drop (m : ℕ)
  | onFree (m : ℕ)
  | free (m : ℕ)
  deriving DecidableEq

def DeliveryLabel.message : DeliveryLabel υ κ → ℕ
  | .alloc m _ _ | .broadcast m | .share m | .put m _ | .get m _ | .release m _ | .drop m | .onFree m | .free m => m

/-- The queues in the element of `uid`; `none`: there is no such element. -/
def Bus.broadcastTo [LinearOrder υ] (c : SortSearch υ (BusElem υ κ)) (bus : Bus υ κ) (uid : υ) : Option (List κ) :=
  (bus.findElement c uid).bind fun i => bus.elems[i]?.map BusElem.queues

namespace DeliveryState

variable (s : DeliveryState υ κ)

def setHeader (m : ℕ) (h : Option (MessageHeader υ)) : DeliveryState υ κ :=
  { s with header := Function.update s.header m h }

def setSender (m : ℕ) (o : Owner κ) : DeliveryState υ κ := { s with sender := Function.update s.sender m o }

def mlMessageAlloc (m : ℕ) (uid : υ) (onFree : Bool) : DeliveryState υ κ :=
  (s.setHeader m (some ⟨uid, 1, onFree⟩)).setSender m .owner

def mlMessageShare (m : ℕ) (count : ℤ) : DeliveryState υ κ :=
  s.setHeader m ((s.header m).map fun h => { h with count := h.count + count })

/-- The locked section, and the branch on the count that follows. -/
def mlMessageFree (m : ℕ) : DeliveryState υ κ :=
  match s.header m with
  | none => s
  | some h =>
    { s.setHeader m (some { h with count := h.count - 1 }) with
      calling := if h.count - 1 = 0 ∧ h.onFree = true then m :: s.calling else s.calling
      freeing := if h.count - 1 = 0 ∧ h.onFree = false then m :: s.freeing else s.freeing }

/-- `find_element`, and where `ml_bus_broadcast` goes from there. -/
def beginBroadcast [LinearOrder υ] (c : SortSearch υ (BusElem υ κ)) (bus : Bus υ κ) (m : ℕ) : DeliveryState υ κ :=
  match s.header m with
  | none => s
  | some h =>
    match bus.broadcastTo c h.uid with
    | some queues => s.setSender m (.sharing queues)
    | none => s.setSender m .dropping

/-- `ml_message_share(message_p, elem_p->number_of_queues - 1)`. -/
def share (m : ℕ) : DeliveryState υ κ :=
  match s.sender m with
  | .sharing queues => (s.mlMessageShare m (queues.length - 1)).setSender m (.giving queues)
  | _ => s

variable [DecidableEq κ]

/-- One turn of the loop in `ml_bus_broadcast`. -/
def put (m : ℕ) (q : κ) : DeliveryState υ κ :=
  { s.setSender m (.giving ((s.sender m).todo []).tail) with
    queue := Function.update s.queue q ((s.queue q).pushMessage m) }

def get (m : ℕ) (q : κ) : DeliveryState υ κ :=
  { s with
    queue := Function.update s.queue q (s.queue q).popMessage.2
    taken := Function.update s.taken q (m :: s.taken q) }

def release (m : ℕ) (q : κ) : DeliveryState υ κ :=
  { s with taken := Function.update s.taken q ((s.taken q).erase m) }.mlMessageFree m

end DeliveryState

variable [LinearOrder υ] [DecidableEq κ]

def deliveries (c : SortSearch υ (BusElem υ κ)) (bus : Bus υ κ) (cap : κ → ℕ) :
    System (DeliveryState υ κ) (DeliveryLabel υ κ) where
  start :=
    { header := fun _ => none
      sender := fun _ => .none
      queue := fun q => .mlQueueInit (cap q)
      taken := fun _ => []
      calling := []
      freeing := [] }
  enabled
    | s, .alloc m _ _ => s.sender m = .none
    | s, .broadcast m => s.sender m = .owner
    | s, .share m => ∃ queues, s.sender m = .sharing queues
    | s, .put m q => (∃ rest, s.sender m = .giving (q :: rest)) ∧ (s.queue q).isFull = false
    | s, .get m q => (s.queue q).isEmpty = false ∧ (s.queue q).popMessage.1 = some m
    | s, .release m q => m ∈ s.taken q
    | s, .drop m => s.sender m = .dropping
    | s, .onFree m => m ∈ s.calling
    | s, .free m => m ∈ s.freeing
  next
    | s, .alloc m uid onFree => s.mlMessageAlloc m uid onFree
    | s, .broadcast m => s.beginBroadcast c bus m
    | s, .share m => s.share m
    | s, .put m q => s.put m q
    | s, .get m q => s.get m q
    | s, .release m q => s.release m q
    | s, .drop m => (s.setSender m (.giving [])).mlMessageFree m
    | s, .onFree m => { s with calling := s.calling.erase m, freeing := m :: s.freeing }
    | s, .free m => { s.setHeader m none with freeing := s.freeing.erase m }

instance Owner.decidableSharing (o : Owner κ) : Decidable (∃ queues, o = .sharing queues) :=
  match o with
  | .sharing queues => isTrue ⟨queues, rfl⟩
  | .none | .owner | .giving _ | .dropping => isFalse fun ⟨_, h⟩ => nomatch h

instance Owner.decidableGiving (o : Owner κ) (q : κ) : Decidable (∃ rest, o = .giving (q :: rest)) :=
  match o with
  | .giving (q' :: rest) =>
    decidable_of_iff (q' = q) ⟨fun h => ⟨rest, by rw [h]⟩, fun ⟨_, h⟩ => (List.cons.inj (Owner.giving.inj h)).1⟩
  | .none | .owner | .sharing _ | .giving [] | .dropping => isFalse fun ⟨_, h⟩ => nomatch h

instance deliveries_decidableEnabled (c : SortSearch υ (BusElem υ κ)) (bus : Bus υ κ) (cap : κ → ℕ) (s : DeliveryState υ κ) :
    ∀ l : DeliveryLabel υ κ, Decidable ((deliveries c bus cap).enabled s l)
  | .alloc _ _ _ | .broadcast _ | .drop _ => inferInstanceAs (Decidable (_ = _))
  | .share m => Owner.decidableSharing (s.sender m)
  | .put m q => inferInstanceAs (Decidable ((∃ rest, s.sender m = .giving (q :: rest)) ∧ _))
  | .get _ _ => inferInstanceAs (Decidable (_ ∧ _))
  | .release _ _ | .onFree _ | .free _ => inferInstanceAs (Decidable (_ ∈ _))

/-! ## One message -/

/-- The message `m`, as a reference-counted object. -/
def DeliveryState.view (bus : Bus υ κ) (m : ℕ) (s : DeliveryState υ κ) : RefState κ where
  header := (s.header m).map fun h => ⟨h.count, bus.queuesOf h.uid, h.onFree⟩
  owner := s.sender m
  offered q := (s.queue q).contents.count m
  held q := (s.taken q).count m
  calling := s.calling.count m
  freeing := s.freeing.count m

def DeliveryLabel.event (bus : Bus υ κ) : DeliveryLabel υ κ → RefEvent κ
  | .alloc _ uid callback => .alloc (bus.queuesOf uid) callback
  | .broadcast _ => .start
  | .share _ => .share
  | .put _ q => .give q
  | .get _ q => .take q
  | .release _ q => .release q
  | .drop _ => .drop
  | .onFree _ => .callback
  | .free _ => .free

def DeliveryLabel.event? (bus : Bus υ κ) (m : ℕ) (l : DeliveryLabel υ κ) : Option (RefEvent κ) :=
  if l.message = m then some (l.event bus) else none

section
variable {c : SortSearch υ (BusElem υ κ)} {bus : Bus υ κ} {cap : κ → ℕ} {s : DeliveryState υ κ} {m : ℕ}

omit [DecidableEq κ] in
theorem broadcastTo_spec (h : bus.Wf) (uid : υ) :
    match bus.broadcastTo c uid with
    | some queues => queues = bus.queuesOf uid ∧ queues ≠ []
    | none => bus.queuesOf uid = [] := by
  unfold Bus.broadcastTo
  cases hf : bus.findElement c uid with
  | none => exact queuesOf_of_notMem (findElement_none h.ascending hf)
  | some i =>
    obtain ⟨e, hi, rfl⟩ := findElement_some h.ascending hf
    have he : e ∈ bus.elems := List.mem_of_getElem? hi
    rw [Option.bind_some, hi]
    exact ⟨(queuesOf_of_mem h.ascending he).symm, h.queues e he⟩

omit [DecidableEq κ] in
theorem view_header_none (hh : s.header m = none) : (s.view bus m).header = none := by
  unfold DeliveryState.view
  rw [hh]
  rfl

omit [DecidableEq κ] in
theorem view_header_some {h : MessageHeader υ} (hh : s.header m = some h) :
    (s.view bus m).header = some ⟨h.count, bus.queuesOf h.uid, h.onFree⟩ := by
  unfold DeliveryState.view
  rw [hh]
  rfl

omit [DecidableEq κ] in
theorem view_mlMessageFree (s : DeliveryState υ κ) (m : ℕ) : (s.mlMessageFree m).view bus m = (s.view bus m).unref := by
  unfold DeliveryState.mlMessageFree RefState.unref
  cases hh : s.header m with
  | none => rw [view_header_none hh]
  | some h =>
    rw [view_header_some hh]
    unfold DeliveryState.view DeliveryState.setHeader
    by_cases h0 : h.count - 1 = 0 <;> cases hb : h.onFree <;> simp [h0, hb]

omit [DecidableEq κ] in
theorem view_mlMessageFree_of_ne (s : DeliveryState υ κ) {m m' : ℕ} (hne : m ≠ m') :
    (s.mlMessageFree m').view bus m = s.view bus m := by
  unfold DeliveryState.mlMessageFree
  cases hh : s.header m' with
  | none => rfl
  | some h =>
    unfold DeliveryState.view DeliveryState.setHeader
    by_cases h0 : h.count - 1 = 0 <;> cases hb : h.onFree <;> simp [h0, hb, hne, Ne.symm hne]

omit [LinearOrder υ] [DecidableEq κ] in
theorem count_cons_other {m m' : ℕ} (h : m ≠ m') (l : List ℕ) : (m' :: l).count m = l.count m :=
  List.count_cons_of_ne (Ne.symm h)

omit [LinearOrder υ] in
/-- Nothing that looks through `F` sees the update. -/
theorem apply_update_eq {α β : Type*} (F : α → β) (f : κ → α) {q : κ} {x : α} (h : F x = F (f q)) (u : κ) :
    F (Function.update f q x u) = F (f u) := by
  by_cases hu : u = q
  · subst hu
    rw [Function.update_self, h]
  · rw [Function.update_of_ne hu]

omit [DecidableEq κ] in
theorem view_setSender_of_ne (s : DeliveryState υ κ) {m m' : ℕ} (o : Owner κ) (hne : m ≠ m') :
    (s.setSender m' o).view bus m = s.view bus m := by
  unfold DeliveryState.setSender DeliveryState.view
  simp [hne]

omit [DecidableEq κ] in
theorem view_setHeader_of_ne (s : DeliveryState υ κ) {m m' : ℕ} (h : Option (MessageHeader υ)) (hne : m ≠ m') :
    (s.setHeader m' h).view bus m = s.view bus m := by
  unfold DeliveryState.setHeader DeliveryState.view
  simp [hne]

/-- A step that is about another message. -/
theorem view_next_of_ne (hwf : ∀ q, (s.queue q).Wf (cap q)) {l : DeliveryLabel υ κ}
    (he : (deliveries c bus cap).enabled s l) (hne : m ≠ l.message) :
    ((deliveries c bus cap).next s l).view bus m = s.view bus m := by
  cases l with
  | alloc m' uid callback => exact (view_setSender_of_ne _ _ hne).trans (view_setHeader_of_ne s _ hne)
  | broadcast m' =>
    show (s.beginBroadcast c bus m').view bus m = _
    unfold DeliveryState.beginBroadcast
    split
    · rfl
    · split
      · exact view_setSender_of_ne s _ hne
      · exact view_setSender_of_ne s _ hne
  | share m' =>
    show (s.share m').view bus m = _
    unfold DeliveryState.share
    split
    · exact (view_setSender_of_ne _ _ hne).trans (view_setHeader_of_ne s _ hne)
    · rfl
  | put m' q =>
    have hne : m ≠ m' := hne
    have hq := apply_update_eq (fun q : Queue ℕ => q.contents.count m) s.queue (q := q) (x := (s.queue q).pushMessage m')
      (by rw [Queue.contents_push (hwf q) he.2, List.count_append, count_cons_other hne]; rfl)
    show (s.put m' q).view bus m = _
    rw [← view_setSender_of_ne s (.giving ((s.sender m').todo []).tail) hne]
    unfold DeliveryState.put DeliveryState.view
    simp only [hq]
    rfl
  | get m' q =>
    have hne : m ≠ m' := hne
    obtain ⟨x, hx, hcont, -⟩ := Queue.popMessage_head (hwf q) he.1
    obtain rfl : m' = x := Option.some.inj (he.2.symm.trans hx)
    have hq := apply_update_eq (fun q : Queue ℕ => q.contents.count m) s.queue (q := q) (x := (s.queue q).popMessage.2)
      (by rw [hcont, count_cons_other hne])
    have ht := apply_update_eq (List.count m) s.taken (q := q) (count_cons_other hne (s.taken q))
    show (s.get m' q).view bus m = _
    unfold DeliveryState.get DeliveryState.view
    simp only [hq, ht]
  | release m' q =>
    have hne : m ≠ m' := hne
    have ht := apply_update_eq (List.count m) s.taken (q := q) (List.count_erase_of_ne (l := s.taken q) hne)
    show (s.release m' q).view bus m = _
    unfold DeliveryState.release
    rw [view_mlMessageFree_of_ne _ hne]
    unfold DeliveryState.view
    simp only [ht]
  | drop m' => exact (view_mlMessageFree_of_ne _ hne).trans (view_setSender_of_ne s _ hne)
  | onFree m' =>
    have hne : m ≠ m' := hne
    show DeliveryState.view bus m { s with calling := s.calling.erase m', freeing := m' :: s.freeing } = _
    unfold DeliveryState.view
    dsimp only
    rw [List.count_erase_of_ne hne, count_cons_other hne]
  | free m' =>
    have hne : m ≠ m' := hne
    show DeliveryState.view bus m { s.setHeader m' none with freeing := s.freeing.erase m' } = _
    rw [← view_setHeader_of_ne s none hne]
    unfold DeliveryState.view
    dsimp only
    rw [List.count_erase_of_ne hne]
    rfl

omit [DecidableEq κ] in
theorem view_setSender (s : DeliveryState υ κ) (m : ℕ) (o : Owner κ) :
    (s.setSender m o).view bus m = { s.view bus m with owner := o } := by
  unfold DeliveryState.setSender DeliveryState.view
  simp

omit [DecidableEq κ] in
theorem view_setHeader (s : DeliveryState υ κ) (m : ℕ) (h : Option (MessageHeader υ)) :
    (s.setHeader m h).view bus m =
      { s.view bus m with header := h.map fun h => ⟨h.count, bus.queuesOf h.uid, h.onFree⟩ } := by
  unfold DeliveryState.setHeader DeliveryState.view
  simp

omit [DecidableEq κ] in
theorem view_beginBroadcast (hbus : bus.Wf) (s : DeliveryState υ κ) (m : ℕ) :
    (s.beginBroadcast c bus m).view bus m = (s.view bus m).begin := by
  unfold DeliveryState.beginBroadcast
  cases hh : s.header m with
  | none =>
    unfold RefState.begin
    rw [view_header_none hh]
  | some h =>
    have hto := broadcastTo_spec (c := c) hbus h.uid
    rw [RefState.begin_of_header (view_header_some hh)]
    dsimp only
    cases hb : bus.broadcastTo c h.uid with
    | some queues =>
      rw [hb] at hto
      obtain ⟨rfl, hne⟩ := hto
      rw [if_neg hne]
      exact view_setSender s m _
    | none =>
      rw [hb] at hto
      rw [if_pos hto]
      exact view_setSender s m _

/-- A step that is about the message is a step of its reference counting. -/
theorem view_next (hbus : bus.Wf) (hwf : ∀ q, (s.queue q).Wf (cap q)) {l : DeliveryLabel υ κ}
    (he : (deliveries c bus cap).enabled s l) (hm : l.message = m) :
    refcount.enabled (s.view bus m) (l.event bus) ∧
      ((deliveries c bus cap).next s l).view bus m = refcount.next (s.view bus m) (l.event bus) := by
  subst hm
  cases l with
  | alloc m uid callback =>
    refine ⟨he, ?_⟩
    show ((s.setHeader m _).setSender m .owner).view bus m = _
    rw [view_setSender, view_setHeader]
    rfl
  | broadcast m => exact ⟨he, view_beginBroadcast hbus s m⟩
  | share m =>
    refine ⟨he, ?_⟩
    obtain ⟨queues, hs⟩ := he
    have hv : (s.view bus m).owner = .sharing queues := hs
    show (s.share m).view bus m = (s.view bus m).share
    unfold DeliveryState.share RefState.share
    rw [hs, hv]
    dsimp only
    rw [view_setSender, DeliveryState.mlMessageShare, view_setHeader, Option.map_map]
    unfold DeliveryState.view
    simp only [Option.map_map]
    rfl
  | put m q =>
    refine ⟨he.1, ?_⟩
    have hq := Function.comp_update (fun q : Queue ℕ => q.contents.count m) s.queue q ((s.queue q).pushMessage m)
    have hcount : ((s.queue q).pushMessage m).contents.count m = (s.queue q).contents.count m + 1 := by
      rw [Queue.contents_push (hwf q) he.2, List.count_append, List.count_singleton_self]
    rw [hcount] at hq
    have hs : ((s.put m q).view bus m).owner = .giving ((s.sender m).todo []).tail := Function.update_self _ _ _
    exact RefState.ext rfl hs hq rfl rfl rfl
  | get m q =>
    obtain ⟨x, hx, hcont, -⟩ := Queue.popMessage_head (hwf q) he.1
    obtain rfl : m = x := Option.some.inj (he.2.symm.trans hx)
    have hcount : (s.queue q).contents.count m = (s.queue q).popMessage.2.contents.count m + 1 := by
      rw [hcont, List.count_cons_self]
    have hq := Function.comp_update (fun q : Queue ℕ => q.contents.count m) s.queue q (s.queue q).popMessage.2
    have hpop : (s.queue q).popMessage.2.contents.count m = (s.queue q).contents.count m - 1 := by omega
    rw [hpop] at hq
    have ht := Function.comp_update (List.count m) s.taken q (m :: s.taken q)
    rw [List.count_cons_self] at ht
    exact ⟨by show 0 < (s.queue q).contents.count m; omega, RefState.ext rfl rfl hq ht rfl rfl⟩
  | release m q =>
    have hpos := List.count_pos_iff.mpr he
    refine ⟨hpos, ?_⟩
    have ht := Function.comp_update (List.count m) s.taken q ((s.taken q).erase m)
    rw [List.count_erase_self] at ht
    show (s.release m q).view bus m = RefState.unref _
    unfold DeliveryState.release
    rw [view_mlMessageFree]
    exact congrArg RefState.unref (RefState.ext rfl rfl rfl ht rfl rfl)
  | drop m =>
    refine ⟨he, ?_⟩
    show ((s.setSender m (.giving [])).mlMessageFree m).view bus m = _
    rw [view_mlMessageFree, view_setSender]
    rfl
  | onFree m =>
    have hpos := List.count_pos_iff.mpr he
    refine ⟨hpos, ?_⟩
    show DeliveryState.view bus m { s with calling := s.calling.erase m, freeing := m :: s.freeing } = _
    unfold DeliveryState.view
    dsimp only
    rw [List.count_erase_self, List.count_cons_self]
    rfl
  | free m =>
    have hpos := List.count_pos_iff.mpr he
    refine ⟨hpos, ?_⟩
    have hh : ((s.setHeader m none).view bus m).header = none := by rw [view_setHeader]; rfl
    exact RefState.ext hh rfl rfl rfl rfl List.count_erase_self

/-! ## Every run -/

variable {tr : List (DeliveryLabel υ κ)}

omit [DecidableEq κ] [LinearOrder υ] in
theorem queue_mlMessageFree (s : DeliveryState υ κ) (m : ℕ) : (s.mlMessageFree m).queue = s.queue := by
  unfold DeliveryState.mlMessageFree
  split <;> rfl

omit [DecidableEq κ] in
theorem queue_beginBroadcast (s : DeliveryState υ κ) (m : ℕ) : (s.beginBroadcast c bus m).queue = s.queue := by
  unfold DeliveryState.beginBroadcast
  split
  · rfl
  · split <;> rfl

omit [DecidableEq κ] [LinearOrder υ] in
theorem queue_share (s : DeliveryState υ κ) (m : ℕ) : (s.share m).queue = s.queue := by
  unfold DeliveryState.share
  split <;> rfl

omit [LinearOrder υ] in
/-- One queue is changed, and stays a queue. -/
theorem wf_update {queue : κ → Queue ℕ} (hs : ∀ q, (queue q).Wf (cap q)) {q : κ} {x : Queue ℕ} (hx : x.Wf (cap q)) (u : κ) :
    (Function.update queue q x u).Wf (cap u) := by
  by_cases hu : u = q
  · subst hu
    rwa [Function.update_self]
  · rw [Function.update_of_ne hu]
    exact hs u

theorem deliveries_wf (h : (deliveries c bus cap).Run tr s) (q : κ) : (s.queue q).Wf (cap q) := by
  refine h.invariant (fun s => ∀ q, (s.queue q).Wf (cap q)) (fun q => Queue.wf_init (cap q)) (fun s l hs he => ?_) q
  cases l with
  | put m q => exact wf_update hs (Queue.wf_push (hs q) he.2 m)
  | get m q =>
    obtain ⟨-, -, -, hwf⟩ := Queue.popMessage_head (hs q) he.1
    exact wf_update hs hwf
  | broadcast m =>
    intro u
    show ((s.beginBroadcast c bus m).queue u).Wf (cap u)
    rw [queue_beginBroadcast]
    exact hs u
  | share m =>
    intro u
    show ((s.share m).queue u).Wf (cap u)
    rw [queue_share]
    exact hs u
  | release m q =>
    intro u
    show ((s.release m q).queue u).Wf (cap u)
    unfold DeliveryState.release
    rw [queue_mlMessageFree]
    exact hs u
  | drop m =>
    intro u
    show (((s.setSender m (.giving [])).mlMessageFree m).queue u).Wf (cap u)
    rw [queue_mlMessageFree]
    exact hs u
  | alloc m uid callback => exact hs
  | onFree m => exact hs
  | free m => exact hs

/-- **Each message is counted** as `Lib.RefCount` counts. -/
theorem deliveries_refcount (hbus : bus.Wf) (h : (deliveries c bus cap).Run tr s) (m : ℕ) :
    refcount.Run (tr.filterMap (DeliveryLabel.event? bus m)) (s.view bus m) := by
  have hstart : refcount.start = (deliveries c bus cap).start.view bus m := by
    refine RefState.ext rfl rfl (funext fun q => ?_) rfl rfl rfl
    show 0 = (Queue.mlQueueInit (cap q)).contents.count m
    rw [Queue.contents_init]
    rfl
  obtain ⟨a, ha, rfl⟩ := h.refines (A := refcount) (fun s a => a = s.view bus m) (DeliveryLabel.event? bus m) hstart (by
    rintro tr s _ l hr rfl he
    have hwf := deliveries_wf hr
    unfold DeliveryLabel.event?
    by_cases hm : l.message = m
    · rw [if_pos hm]
      obtain ⟨hen, hnext⟩ := view_next hbus hwf he hm
      exact ⟨hen, hnext.symm⟩
    · rw [if_neg hm]
      exact (view_next_of_ne hwf he (Ne.symm hm)).symm)
  exact ha

/-- A label that is told from the others by its event is counted by it. -/
theorem count_event {l : DeliveryLabel υ κ} {e : RefEvent κ} (h : ∀ x, x.event? bus m = some e ↔ x = l) :
    (tr.filterMap (DeliveryLabel.event? bus m)).count e = tr.count l := by
  rw [List.count_filterMap, List.count_eq_countP]
  apply List.countP_congr
  intro x _
  rw [beq_iff_eq, beq_iff_eq]
  exact h x

omit [DecidableEq κ] in
theorem event?_eq_some {x : DeliveryLabel υ κ} {e : RefEvent κ} :
    x.event? bus m = some e ↔ x.message = m ∧ x.event bus = e := by
  unfold DeliveryLabel.event?
  split
  · next h => simp [h]
  · next h => simp [h]

theorem count_put (q : κ) : (tr.filterMap (DeliveryLabel.event? bus m)).count (.give q) = tr.count (.put m q) := by
  apply count_event
  intro x
  rw [event?_eq_some]
  cases x <;> simp [DeliveryLabel.message, DeliveryLabel.event]

theorem count_onFree : (tr.filterMap (DeliveryLabel.event? bus m)).count .callback = tr.count (.onFree m) := by
  apply count_event
  intro x
  rw [event?_eq_some]
  cases x <;> simp [DeliveryLabel.message, DeliveryLabel.event]

theorem count_free : (tr.filterMap (DeliveryLabel.event? bus m)).count .free = tr.count (.free m) := by
  apply count_event
  intro x
  rw [event?_eq_some]
  cases x <;> simp [DeliveryLabel.message, DeliveryLabel.event]

end

/-- The queues subscribed to `uid`, in the order they subscribed. -/
def subscribers (subs : List (κ × υ)) (uid : υ) : List κ := (subs.filter fun s => s.2 = uid).map Prod.fst

theorem count_subscribers (subs : List (κ × υ)) (uid : υ) (q : κ) :
    (subscribers subs uid).count q = subs.count (q, uid) := by
  induction subs with
  | nil => rfl
  | cons s subs ih =>
    obtain ⟨p, u⟩ := s
    unfold subscribers at *
    by_cases hu : u = uid
    · subst hu
      simp [List.count_cons, ih]
    · simp [hu, ih]

/-- References to the message `m`: what the broadcaster has still to give, the copies in the queues and
the copies that were taken and not freed. -/
def DeliveryState.refs (s : DeliveryState υ κ) (queues : List κ) (m : ℕ) : ℕ :=
  (s.sender m).refs + ∑ q ∈ queues.toFinset, ((s.queue q).contents.count m + (s.taken q).count m)

/-- What holds of a message that was allocated in the run `tr`. -/
structure Delivered (M : System (DeliveryState υ κ) (DeliveryLabel υ κ)) (subs : List (κ × υ)) (m : ℕ) (uid : υ)
    (onFree : Bool) (tr : List (DeliveryLabel υ κ)) (s : DeliveryState υ κ) : Prop where
  puts_le : ∀ q, tr.count (.put m q) ≤ subs.count (q, uid)
  /-- when `ml_bus_broadcast` has returned -/
  puts : s.sender m = .giving [] → ∀ q, tr.count (.put m q) = subs.count (q, uid)
  elsewhere : ∀ q, m ∈ (s.queue q).contents ∨ m ∈ s.taken q → (q, uid) ∈ subs
  count : ∀ h, s.header m = some h → h.count = s.refs (subscribers subs uid) m
  /-- while there is a reference -/
  alive : 0 < s.refs (subscribers subs uid) m →
    s.header m ≠ none ∧ tr.count (.onFree m) = 0 ∧ tr.count (.free m) = 0
  /-- when there is none, and the thread that dropped the last one has left `ml_message_free` -/
  ended : s.refs (subscribers subs uid) m = 0 → m ∉ s.calling → m ∉ s.freeing →
    tr.count (.onFree m) = (if onFree then 1 else 0) ∧ tr.count (.free m) = 1
  once : tr.count (.onFree m) ≤ 1 ∧ tr.count (.free m) ≤ 1
  untouched : 0 < tr.count (.free m) → ∀ l, M.enabled s l → l.message ≠ m

/-- **Delivery and lifetime.**  After any subscriptions, the table of the bus is sorted and without
duplicates, and in every run of broadcasts each message is put on each queue as often as the queue is
subscribed to its identifier, its count is the number of references to it, and it is freed once, when
the last one is gone. -/
theorem bus_delivery (c : SortSearch υ (BusElem υ κ)) (cap : κ → ℕ) (subs : List (κ × υ)) :
    ∃ bus : Bus υ κ, Bus.mlBusInit.subscribeAll c subs = some bus ∧ bus.Wf ∧
      ∀ tr s, (deliveries c bus cap).Run tr s → ∀ m uid onFree, .alloc m uid onFree ∈ tr →
        Delivered (deliveries c bus cap) subs m uid onFree tr s := by
  have hinit : (Bus.mlBusInit : Bus υ κ).Wf := ⟨List.Pairwise.nil, fun _ he => absurd he List.not_mem_nil⟩
  obtain ⟨bus, hsub, hbus, hqueues⟩ := subscribeAll_spec (c := c) hinit subs
  refine ⟨bus, hsub, hbus, fun tr s h m uid onFree ha => ?_⟩
  have hplan : bus.queuesOf uid = subscribers subs uid := hqueues uid
  have hmem : (.alloc (subscribers subs uid) onFree) ∈ tr.filterMap (DeliveryLabel.event? bus m) := by
    refine List.mem_filterMap.mpr ⟨_, ha, event?_eq_some.mpr ⟨rfl, ?_⟩⟩
    show RefEvent.alloc (bus.queuesOf uid) onFree = _
    rw [hplan]
  have hinv := refcount_run (deliveries_refcount hbus h m) hmem
  have hgiven : ∀ q, tr.count (.put m q) + ((s.sender m).todo (subscribers subs uid)).count q = subs.count (q, uid) := by
    intro q
    have := hinv.given q
    rwa [count_put, count_subscribers] at this
  have hended := hinv.ended
  have hcalled := hinv.called
  rw [count_free] at hended hcalled
  rw [count_onFree] at hcalled
  have hholders : ∀ q, 0 < (s.queue q).contents.count m + (s.taken q).count m → (q, uid) ∈ subs := by
    intro q hq
    rw [← List.count_pos_iff, ← count_subscribers]
    exact List.count_pos_iff.mpr (hinv.holders q hq)
  refine ⟨fun q => ?_, fun hs q => ?_, fun q hq => hholders q ?_, fun h hh => ?_, fun hr => ?_, fun hr hc hf => ?_, ?_,
    fun hf l he hl => ?_⟩
  · have := hgiven q
    omega
  · have := hgiven q
    rwa [hs, Owner.todo, List.count_nil, Nat.add_zero] at this
  · rcases hq with hq | hq
    · have := List.count_pos_iff.mpr hq
      omega
    · have := List.count_pos_iff.mpr hq
      omega
  · exact congrArg RefHeader.count (hinv.header _ (view_header_some hh))
  · obtain ⟨hsome, hfree, -, -, hcall⟩ := hinv.live hr
    rw [count_free] at hfree
    rw [count_onFree] at hcall
    refine ⟨fun hnone => ?_, hcall, hfree⟩
    rw [view_header_none hnone] at hsome
    cases hsome
  · -- no thread is left in `ml_message_free`
    have hc0 : (s.view bus m).calling = 0 := List.count_eq_zero.mpr hc
    have hf0 : (s.view bus m).freeing = 0 := List.count_eq_zero.mpr hf
    have hr' : RefState.refs (subscribers subs uid) (s.view bus m) = 0 := hr
    rw [if_pos hr', hc0, hf0] at hended
    rw [hc0, hf0] at hcalled
    have hone : tr.count (.free m) = 1 := by omega
    rw [hone] at hcalled
    exact ⟨hcalled, hone⟩
  · split at hended <;> split at hcalled <;> omega
  · have hf' : 0 < (tr.filterMap (DeliveryLabel.event? bus m)).count .free := by rw [count_free]; exact hf
    exact hinv.over hf' _ (view_next hbus (deliveries_wf h) he hl).1

/-- The queues 3 and 5 are subscribed to 7, and the queue 4 to 9. -/
def threeSubscribers : Bus ℕ ℕ := ⟨[⟨7, [3, 5]⟩, ⟨9, [4]⟩]⟩

/-- Broadcasts of 7, 9 and 8 at the same time.  The queues have room for one message, and nobody is subscribed to 8. -/
def threeBroadcasts : List (DeliveryLabel ℕ ℕ) :=
  [.alloc 0 7 true, .alloc 1 9 false, .alloc 2 8 true, .broadcast 0, .broadcast 2, .share 0, .drop 2, .broadcast 1, .put 0 3,
    .onFree 2, .share 1, .get 0 3, .put 1 4, .release 0 3, .put 0 5, .get 1 4, .free 2, .get 0 5, .release 1 4, .free 1,
    .release 0 5, .onFree 0, .free 0]

/-- The message with two readers is freed by the second one, and the one with none by the broadcaster. -/
theorem bus_delivery_one : ∃ s, (deliveries (SortSearch.simple ℕ (BusElem ℕ ℕ)) threeSubscribers fun _ => 1).Run threeBroadcasts s ∧
    (∀ q, threeBroadcasts.count (.put 0 q) = [(3, 7), (4, 9), (5, 7)].count (q, 7)) ∧
    (threeBroadcasts.count (.onFree 0) = 1 ∧ threeBroadcasts.count (.free 0) = 1) ∧
    (threeBroadcasts.count (.onFree 1) = 0 ∧ threeBroadcasts.count (.free 1) = 1) ∧
    threeBroadcasts.count (.onFree 2) = 1 ∧ threeBroadcasts.count (.free 2) = 1 := by
  let system := deliveries (SortSearch.simple ℕ (BusElem ℕ ℕ)) threeSubscribers fun _ => 1
  have hrun : system.Run threeBroadcasts (threeBroadcasts.foldl system.next system.start) :=
    (System.path_of_runs (by decide +kernel)).run
  obtain ⟨bus, hsub, -, hall⟩ := bus_delivery (SortSearch.simple ℕ (BusElem ℕ ℕ)) (fun _ => 1) [((3 : ℕ), (7 : ℕ)), (4, 9), (5, 7)]
  obtain rfl : threeSubscribers = bus := Option.some.inj hsub
  have hseven := hall _ _ hrun 0 7 true (by decide)
  have hnine := hall _ _ hrun 1 9 false (by decide)
  have hnobody := hall _ _ hrun 2 8 true (by decide)
  exact ⟨_, hrun, hseven.puts (by decide +kernel),
    hseven.ended (by decide +kernel) (by decide +kernel) (by decide +kernel),
    hnine.ended (by decide +kernel) (by decide +kernel) (by decide +kernel),
    hnobody.ended (by decide +kernel) (by decide +kernel) (by decide +kernel)⟩

end Monolinux
