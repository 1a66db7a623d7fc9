import Monolinux.Lib.Fifo

/-!
# `ml_queue_t`: the ring of message pointers

`Queue` is `struct ml_queue_t` without its mutex and conditions (those are in
`Monolinux.Queue.Threads`); `messages` is the array `messages_p`, a slot that
was never written is `none`.  A queue made by `mlQueueInit n` has `n + 1` slots.

`q.contents` reads the messages off the slots from `rdpos` to `wrpos`, and
`q.Wf n` says that the ring really holds them.  The operations in these terms:

    q.Wf n → (isEmpty q ↔ q.contents = [])                           (isEmpty_iff)
    q.Wf n → (isFull q ↔ q.contents.length = n)                      (isFull_iff)
    q.Wf n → isFull q = false → (pushMessage q m).contents = q.contents ++ [m]   (pushMessage_spec)
    q.Wf n → q.contents = m :: l → popMessage q gets m and leaves l  (popMessage_spec)
-/

namespace Monolinux

variable {μ : Type*}

/-! ## The code -/

structure Queue (μ : Type*) where
  /-- `on_put.func` is set. -/
  onPut : Bool
  rdpos : ℕ
  wrpos : ℕ
  /-- Number of slots, one more than the capacity. -/
  length : ℕ
  messages : List (Option μ)

namespace Queue

def isEmpty (q : Queue μ) : Bool := q.rdpos == q.wrpos

def isFull (q : Queue μ) : Bool := (q.wrpos + 1) % q.length == q.rdpos

def pushMessage (q : Queue μ) (m : μ) : Queue μ :=
  { q with messages := q.messages.set q.wrpos (some m), wrpos := (q.wrpos + 1) % q.length }

/-- The message at `rdpos`; `none` for a slot that was never written. -/
def popMessage (q : Queue μ) : Option μ × Queue μ :=
  (q.messages[q.rdpos]?.join, { q with rdpos := (q.rdpos + 1) % q.length })

def mlQueueInit (length : ℕ) : Queue μ where
  onPut := false
  rdpos := 0
  wrpos := 0
  length := length + 1
  messages := List.replicate (length + 1) none

def mlQueueSetOnPut (q : Queue μ) : Queue μ := { q with onPut := true }

/-! ## The messages a ring holds -/

/-- The messages from `rdpos` to `wrpos`, oldest first. -/
def contents (q : Queue μ) : List μ :=
  (List.range ((q.wrpos + q.length - q.rdpos) % q.length)).filterMap fun i =>
    q.messages[(q.rdpos + i) % q.length]?.join

/-- `q` holds the messages `l` and was made for at most `cap` of them. -/
structure Holds (q : Queue μ) (cap : ℕ) (l : List μ) : Prop where
  length : q.length = cap + 1
  slots : q.messages.length = cap + 1
  ring : RingHolds q.messages q.rdpos l
  wrpos : q.wrpos = (q.rdpos + l.length) % (cap + 1)

def Wf (q : Queue μ) (cap : ℕ) : Prop := q.Holds cap q.contents

/-- Reading the indices below `k` off a list that `f` agrees with takes its first `k` elements. -/
theorem filterMap_range_take {l : List μ} {f : ℕ → Option μ} (h : ∀ i m, l[i]? = some m → f i = some m) {k : ℕ}
    (hk : k ≤ l.length) : (List.range k).filterMap f = l.take k := by
  induction k with
  | zero => rfl
  | succ k ih =>
    have hlast : l[k]? = some l[k] := List.getElem?_eq_getElem hk
    rw [List.range_succ, List.filterMap_append, ih (by omega), List.take_add_one, hlast]
    simp [h k _ hlast]

theorem Holds.contents_eq {q : Queue μ} {cap : ℕ} {l : List μ} (h : q.Holds cap l) : q.contents = l := by
  have hrd := h.ring.rd_lt
  have hlen := h.ring.len
  rw [h.slots] at hrd hlen
  have hcount : (q.wrpos + q.length - q.rdpos) % q.length = l.length := by
    rw [h.wrpos, h.length]
    have hsum : (q.rdpos + l.length) % (cap + 1) + (cap + 1) - q.rdpos ≡ l.length [MOD (cap + 1)] := by
      apply Nat.ModEq.add_right_cancel' q.rdpos
      rw [Nat.sub_add_cancel (by omega), Nat.add_comm l.length]
      exact (Nat.add_modEq_right).trans (Nat.mod_modEq _ _)
    rw [hsum, Nat.mod_eq_of_lt hlen]
  unfold contents
  rw [hcount, filterMap_range_take _ (Nat.le_refl _), List.take_length]
  intro i m hi
  have := h.ring.slot i m hi
  rw [h.slots] at this
  rw [h.length, this]
  rfl

theorem Holds.wf {q : Queue μ} {cap : ℕ} {l : List μ} (h : q.Holds cap l) : q.Wf cap := by
  unfold Wf
  rw [h.contents_eq]
  exact h

/-! ## The operations -/

theorem mlQueueInit_holds (n : ℕ) : (mlQueueInit n : Queue μ).Holds n [] where
  length := rfl
  slots := by simp [mlQueueInit]
  ring := RingHolds.nil n
  wrpos := by simp [mlQueueInit]

@[simp] theorem contents_init (n : ℕ) : (mlQueueInit n : Queue μ).contents = [] :=
  (mlQueueInit_holds n).contents_eq

theorem wf_init (n : ℕ) : (mlQueueInit n : Queue μ).Wf n := (mlQueueInit_holds n).wf

variable {q : Queue μ} {n : ℕ}

theorem Wf.rdpos_lt (h : q.Wf n) : q.rdpos < q.messages.length := h.ring.rd_lt

theorem Wf.wrpos_lt (h : q.Wf n) : q.wrpos < q.messages.length := by
  rw [h.wrpos, h.slots]
  exact Nat.mod_lt _ (by omega)

theorem Wf.length_le (h : q.Wf n) : q.contents.length ≤ n := by
  have := h.ring.len
  rw [h.slots] at this
  omega

theorem isEmpty_iff (h : q.Wf n) : q.isEmpty = true ↔ q.contents = [] := by
  have hrd := h.ring.rd_lt
  have hlen := h.ring.len
  rw [h.slots] at hrd hlen
  unfold isEmpty
  rw [beq_iff_eq, h.wrpos, ring_empty hrd hlen, List.length_eq_zero_iff]

theorem isFull_iff (h : q.Wf n) : q.isFull = true ↔ q.contents.length = n := by
  have hrd := h.ring.rd_lt
  have hlen := h.ring.len
  rw [h.slots] at hrd hlen
  unfold isFull
  rw [beq_iff_eq, h.wrpos, h.length, ring_full hrd hlen]
  omega

theorem lt_of_not_full (h : q.Wf n) (hf : q.isFull = false) : q.contents.length < n := by
  have hle := h.length_le
  have hne : q.contents.length ≠ n := by
    intro he
    rw [(isFull_iff h).mpr he] at hf
    cases hf
  omega

theorem pushMessage_spec (h : q.Wf n) (hf : q.isFull = false) (m : μ) :
    (q.pushMessage m).Holds n (q.contents ++ [m]) := by
  have hlt := lt_of_not_full h hf
  refine ⟨h.length, by simp only [pushMessage, List.length_set]; exact h.slots, ?_, ?_⟩
  · have := h.ring.push m (by rw [h.slots]; omega)
    rw [h.slots, ← h.wrpos] at this
    exact this
  · simp only [pushMessage]
    rw [h.length, h.wrpos, Nat.mod_add_mod, List.length_append, List.length_singleton, Nat.add_assoc]

theorem popMessage_spec (h : q.Wf n) {m : μ} {l : List μ} (hl : q.contents = m :: l) :
    q.popMessage.1 = some m ∧ q.popMessage.2.Holds n l := by
  have hq : q.Holds n (m :: l) := hl ▸ h
  obtain ⟨hslot, hring⟩ := hq.ring.pop
  refine ⟨by simp only [popMessage]; rw [hslot]; rfl, hq.length, hq.slots, ?_, ?_⟩
  · simp only [popMessage]
    rw [hq.length]
    rw [hq.slots] at hring
    exact hring
  · simp only [popMessage]
    rw [hq.length, hq.wrpos, List.length_cons, Nat.mod_add_mod]
    congr 1
    omega

theorem contents_push (h : q.Wf n) (hf : q.isFull = false) (m : μ) :
    (q.pushMessage m).contents = q.contents ++ [m] := (pushMessage_spec h hf m).contents_eq

theorem wf_push (h : q.Wf n) (hf : q.isFull = false) (m : μ) : (q.pushMessage m).Wf n :=
  (pushMessage_spec h hf m).wf

/-- A pop from a queue that is not empty gets its oldest message. -/
theorem popMessage_head (h : q.Wf n) (he : q.isEmpty = false) :
    ∃ m, q.popMessage.1 = some m ∧ q.contents = m :: q.popMessage.2.contents ∧ q.popMessage.2.Wf n := by
  cases hl : q.contents with
  | nil =>
    rw [(isEmpty_iff h).mpr hl] at he
    cases he
  | cons m l =>
    obtain ⟨h1, h2⟩ := popMessage_spec h hl
    exact ⟨m, h1, by rw [h2.contents_eq], h2.wf⟩

theorem length_contents_push (h : q.Wf n) (hf : q.isFull = false) (m : μ) :
    (q.pushMessage m).contents.length = q.contents.length + 1 := by
  rw [contents_push h hf, List.length_append, List.length_singleton]

theorem length_contents_pop (h : q.Wf n) (he : q.isEmpty = false) :
    q.contents.length = q.popMessage.2.contents.length + 1 := by
  obtain ⟨m, -, hcontents, -⟩ := popMessage_head h he
  rw [hcontents, List.length_cons]

end Queue

end Monolinux
