import Mathlib.Data.Finset.Card
import Monolinux.Queue.Threads

/-!
# A queue whose messages are announced by an eventfd

The one-wire module waits for a socket and for messages in one `epoll_wait()`.  So its
queue has an `on_put` function, which adds 1 to an eventfd after the message was pushed
and the mutex released, and its thread takes 1 from the eventfd before each
`ml_queue_get()`.  `announced n c` is such a queue of any capacity `n`: any number of
threads put messages, the thread `c` reads events and gets.

The events are not tied to the messages: one put's event may be used up for another
put's message.  But they are counted right (`Balanced`): in every state reached

    messages = events + putters that have not signalled yet + (1 between read and get)

so who has read an event finds a message (`event_finds_message`).
-/

namespace Monolinux

open Queue

/-! ## The eventfd -/

/-- An `eventfd()`; with `EFD_SEMAPHORE` a read takes 1, else all. -/
structure EventFd where
  value : ℕ
  semaphore : Bool
  deriving DecidableEq

namespace EventFd

/-- `write()` of an 8-byte value. -/
def write (fd : EventFd) (value : ℕ) : EventFd := { fd with value := fd.value + value }

/-- `read()` waits until the value is not zero. -/
def readable (fd : EventFd) : Prop := 0 < fd.value

/-- The value that is read, and what is left. -/
def read (fd : EventFd) : ℕ × EventFd :=
  if fd.semaphore then (1, { fd with value := fd.value - 1 }) else (fd.value, { fd with value := 0 })

end EventFd

/-- `on_put_signal_event()`. -/
def onPutSignalEvent (fd : EventFd) : EventFd := fd.write 1

/-! ## The threads -/

variable {ι μ : Type*} [DecidableEq ι]

structure AnnouncedState (ι μ : Type*) where
  threads : QueueState ι μ
  putFd : EventFd
  /-- the consumer has read an event and not got its message yet -/
  hasRead : Bool

inductive AnnouncedLabel (ι μ : Type*)
  /-- the consumer reads the eventfd -/
  | read
  | queue (l : QueueLabel ι μ)

/-- The queue with `on_put_signal_event` as its `on_put` function, and the consumer `c`. -/
def announced (n : ℕ) (c : ι) : System (AnnouncedState ι μ) (AnnouncedLabel ι μ) where
  start := ⟨(threads n true).start, ⟨0, true⟩, false⟩
  enabled s
    | .read => s.threads.pc c = .idle ∧ s.hasRead = false ∧ s.putFd.readable
    | .queue (.callGet t) => t = c ∧ s.hasRead = true ∧ (threads n true).enabled s.threads (.callGet t)
    | .queue l => (threads n true).enabled s.threads l
  next s
    | .read => { s with putFd := s.putFd.read.2, hasRead := true }
    | .queue (.onPut t) =>
      { s with threads := (threads n true).next s.threads (.onPut t), putFd := onPutSignalEvent s.putFd }
    | .queue (.pop t r woken) =>
      { s with threads := (threads n true).next s.threads (.pop t r woken), hasRead := false }
    | .queue l => { s with threads := (threads n true).next s.threads l }

/-! ## The threads of a run -/

def AnnouncedLabel.queue? : AnnouncedLabel ι μ → Option (QueueLabel ι μ)
  | .read => none
  | .queue l => some l

variable {n : ℕ} {c : ι} {tr : List (AnnouncedLabel ι μ)} {s : AnnouncedState ι μ}

theorem enabled_threads {l : QueueLabel ι μ} (he : (announced n c).enabled s (.queue l)) :
    (threads n true).enabled s.threads l := by
  cases l with
  | callGet t => exact he.2.2
  | _ => exact he

@[simp] theorem next_queue_threads (s : AnnouncedState ι μ) (l : QueueLabel ι μ) :
    ((announced n c).next s (.queue l)).threads = (threads n true).next s.threads l := by
  cases l <;> rfl

/-- Reads left out, a run is a run of the threads of the queue. -/
theorem threads_run (h : (announced n c).Run tr s) :
    (threads n true).Run (tr.filterMap AnnouncedLabel.queue?) s.threads := by
  obtain ⟨a, ha, rfl⟩ := h.refines (A := threads n true) (fun s a => s.threads = a) AnnouncedLabel.queue? rfl (by
    rintro _ s _ l - rfl he
    cases l with
    | read => rfl
    | queue l => exact ⟨enabled_threads he, next_queue_threads s l⟩)
  exact ha

theorem announced_wf (h : (announced n c).Run tr s) : s.threads.queue.Wf n := (threads_fifo (threads_run h)).2

/-! ## The balance -/

/-- `signalling` are the threads that have pushed and not signalled yet. -/
structure Balanced (c : ι) (signalling : Finset ι) (s : AnnouncedState ι μ) : Prop where
  hook : s.threads.queue.onPut = true
  semaphore : s.putFd.semaphore = true
  mem : ∀ t, t ∈ signalling ↔ s.threads.pc t = .onPut
  /-- every message has its event, to come, waiting or read -/
  count : s.threads.queue.contents.length = s.putFd.value + signalling.card + if s.hasRead then 1 else 0
  /-- only the consumer gets, and only what it has read an event for -/
  getting : ∀ t, (s.threads.pc t).unpopped = 1 → t = c ∧ s.hasRead = true
  waits : ∀ t, (s.threads.pc t).waitsEmpty = false

section
variable {signalling : Finset ι}

namespace Pc

theorem wake_eq_onPut {p : Pc μ} : p.wake = .onPut ↔ p = .onPut := by cases p <;> simp [wake]

theorem waitsEmpty_wake {p : Pc μ} (h : p.waitsEmpty = false) : p.wake.waitsEmpty = false := by
  cases p <;> simp_all [wake, waitsEmpty]

theorem ne_onPut_of_putting {p : Pc μ} {m : μ} (h : p.putting = some m) : p ≠ .onPut := by
  rintro rfl
  cases h

end Pc

omit [DecidableEq ι] in
/-- A thread that gets finds a message: there is one for the event that the consumer has read. -/
theorem Balanced.isEmpty_eq_false (h : Balanced c signalling s) (hw : s.threads.queue.Wf n) {t : ι}
    (ht : (s.threads.pc t).getting = true) : s.threads.queue.isEmpty = false := by
  have hread := (h.getting t (Pc.unpopped_of_getting ht).2).2
  have hcount := h.count
  rw [hread, if_pos rfl] at hcount
  rw [Bool.eq_false_iff]
  intro hempty
  rw [(isEmpty_iff hw).mp hempty, List.length_nil] at hcount
  omega

theorem next_onPut (q : QueueState ι μ) (l : QueueLabel ι μ) : ((threads n true).next q l).queue.onPut = q.queue.onPut := by
  cases l with
  | push t m woken => rfl
  | pop t r woken => rfl
  | _ => rw [next_queue_eq _ (by simp) (by simp)]

/-- A step of the queue: the other threads are woken at most, so what is left to show is the count and
that the place `p` where the thread itself goes is right. -/
theorem Balanced.step (h : Balanced c signalling s) (l : QueueLabel ι μ) {signalling' : Finset ι} {putFd' : EventFd}
    {hasRead' : Bool} {p : Pc μ} (hpc : ((threads n true).next s.threads l).pc l.thread = p)
    (hsemaphore : putFd'.semaphore = true)
    (hcount : ((threads n true).next s.threads l).queue.contents.length =
      putFd'.value + signalling'.card + if hasRead' then 1 else 0)
    (hothers : ∀ t, t ≠ l.thread → (t ∈ signalling' ↔ t ∈ signalling))
    (hself : l.thread ∈ signalling' ↔ p = .onPut)
    (hread : ∀ t, t ≠ l.thread → (s.threads.pc t).unpopped = 1 → hasRead' = true)
    (hgetting : p.unpopped = 1 → l.thread = c ∧ hasRead' = true) (hwaits : p.waitsEmpty = false) :
    Balanced c signalling' ⟨(threads n true).next s.threads l, putFd', hasRead'⟩ := by
  subst hpc
  refine ⟨?_, hsemaphore, fun t => ?_, hcount, fun t ht => ?_, fun t => ?_⟩
  · show ((threads n true).next s.threads l).queue.onPut = true
    rw [next_onPut]
    exact h.hook
  · by_cases hne : l.thread = t
    · subst hne
      exact hself
    · rw [hothers t (Ne.symm hne), h.mem]
      rcases next_pc_ne n true s.threads l t hne with he | he
      · simp only [he]
      · simp only [he, Pc.wake_eq_onPut]
  · by_cases hne : l.thread = t
    · subst hne
      exact hgetting ht
    · have hbefore : (s.threads.pc t).unpopped = 1 := by
        rcases next_pc_ne n true s.threads l t hne with he | he
        · rwa [he] at ht
        · rwa [he, Pc.unpopped_wake] at ht
      exact ⟨(h.getting t hbefore).1, hread t (Ne.symm hne) hbefore⟩
  · by_cases hne : l.thread = t
    · subst hne
      exact hwaits
    · show (((threads n true).next s.threads l).pc t).waitsEmpty = false
      rcases next_pc_ne n true s.threads l t hne with he | he
      · rw [he]
        exact h.waits t
      · rw [he]
        exact Pc.waitsEmpty_wake (h.waits t)

/-- A step that leaves the messages and the events alone, of a thread that was not to signal. -/
theorem Balanced.quiet (h : Balanced c signalling s) (l : QueueLabel ι μ) {p : Pc μ}
    (hqueue : ((threads n true).next s.threads l).queue = s.threads.queue)
    (hpc : ((threads n true).next s.threads l).pc l.thread = p) (hbefore : s.threads.pc l.thread ≠ .onPut)
    (hafter : p ≠ .onPut) (hgetting : p.unpopped = 1 → l.thread = c ∧ s.hasRead = true) (hwaits : p.waitsEmpty = false) :
    Balanced c signalling { s with threads := (threads n true).next s.threads l } := by
  refine h.step l hpc h.semaphore ?_ (fun _ _ => Iff.rfl) ?_ (fun t _ ht => (h.getting t ht).2) hgetting hwaits
  · rw [hqueue]
    exact h.count
  · rw [h.mem]
    exact iff_of_false hbefore hafter

/-- The consumer reads an event. -/
theorem Balanced.read (h : Balanced c signalling s) (he : (announced n c).enabled s .read) :
    Balanced c signalling ((announced n c).next s .read) := by
  obtain ⟨-, hread, hpos⟩ := he
  have hvalue : 0 < s.putFd.value := hpos
  have htaken : s.putFd.read.2 = { s.putFd with value := s.putFd.value - 1 } := by
    unfold EventFd.read
    rw [if_pos h.semaphore]
  refine ⟨h.hook, ?_, h.mem, ?_, fun t ht => ⟨(h.getting t ht).1, rfl⟩, h.waits⟩
  · show s.putFd.read.2.semaphore = true
    rw [htaken]
    exact h.semaphore
  · show s.threads.queue.contents.length = s.putFd.read.2.value + signalling.card + 1
    have hcount := h.count
    rw [hread] at hcount
    rw [htaken]
    simp only [Bool.false_eq_true, if_false] at hcount ⊢
    omega

/-- A putter pushes: one more message, one more thread that is to signal. -/
theorem Balanced.push (h : Balanced c signalling s) (hw : s.threads.queue.Wf n) {t : ι} {m : μ} {woken : List ι}
    (he : (threads n true).enabled s.threads (.push t m woken)) :
    Balanced c (insert t signalling) ((announced n c).next s (.queue (.push t m woken))) := by
  obtain ⟨hput, hfull, -⟩ := he
  have hnotMem : t ∉ signalling := fun hmem => Pc.ne_onPut_of_putting hput ((h.mem t).mp hmem)
  have hpc : ((threads n true).next s.threads (.push t m woken)).pc t = .onPut := by
    show Function.update (wakeAll s.threads.pc woken) t (if s.threads.queue.onPut then Pc.onPut else .idle) t = _
    rw [Function.update_self, if_pos h.hook]
  refine h.step (.push t m woken) hpc h.semaphore ?_ (fun u hu => ?_) ?_ (fun u _ hu => (h.getting u hu).2)
    (fun hget => absurd hget Nat.zero_ne_one) rfl
  · have hlength : ((threads n true).next s.threads (.push t m woken)).queue.contents.length =
        s.threads.queue.contents.length + 1 := length_contents_push hw hfull m
    rw [hlength, Finset.card_insert_of_notMem hnotMem, h.count]
    omega
  · rw [Finset.mem_insert]
    exact or_iff_right hu
  · exact iff_of_true (Finset.mem_insert_self t signalling) rfl

/-- A putter signals: its event is in the eventfd. -/
theorem Balanced.onPut (h : Balanced c signalling s) {t : ι} (he : s.threads.pc t = .onPut) :
    Balanced c (signalling.erase t) ((announced n c).next s (.queue (.onPut t))) := by
  have hmem : t ∈ signalling := (h.mem t).mpr he
  have hpc : ((threads n true).next s.threads (.onPut t)).pc t = .idle := Function.update_self ..
  refine h.step (.onPut t) hpc h.semaphore ?_ (fun u hu => ?_) ?_ (fun u _ hu => (h.getting u hu).2)
    (fun hget => absurd hget Nat.zero_ne_one) rfl
  · have hcard := Finset.card_erase_add_one hmem
    have hcount := h.count
    show s.threads.queue.contents.length = s.putFd.value + 1 + (signalling.erase t).card + _
    omega
  · exact Finset.mem_erase.trans (and_iff_right hu)
  · exact iff_of_false (Finset.notMem_erase t signalling) (by simp)

/-- The consumer gets the message of the event that it has read. -/
theorem Balanced.pop (h : Balanced c signalling s) (hw : s.threads.queue.Wf n) {t : ι} {r : Option μ} {woken : List ι}
    (he : (threads n true).enabled s.threads (.pop t r woken)) :
    Balanced c signalling ((announced n c).next s (.queue (.pop t r woken))) := by
  obtain ⟨hget, hempty, -, -⟩ := he
  obtain ⟨hc, hread⟩ := h.getting t (Pc.unpopped_of_getting hget).2
  have hbefore : s.threads.pc t ≠ .onPut := by
    intro hpc
    rw [hpc] at hget
    cases hget
  have hpc : ((threads n true).next s.threads (.pop t r woken)).pc t = .idle := Function.update_self ..
  refine h.step (.pop t r woken) hpc h.semaphore ?_ (fun _ _ => Iff.rfl) ?_ (fun u hu hun => ?_)
    (fun hget => absurd hget Nat.zero_ne_one) rfl
  · have hcount := h.count
    rw [hread, length_contents_pop hw hempty] at hcount
    show s.threads.queue.popMessage.2.contents.length = s.putFd.value + signalling.card + 0
    simp only [if_true] at hcount
    omega
  · exact iff_of_false (fun hmem => hbefore ((h.mem t).mp hmem)) (by simp)
  · -- no other thread gets
    exact absurd ((h.getting u hun).1.trans hc.symm) hu

/-- Every step keeps the balance. -/
theorem Balanced.next (h : Balanced c signalling s) (hw : s.threads.queue.Wf n) {l : AnnouncedLabel ι μ}
    (he : (announced n c).enabled s l) : ∃ signalling', Balanced c signalling' ((announced n c).next s l) := by
  cases l with
  | read => exact ⟨signalling, h.read he⟩
  | queue l =>
    have hl := enabled_threads he
    cases l with
    | callPut t m =>
      have hidle : s.threads.pc t = .idle := hl
      exact ⟨signalling, h.quiet (.callPut t m) rfl (Function.update_self ..) (by simp [QueueLabel.thread, hidle]) (by simp)
        (fun hget => absurd hget Nat.zero_ne_one) rfl⟩
    | putWaits t =>
      obtain ⟨m, hm⟩ := Option.isSome_iff_exists.mp hl.1
      have hnext : (threads n true).next s.threads (.putWaits t) = s.threads.setPc t (.fullWait m) := by
        simp only [threads, hm]
      have hpc : ((threads n true).next s.threads (.putWaits t)).pc t = .fullWait m := by
        rw [hnext]
        exact Function.update_self ..
      exact ⟨signalling, h.quiet (.putWaits t) (by rw [hnext]; rfl) hpc (Pc.ne_onPut_of_putting hm) (by simp)
        (fun hget => absurd hget Nat.zero_ne_one) rfl⟩
    | push t m woken => exact ⟨insert t signalling, h.push hw hl⟩
    | onPut t => exact ⟨signalling.erase t, h.onPut hl⟩
    | callGet t =>
      obtain ⟨hc, hread, hidle⟩ := he
      have hidle : s.threads.pc t = .idle := hidle
      exact ⟨signalling, h.quiet (.callGet t) rfl (Function.update_self ..) (by simp [QueueLabel.thread, hidle]) (by simp)
        (fun _ => ⟨hc, hread⟩) rfl⟩
    | getWaits t =>
      obtain ⟨hget, hempty⟩ := hl
      rw [h.isEmpty_eq_false hw hget] at hempty
      cases hempty
    | pop t r woken => exact ⟨signalling, h.pop hw hl⟩
    | spurious t =>
      -- only a putter is left to be woken
      rcases hl with hfull | hempty
      · cases hpc : s.threads.pc t with
        | fullWait m =>
          have hnext : ((threads n true).next s.threads (.spurious t)).pc t = .fullWoken m := by
            show Function.update s.threads.pc t (s.threads.pc t).wake t = _
            rw [Function.update_self, hpc]
            rfl
          exact ⟨signalling, h.quiet (.spurious t) rfl hnext (by simp [QueueLabel.thread, hpc]) (by simp)
            (fun hget => absurd hget Nat.zero_ne_one) rfl⟩
        | _ =>
          rw [hpc] at hfull
          cases hfull
      · rw [h.waits t] at hempty
        cases hempty

end

/-! ## Main results -/

theorem announced_balanced (h : (announced n c).Run tr s) : ∃ signalling, Balanced c signalling s := by
  have hstart : Balanced c ∅ (announced n c : System (AnnouncedState ι μ) _).start := by
    refine ⟨rfl, rfl, fun t => ?_, ?_, fun t ht => absurd ht Nat.zero_ne_one, fun t => rfl⟩
    · exact iff_of_false (Finset.notMem_empty t) (by simp [announced, threads])
    · have hempty : (announced n c : System (AnnouncedState ι μ) _).start.threads.queue.contents = [] :=
        threads_start_wf.contents_eq
      rw [hempty]
      rfl
  refine h.invariantOn (fun _ s => ∃ signalling, Balanced c signalling s) ⟨∅, hstart⟩ ?_
  intro _ _ _ hr hbalanced he
  obtain ⟨_, hb⟩ := hbalanced
  exact hb.next (announced_wf hr) he

/-- There is never more than `n` in the eventfd, so that no `on_put` waits for room in it. -/
theorem putFd_le (h : (announced n c).Run tr s) : s.putFd.value ≤ n := by
  obtain ⟨signalling, hb⟩ := announced_balanced h
  have hcount := hb.count
  have hle := (announced_wf h).length_le
  omega

/-- **Every event finds a message.**  Nobody ever waits in `ml_queue_get()` or is about to, and the
messages are as many as the events in the eventfd, the putters that have pushed and not signalled, and
the event the consumer has read and not got its message for; so a message that is queued has one of these. -/
theorem event_finds_message (h : (announced n c).Run tr s) :
    (∀ t, ¬(announced n c).enabled s (.queue (.getWaits t)) ∧ (s.threads.pc t).waitsEmpty = false) ∧
    (∃ signalling : Finset ι, (∀ t, t ∈ signalling ↔ s.threads.pc t = .onPut) ∧
      s.threads.queue.contents.length = s.putFd.value + signalling.card + if s.hasRead then 1 else 0) ∧
    (s.threads.queue.contents ≠ [] → s.putFd.readable ∨ (∃ t, s.threads.pc t = .onPut) ∨ s.hasRead = true) := by
  obtain ⟨signalling, hb⟩ := announced_balanced h
  refine ⟨fun t => ⟨?_, hb.waits t⟩, ⟨signalling, hb.mem, hb.count⟩, fun hne => ?_⟩
  · rintro ⟨hget, hempty⟩
    rw [hb.isEmpty_eq_false (announced_wf h) hget] at hempty
    cases hempty
  · by_contra hno
    rw [not_or, not_or] at hno
    obtain ⟨hzero, hnobody, hread⟩ := hno
    have hnone : signalling = ∅ := by
      rw [Finset.eq_empty_iff_forall_notMem]
      exact fun t ht => hnobody ⟨t, (hb.mem t).mp ht⟩
    have hvalue : s.putFd.value = 0 := Nat.eq_zero_of_not_pos hzero
    have hcount := hb.count
    rw [hnone, hvalue, if_neg hread] at hcount
    exact hne (List.length_eq_zero_iff.mp hcount)

/-- Two putters have pushed, and the consumer has read the event of the second: it will get the first one's message. -/
theorem event_finds_message_other : ∃ s : AnnouncedState (Fin 3) ℕ,
    (announced 2 0).Run [.queue (.callPut 1 7), .queue (.callPut 2 8), .queue (.push 1 7 []), .queue (.push 2 8 []),
      .queue (.onPut 2), .read, .queue (.callGet 0)] s ∧
    s.threads.queue.contents = [7, 8] ∧ s.putFd.value = 0 ∧ s.hasRead = true ∧
    ∀ t, ¬(announced 2 0).enabled s (.queue (.getWaits t)) ∧ (s.threads.pc t).waitsEmpty = false := by
  have hpath : ∃ s : AnnouncedState (Fin 3) ℕ, (announced 2 0).Path (announced 2 0).start
      [.queue (.callPut 1 7), .queue (.callPut 2 8), .queue (.push 1 7 []), .queue (.push 2 8 []),
        .queue (.onPut 2), .read, .queue (.callGet 0)] s ∧
      s.threads.queue.contents = [7, 8] ∧ s.putFd.value = 0 ∧ s.hasRead = true :=
    ⟨_, .cons _ rfl (.cons _ rfl (.cons _ ⟨rfl, rfl, by decide, by decide⟩ (.cons _ ⟨rfl, rfl, by decide, by decide⟩
      (.cons _ rfl (.cons _ ⟨rfl, rfl, Nat.zero_lt_one⟩ (.cons _ ⟨rfl, rfl, rfl⟩ (.nil _))))))), rfl, rfl, rfl⟩
  obtain ⟨s, hp, hcontents, hvalue, hread⟩ := hpath
  exact ⟨s, hp.run, hcontents, hvalue, hread, (event_finds_message hp.run).1⟩

end Monolinux
