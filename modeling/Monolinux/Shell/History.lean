import Monolinux.Lib.Recent
import Monolinux.Lib.DoublyLinked
import Monolinux.Lib.Run
import Monolinux.Shell.Editor

/-!
# The command history

The elements of the history are in a heap `mem`: what is not allocated, or was freed, is
`none` there, and an access to it has no result.  `malloc` returns any element that is not
allocated when it is called, or `NULL`; the oldest command has been freed then if the list
was full, so that its element can be the one that is returned.

* `executeLine_holds`, `previous_holds`, `next_holds`: one step, on the list of the commands;
* `history_is_recent`: after any lines and any navigation in between, the list holds the
  most recent lines, is linked in both directions, and nothing that was freed can be
  reached.
-/

namespace Monolinux

/-- `MAXIMUM_HISTORY_LENGTH`. -/
def maximumHistoryLength : ℤ := 64

/-- `buf` is the string, without its NUL. -/
structure HistoryElem (ι : Type) where
  next : Option ι
  prev : Option ι
  buf : List UInt8

/-- `module.history`, and the heap. -/
structure History (ι : Type) where
  mem : ι → Option (HistoryElem ι)
  head : Option ι
  tail : Option ι
  length : ℤ
  current : Option ι
  /-- Command line when first UP was pressed. -/
  line : Line
  lineValid : Bool

variable {ι : Type} [DecidableEq ι]

namespace History

/-! ## The list in memory -/

omit [DecidableEq ι] in
def deref (h : History ι) (p : Option ι) : Option (HistoryElem ι) := p.bind h.mem

def write (h : History ι) (p : Option ι) (elem : HistoryElem ι) : Option (History ι) := do
  let a ← p
  let _ ← h.mem a
  return { h with mem := Function.update h.mem a (some elem) }

/-- `free(NULL)` does nothing. -/
def free (h : History ι) : Option ι → Option (History ι)
  | none => some h
  | some a => do
    let _ ← h.mem a
    return { h with mem := Function.update h.mem a none }

/-- Remove the head element from the list. -/
def removeHead (h : History ι) : Option (History ι) := do
  let head := h.head
  let h ← (
    if head = h.tail then some { h with head := none, tail := none }
    else do
      let elem ← h.deref head
      let h := { h with head := elem.next }
      let next ← h.deref elem.next
      h.write elem.next { next with prev := none })
  let h ← h.free head
  return { h with length := h.length - 1 }

/-- A full list loses its oldest command before `malloc` is called. -/
def makeRoom (h : History ι) : Option (History ι) :=
  if h.length = maximumHistoryLength then removeHead h else some h

/-- What `malloc` may return for a command. -/
def MayAllocate (h : History ι) (elem : Option ι) : Prop := ∀ e ∈ elem, ∀ h' ∈ h.makeRoom, h'.mem e = none

instance (h : History ι) (elem : Option ι) : Decidable (h.MayAllocate elem) :=
  inferInstanceAs (Decidable (∀ e ∈ elem, ∀ h' ∈ h.makeRoom, h'.mem e = none))

/-- Append the command to the command history list; `elem` was allocated for it. -/
def appendElem (h : History ι) (elem : ι) (command : List UInt8) : Option (History ι) := do
  let prev := if h.head = none then none else h.tail
  let h' := { h with mem := Function.update h.mem elem (some ⟨none, prev, command⟩) }
  let h' ← (
    if h.head = none then some { h' with head := some elem }
    else do
      let last ← h'.deref prev
      h'.write prev { last with next := some elem })
  return { h' with tail := some elem, length := h'.length + 1 }

end History

/-! ## Operations -/

open History

def historyInit (h : History ι) : Option (History ι) := do
  let line ← lineInit h.line
  return { h with head := none, tail := none, length := 0, current := none, line, lineValid := false }

/-- `elem` is what `malloc` returns. -/
def historyAppend (h : History ι) (command : List UInt8) (elem : Option ι) : Option (History ι) := do
  -- Do not append if the command already is at the end of the list.
  let isLast ← (if h.tail = none then some false else (h.deref h.tail).map fun last => last.buf = command)
  if isLast then some h
  else do
    let h ← h.makeRoom
    match elem with
    | none => some h
    | some elem => appendElem h elem command

/-- Find the previous element, if any. -/
def historyGetPreviousCommand (h : History ι) (line : Line) : Option (History ι × Option (List UInt8)) :=
  if h.current = h.head then some (h, none)
  else do
    let h ← (
      if h.current = none then some { h with current := h.tail, line, lineValid := true }
      else do
        let elem ← h.deref h.current
        return { h with current := elem.prev })
    if h.current = none then return (h, none)
    else do
      let elem ← h.deref h.current
      return (h, some elem.buf)

/-- Find the next element, if any. -/
def historyGetNextCommand (h : History ι) : Option (History ι × Option (List UInt8)) := do
  let h ← (
    if h.current = none then some h
    else do
      let elem ← h.deref h.current
      return { h with current := elem.next })
  if h.current = none then
    if h.lineValid then do
      let buf ← cstr h.line.buf 0
      return ({ h with lineValid := false }, some buf)
    else return (h, none)
  else do
    let elem ← h.deref h.current
    return (h, some elem.buf)

def historyResetCurrent (h : History ι) : History ι := { h with current := none }

/-- The `ℤ` is the result. -/
def executeLine (h : History ι) (line : Line) (elem : Option ι) : Option (History ι × ℤ) := do
  -- Append the command to the history.
  let h ← (
    if line.length = 0 then some h
    else do
      let command ← cstr line.buf 0
      historyAppend h command elem)
  return (historyResetCurrent h, line.length)

/-! ## What the history holds -/

namespace History

variable {h : History ι} {l front back : List ι} {a b e : ι} {commands : List (List UInt8)} {command : List UInt8}

omit [DecidableEq ι] in
def next (h : History ι) : ι → Option ι := (·.bind HistoryElem.next) ∘ h.mem

omit [DecidableEq ι] in
def prev (h : History ι) : ι → Option ι := (·.bind HistoryElem.prev) ∘ h.mem

omit [DecidableEq ι] in
def buf (h : History ι) : ι → Option (List UInt8) := Option.map HistoryElem.buf ∘ h.mem

omit [DecidableEq ι] in
/-- The elements `l` of the list, in order, and their commands. -/
structure Holds (h : History ι) (l : List ι) (commands : List (List UInt8)) : Prop where
  linked : DLinked h.next h.prev h.head h.tail l
  bufs : l.map h.buf = commands.map some
  length : h.length = commands.length

omit [DecidableEq ι] in
theorem Holds.length_eq (hh : h.Holds l commands) : l.length = commands.length := by
  have hlen := congrArg List.length hh.bufs
  rwa [List.length_map, List.length_map] at hlen

omit [DecidableEq ι] in
/-- An element, and the commands in front of and behind its own. -/
theorem Holds.elem (hh : h.Holds (front ++ a :: back) commands) : ∃ older command newer,
    commands = older ++ command :: newer ∧ older.length = front.length ∧
      h.mem a = some ⟨back.head?, front.getLast?, command⟩ := by
  have hbufs := hh.bufs
  rw [List.map_append, List.map_cons] at hbufs
  obtain ⟨older, rest, rfl, holder, hrest⟩ := List.map_eq_append_iff.mp hbufs.symm
  obtain ⟨command, newer, rfl, hcommand, -⟩ := List.map_eq_cons_iff.mp hrest
  have hlen := congrArg List.length holder
  rw [List.length_map, List.length_map] at hlen
  have hbuf : (h.mem a).map HistoryElem.buf = some command := hcommand.symm
  obtain ⟨elem, hmem, hcommand⟩ := Option.map_eq_some_iff.mp hbuf
  have hnext : (h.mem a).bind HistoryElem.next = back.head? := hh.linked.next_eq
  have hprev : (h.mem a).bind HistoryElem.prev = front.getLast? := hh.linked.prev_eq
  rw [hmem, Option.bind_some] at hnext hprev
  refine ⟨older, command, newer, rfl, hlen, ?_⟩
  rw [hmem, ← hnext, ← hprev, ← hcommand]

omit [DecidableEq ι] in
theorem Holds.notMem (hh : h.Holds l commands) (he : h.mem e = none) : e ∉ l := by
  intro hel
  obtain ⟨front, back, rfl⟩ := List.append_of_mem hel
  obtain ⟨_, _, _, _, _, hmem⟩ := hh.elem
  rw [he] at hmem
  cases hmem

omit [DecidableEq ι] in
/-- What only the navigation changes. -/
def SameCursor (h h' : History ι) : Prop :=
  h'.current = h.current ∧ h'.line = h.line ∧ h'.lineValid = h.lineValid

/-! ## Appending -/

theorem removeHead_holds (hh : h.Holds (a :: b :: l) (command :: commands)) : ∃ h', removeHead h = some h' ∧
    h'.Holds (b :: l) commands ∧ SameCursor h h' := by
  have hfirst : h.Holds ([] ++ a :: b :: l) (command :: commands) := hh
  have hsecond : h.Holds ([a] ++ b :: l) (command :: commands) := hh
  obtain ⟨_, _, _, _, _, ha⟩ := hfirst.elem
  obtain ⟨older, command', newer, hcommands, hlen, hb⟩ := hsecond.elem
  obtain ⟨hab, _⟩ := List.nodup_cons.mp hh.linked.nodup
  have hne : b ≠ a := fun heq => hab (by rw [heq]; exact List.mem_cons_self)
  have hhead : h.head = some a := hh.linked.head_eq
  have htail : h.head ≠ h.tail := by
    rw [hhead, hh.linked.tail_eq, List.getLast?_cons_cons]
    exact fun heq => hab (List.mem_of_getLast? heq.symm)
  let mem := Function.update (Function.update h.mem b (some ⟨l.head?, none, command'⟩)) a none
  have hmem : Function.update h.mem b (some ⟨l.head?, none, command'⟩) a = h.mem a := Function.update_of_ne hne.symm _ _
  refine ⟨{ h with mem, head := some b, length := h.length - 1 }, ?_, ⟨?_, ?_, ?_⟩, rfl, rfl, rfl⟩
  · unfold removeHead
    dsimp only
    rw [if_neg htail, hhead]
    simp [deref, write, History.free, ha, hb, hmem, mem]
  · have hlinked := hh.linked
    rw [hhead] at hlinked
    have hnextOf : h.next b = l.head? := hsecond.linked.next_eq
    have hnext : (·.bind HistoryElem.next) ∘ mem = Function.update h.next a none := by
      rw [Function.comp_update, Function.comp_update]
      show Function.update (Function.update h.next b l.head?) a none = _
      rw [← hnextOf, Function.update_eq_self]
    have hprev : (·.bind HistoryElem.prev) ∘ mem = Function.update (Function.update h.prev b none) a none := by
      rw [Function.comp_update, Function.comp_update]
      rfl
    show DLinked ((·.bind HistoryElem.next) ∘ mem) ((·.bind HistoryElem.prev) ∘ mem) _ _ _
    rw [hnext, hprev]
    exact hlinked.unlinkHead none none
  · have hbufOf : h.buf b = some command' := by
      show (h.mem b).map _ = _
      rw [hb]
      rfl
    have hbuf : Option.map HistoryElem.buf ∘ mem = Function.update h.buf a none := by
      rw [Function.comp_update, Function.comp_update]
      show Function.update (Function.update h.buf b (some command')) a none = _
      rw [← hbufOf, Function.update_eq_self]
    show (b :: l).map (Option.map HistoryElem.buf ∘ mem) = _
    rw [hbuf, ← (List.cons.inj hh.bufs).2]
    apply List.map_congr_left
    intro c hc
    rw [Function.update_of_ne]
    rintro rfl
    exact hab hc
  · have hlength := hh.length
    rw [List.length_cons] at hlength
    show h.length - 1 = _
    omega

/-- There is room for one more command. -/
theorem makeRoom_holds (hh : h.Holds l commands) : ∃ h' l', h.makeRoom = some h' ∧
    h'.Holds l' (if commands.length = 64 then commands.tail else commands) ∧ SameCursor h h' := by
  have hlength := hh.length
  unfold makeRoom maximumHistoryLength
  by_cases hfull : commands.length = 64
  · rw [if_pos hfull, if_pos (by omega)]
    have hlen := hh.length_eq
    match l, commands, hh, hlen, hfull with
    | a :: b :: l, command :: commands, hh, _, _ =>
      obtain ⟨h₁, hremove, hh₁, hsame⟩ := removeHead_holds hh
      exact ⟨h₁, b :: l, hremove, hh₁, hsame⟩
    | [], [], _, _, hfull => exact absurd hfull (by decide)
    | [a], [command], _, _, hfull => exact absurd hfull (by simp)
  · rw [if_neg hfull, if_neg (by omega)]
    exact ⟨h, l, rfl, hh, rfl, rfl, rfl⟩

theorem Holds.bufs_snoc (hh : h.Holds l commands) (hel : e ∉ l) (command : List UInt8) :
    (l ++ [e]).map (Function.update h.buf e (some command)) = (commands ++ [command]).map some := by
  rw [List.map_append, List.map_append, ← hh.bufs, List.map_singleton, Function.update_self]
  refine congrArg (· ++ [some command]) (List.map_congr_left fun c hc => Function.update_of_ne ?_ _ _)
  rintro rfl
  exact hel hc

omit [DecidableEq ι] in
theorem Holds.length_snoc (hh : h.Holds l commands) (command : List UInt8) :
    h.length + 1 = (commands ++ [command]).length := by
  have hlength := hh.length
  rw [List.length_append, List.length_singleton]
  omega

/-- The first element. -/
theorem appendElem_first (hh : h.Holds [] commands) (he : h.mem e = none) (command : List UInt8) :
    ∃ h', appendElem h e command = some h' ∧ h'.Holds [e] (commands ++ [command]) ∧ SameCursor h h' := by
  have hhead : h.head = none := hh.linked.head_eq
  let mem := Function.update h.mem e (some ⟨none, none, command⟩)
  refine ⟨{ h with mem, head := some e, tail := some e, length := h.length + 1 }, ?_,
    ⟨?_, ?_, hh.length_snoc command⟩, rfl, rfl, rfl⟩
  · unfold appendElem
    simp [hhead, mem]
  · have hnext : (·.bind HistoryElem.next) ∘ mem = Function.update h.next e none := Function.comp_update _ _ _ _
    have hprev : (·.bind HistoryElem.prev) ∘ mem = Function.update h.prev e none := Function.comp_update _ _ _ _
    show DLinked ((·.bind HistoryElem.next) ∘ mem) ((·.bind HistoryElem.prev) ∘ mem) _ _ _
    rw [hnext, hprev]
    exact .single h.next h.prev e
  · have hbuf : Option.map HistoryElem.buf ∘ mem = Function.update h.buf e (some command) := Function.comp_update _ _ _ _
    show List.map (Option.map HistoryElem.buf ∘ mem) _ = _
    rw [hbuf]
    exact hh.bufs_snoc (hh.notMem he) command

/-- Behind the last element. -/
theorem appendElem_last {front : List ι} {q : ι} (hh : h.Holds (front ++ [q]) commands) (he : h.mem e = none)
    (command : List UInt8) : ∃ h', appendElem h e command = some h' ∧
      h'.Holds (front ++ [q] ++ [e]) (commands ++ [command]) ∧ SameCursor h h' := by
  have hel := hh.notMem he
  obtain ⟨older, last, newer, -, -, hq⟩ := hh.elem
  have hhead : h.head ≠ none := by
    rw [hh.linked.head_eq]
    simp
  have htail : h.tail = some q := by
    rw [hh.linked.tail_eq]
    exact List.getLast?_concat
  have hqe : q ≠ e := by
    rintro rfl
    exact hel (List.mem_append_right _ List.mem_cons_self)
  let mem := Function.update (Function.update h.mem e (some ⟨none, some q, command⟩)) q
    (some ⟨some e, front.getLast?, last⟩)
  have hmem : Function.update h.mem e (some ⟨none, some q, command⟩) q = h.mem q := Function.update_of_ne hqe _ _
  refine ⟨{ h with mem, tail := some e, length := h.length + 1 }, ?_, ⟨?_, ?_, hh.length_snoc command⟩, rfl, rfl, rfl⟩
  · unfold appendElem
    simp [hhead, htail, deref, write, hq, hmem, mem]
  · have hlinked := hh.linked
    rw [htail] at hlinked
    have hnext : (·.bind HistoryElem.next) ∘ mem =
        Function.update (Function.update h.next e none) q (some e) := by
      rw [Function.comp_update, Function.comp_update]
      rfl
    have hprevOf : Function.update h.prev e (some q) q = front.getLast? :=
      (Function.update_of_ne hqe _ _).trans hlinked.prev_eq
    have hprev : (·.bind HistoryElem.prev) ∘ mem = Function.update h.prev e (some q) := by
      rw [Function.comp_update, Function.comp_update]
      show Function.update (Function.update h.prev e (some q)) q front.getLast? = _
      rw [← hprevOf, Function.update_eq_self]
    show DLinked ((·.bind HistoryElem.next) ∘ mem) ((·.bind HistoryElem.prev) ∘ mem) _ _ _
    rw [hnext, hprev]
    exact hlinked.snoc hel
  · have hbufOf : Function.update h.buf e (some command) q = some last := by
      refine (Function.update_of_ne hqe _ _).trans ?_
      show (h.mem q).map _ = _
      rw [hq]
      rfl
    have hbuf : Option.map HistoryElem.buf ∘ mem = Function.update h.buf e (some command) := by
      rw [Function.comp_update, Function.comp_update]
      show Function.update (Function.update h.buf e (some command)) q (some last) = _
      rw [← hbufOf, Function.update_eq_self]
    show List.map (Option.map HistoryElem.buf ∘ mem) _ = _
    rw [hbuf]
    exact hh.bufs_snoc hel command

theorem appendElem_holds (hh : h.Holds l commands) (he : h.mem e = none) (command : List UInt8) :
    ∃ h', appendElem h e command = some h' ∧ h'.Holds (l ++ [e]) (commands ++ [command]) ∧ SameCursor h h' := by
  rcases List.eq_nil_or_concat' l with rfl | ⟨front, q, rfl⟩
  · exact appendElem_first hh he command
  · exact appendElem_last hh he command

omit [DecidableEq ι] in
/-- What is compared with a new command. -/
theorem Holds.last_eq (hh : h.Holds l commands) (command : List UInt8) :
    (if h.tail = none then some false else (h.deref h.tail).map fun last => decide (last.buf = command)) =
      some (decide (commands.getLast? = some command)) := by
  rcases List.eq_nil_or_concat' l with rfl | ⟨front, q, rfl⟩
  · have htail : h.tail = none := hh.linked.tail_eq
    obtain rfl : commands = [] := List.eq_nil_of_length_eq_zero hh.length_eq.symm
    rw [if_pos htail]
    simp
  · have hlen := hh.length_eq
    obtain ⟨older, last, newer, rfl, holder, hq⟩ := hh.elem
    have htail : h.tail = some q := by
      rw [hh.linked.tail_eq]
      exact List.getLast?_concat
    obtain rfl : newer = [] := by
      apply List.eq_nil_of_length_eq_zero
      simp only [List.length_append, List.length_cons, List.length_nil] at hlen
      omega
    rw [htail]
    simp [deref, hq]

end History

/-- What the list holds after one more command; without memory for it the oldest one is gone all the same. -/
def remember (stored : Bool) (commands : List (List UInt8)) (command : List UInt8) : List (List UInt8) :=
  if commands.getLast? = some command then commands
  else
    let commands := if commands.length = 64 then commands.tail else commands
    if stored then commands ++ [command] else commands

section Steps

variable {h : History ι} {l : List ι} {a : ι} {commands : List (List UInt8)} {elem : Option ι}

theorem historyAppend_holds (hh : h.Holds l commands) (command : List UInt8) (helem : h.MayAllocate elem) :
    ∃ h' l', historyAppend h command elem = some h' ∧ h'.Holds l' (remember elem.isSome commands command) ∧
      SameCursor h h' := by
  unfold historyAppend remember
  rw [hh.last_eq command, Option.bind_eq_bind, Option.bind_some]
  by_cases hlast : commands.getLast? = some command
  · rw [if_pos hlast, decide_eq_true hlast]
    exact ⟨h, l, rfl, hh, rfl, rfl, rfl⟩
  rw [if_neg hlast, decide_eq_false hlast, if_neg Bool.false_ne_true]
  obtain ⟨h₁, l₁, hroom, hh₁, hsame⟩ := makeRoom_holds hh
  rw [hroom]
  cases elem with
  | none => exact ⟨h₁, l₁, rfl, hh₁, hsame⟩
  | some e =>
    obtain ⟨h₂, happend, hh₂, hcurrent, hline, hvalid⟩ := appendElem_holds hh₁ (helem e rfl h₁ hroom) command
    exact ⟨h₂, l₁ ++ [e], happend, hh₂, hcurrent.trans hsame.1, hline.trans hsame.2.1, hvalid.trans hsame.2.2⟩

/-- **A line is executed.** -/
theorem executeLine_holds (hh : h.Holds l commands) {line : Line} {text : Text} (hline : line.Holds text)
    (helem : h.MayAllocate elem) : ∃ h' l', executeLine h line elem = some (h', line.length) ∧
      h'.Holds l' (if text.all = [] then commands else remember elem.isSome commands text.all) ∧
      h'.current = none ∧ h'.line = h.line ∧ h'.lineValid = h.lineValid := by
  have hempty : line.length = 0 ↔ text.all = [] := by
    rw [hline.length_all, ← List.length_eq_zero_iff]
    omega
  unfold executeLine
  by_cases hnil : text.all = []
  · rw [if_pos (hempty.mpr hnil), if_pos hnil]
    exact ⟨_, l, rfl, ⟨hh.linked, hh.bufs, hh.length⟩, rfl, rfl, rfl⟩
  · obtain ⟨h', l', happend, hh', hsame⟩ := historyAppend_holds hh text.all helem
    have hcstr : cstr line.buf 0 = some text.all := hline.cstr_eq (Nat.zero_le _)
    rw [if_neg (fun h0 => hnil (hempty.mp h0)), if_neg hnil, hcstr, Option.bind_eq_bind, Option.bind_eq_bind, Option.bind_some,
      happend]
    exact ⟨_, l', rfl, ⟨hh'.linked, hh'.bufs, hh'.length⟩, rfl, hsame.2.1, hsame.2.2⟩

/-! The list is split where the position is: `front ++ back` with the position at the first
element of `back`, or at the edited line when there is none. -/

variable {front back : List ι}

/-- The oldest command, or no command at all. -/
theorem previous_of_begin (hh : h.Holds back commands) (hcurrent : h.current = back.head?) (line : Line) :
    historyGetPreviousCommand h line = some (h, none) := by
  have hhead : h.current = h.head := by rw [hcurrent, hh.linked.head_eq]
  unfold historyGetPreviousCommand
  rw [if_pos hhead]

/-- **One command back.** -/
theorem previous_of_snoc (hh : h.Holds (front ++ a :: back) commands) (hcurrent : h.current = back.head?) (line : Line) :
    ∃ older command newer, commands = older ++ command :: newer ∧ older.length = front.length ∧
      historyGetPreviousCommand h line = some ({ h with
        current := some a, line := if back = [] then line else h.line, lineValid := back.isEmpty || h.lineValid },
        some command) := by
  obtain ⟨older, command, newer, hcommands, holder, ha⟩ := hh.elem
  refine ⟨older, command, newer, hcommands, holder, ?_⟩
  have hhead := hh.linked.head_eq
  have hnodup := hh.linked.nodup
  have hne : h.current ≠ h.head := by
    rw [hcurrent, hhead]
    cases back with
    | nil =>
      rw [List.head?_nil]
      simp
    | cons b back =>
      -- the first element is not behind `a`
      obtain ⟨x, rest, hx⟩ : ∃ x rest, front ++ [a] = x :: rest := List.exists_cons_of_ne_nil (by simp)
      rw [List.append_cons, hx, List.cons_append] at hnodup ⊢
      rw [List.head?_cons, List.head?_cons]
      intro heq
      rw [← Option.some.inj heq] at hnodup
      exact (List.nodup_cons.mp hnodup).1 (List.mem_append_right _ List.mem_cons_self)
  unfold historyGetPreviousCommand
  rw [if_neg hne]
  cases back with
  | nil =>
    have htail : h.tail = some a := by
      rw [hh.linked.tail_eq]
      exact List.getLast?_concat
    rw [List.head?_nil] at hcurrent
    simp [hcurrent, htail, deref, ha]
  | cons b back =>
    have hb : ∃ elem, h.mem b = some elem ∧ elem.prev = some a := by
      rw [List.append_cons] at hh
      obtain ⟨_, _, _, _, _, hb⟩ := hh.elem
      exact ⟨_, hb, List.getLast?_concat⟩
    obtain ⟨elem, hb, hprev⟩ := hb
    rw [List.head?_cons] at hcurrent
    simp [hcurrent, deref, hb, hprev, ha]

omit [DecidableEq ι] in
/-- What DOWN gives when there is no next command. -/
def restored (h : History ι) : Option (History ι × Option (List UInt8)) :=
  if h.lineValid then (cstr h.line.buf 0).map fun buf => ({ h with lineValid := false }, some buf) else some (h, none)

omit [DecidableEq ι] in
theorem next_of_end (hcurrent : h.current = none) : historyGetNextCommand h = restored h := by
  unfold historyGetNextCommand restored
  rw [if_pos hcurrent, Option.bind_eq_bind, Option.bind_some, if_pos hcurrent]
  by_cases hvalid : h.lineValid = true
  · rw [if_pos hvalid, if_pos hvalid]
    cases cstr h.line.buf 0 with
    | none => rfl
    | some buf => rfl
  · rw [if_neg hvalid, if_neg hvalid]
    rfl

omit [DecidableEq ι] in
/-- **One command forward.** -/
theorem next_of_cons (hh : h.Holds (front ++ a :: back) commands) (hcurrent : h.current = some a) :
    ∃ older command newer, commands = older ++ command :: newer ∧ older.length = front.length ∧
      historyGetNextCommand h =
        if back = [] then restored { h with current := none }
        else some ({ h with current := back.head? }, newer.head?) := by
  have hlen := hh.length_eq
  obtain ⟨older, command, newer, rfl, holder, ha⟩ := hh.elem
  refine ⟨older, command, newer, rfl, holder, ?_⟩
  cases back with
  | nil =>
    rw [if_pos rfl, ← @next_of_end ι { h with current := none } rfl]
    unfold historyGetNextCommand
    simp [hcurrent, deref, ha]
  | cons b back =>
    have hb : ∃ elem, h.mem b = some elem ∧ newer.head? = some elem.buf := by
      rw [List.append_cons] at hh
      obtain ⟨older', command', newer', hcommands, holder', hb⟩ := hh.elem
      rw [List.length_append, List.length_singleton] at holder'
      rw [List.append_cons] at hcommands
      obtain ⟨-, rfl⟩ := List.append_inj hcommands (by rw [List.length_append, List.length_singleton]; omega)
      exact ⟨_, hb, rfl⟩
    obtain ⟨elem, hb, hnewer⟩ := hb
    rw [if_neg (List.cons_ne_nil b back), hnewer]
    unfold historyGetNextCommand
    simp [hcurrent, deref, ha, hb]

end Steps

/-! ## Runs -/

/-- `previous` has the line that is edited. -/
inductive HistoryOp (ι : Type)
  | execute (line : Line) (elem : ι)
  | previous (line : Line)
  | next

namespace HistoryOp

/-- The line holds a string, and `malloc` may return the element. -/
def Enabled (s : Option (History ι)) : HistoryOp ι → Prop
  | execute line elem => (∃ text, line.Holds text) ∧ ∀ h ∈ s, h.MayAllocate (some elem)
  | previous line => ∃ text, line.Holds text
  | next => True

instance (s : Option (History ι)) (op : HistoryOp ι) : Decidable (op.Enabled s) :=
  match op with
  | execute line elem =>
    decidable_of_iff (line.Holds line.text ∧ ∀ h ∈ s, h.MayAllocate (some elem)) (and_congr_left' Line.exists_holds_iff.symm)
  | previous _ => decidable_of_iff _ Line.exists_holds_iff.symm
  | next => inferInstanceAs (Decidable True)

def run (h : History ι) : HistoryOp ι → Option (History ι)
  | execute line elem => (executeLine h line (some elem)).map Prod.fst
  | previous line => (historyGetPreviousCommand h line).map Prod.fst
  | next => (historyGetNextCommand h).map Prod.fst

omit [DecidableEq ι] in
/-- The line that is executed, unless it is empty. -/
def command? : HistoryOp ι → Option (List UInt8)
  | execute line _ => if line.text.all = [] then none else some line.text.all
  | _ => none

end HistoryOp

/-- A step after an access outside the memory has no result either. -/
def historySystem (h₀ : History ι) : System (Option (History ι)) (HistoryOp ι) where
  start := historyInit h₀
  enabled := HistoryOp.Enabled
  next s op := s.bind op.run

instance (h₀ : History ι) (s : Option (History ι)) (op : HistoryOp ι) : Decidable ((historySystem h₀).enabled s op) :=
  inferInstanceAs (Decidable (op.Enabled s))

omit [DecidableEq ι] in
/-- What can be reached from the pointers to the list. -/
inductive History.Reachable (h : History ι) : ι → Prop
  | head {a : ι} (ha : h.head = some a) : Reachable h a
  | tail {a : ι} (ha : h.tail = some a) : Reachable h a
  | current {a : ι} (ha : h.current = some a) : Reachable h a
  | next {a b : ι} (ha : Reachable h a) (hb : h.next a = some b) : Reachable h b
  | prev {a b : ι} (ha : Reachable h a) (hb : h.prev a = some b) : Reachable h b

omit [DecidableEq ι] in
/-- The position is in front of `back`, and the saved line can be read. -/
structure History.Navigable (h : History ι) (front back : List ι) (commands : List (List UInt8)) (saved : Text) : Prop where
  holds : h.Holds (front ++ back) commands
  current : h.current = back.head?
  saved : h.line.Holds saved

section Runs

variable {h h₀ : History ι} {front back : List ι} {commands : List (List UInt8)} {saved : Text}

omit [DecidableEq ι] in
theorem History.Navigable.reachable (hn : h.Navigable front back commands saved) {a : ι} (ha : h.Reachable a) :
    a ∈ front ++ back := by
  have hlinked := hn.holds.linked
  induction ha with
  | head ha =>
    rw [hlinked.head_eq] at ha
    exact List.mem_of_head? ha
  | tail ha =>
    rw [hlinked.tail_eq] at ha
    exact List.mem_of_getLast? ha
  | current ha =>
    rw [hn.current] at ha
    exact List.mem_append_right _ (List.mem_of_head? ha)
  | next _ hb ih => exact hlinked.closed ih (.inl hb)
  | prev _ hb ih => exact hlinked.closed ih (.inr hb)

omit [DecidableEq ι] in
theorem historyInit_navigable (hsize : h₀.line.buf.length = 256) :
    ∃ h, historyInit h₀ = some h ∧ h.Navigable [] [] [] ⟨[], []⟩ ∧ h.lineValid = false := by
  obtain ⟨line, hinit, hline⟩ := lineInit_holds hsize
  have heq : historyInit h₀ = some
      { h₀ with head := none, tail := none, length := 0, current := none, line, lineValid := false } := by
    unfold historyInit
    rw [hinit]
    rfl
  exact ⟨_, heq, ⟨⟨.nil, rfl, rfl⟩, rfl, hline⟩, rfl⟩

omit [DecidableEq ι] in
theorem restored_navigable (hn : h.Navigable front [] commands saved) :
    restored h = some ({ h with lineValid := false }, if h.lineValid then some saved.all else none) := by
  have hcstr : cstr h.line.buf 0 = some saved.all := hn.saved.cstr_eq (Nat.zero_le _)
  unfold restored
  cases hvalid : h.lineValid with
  | true =>
    rw [if_pos rfl, if_pos rfl, hcstr]
    rfl
  | false =>
    rw [if_neg Bool.false_ne_true, if_neg Bool.false_ne_true, ← hvalid]

/-- **One step.** -/
theorem run_navigable (hn : h.Navigable front back commands saved) (op : HistoryOp ι) (hop : op.Enabled (some h)) :
    ∃ h' front' back' saved', op.run h = some h' ∧
      h'.Navigable front' back' (op.command?.elim commands (remember true commands)) saved' := by
  cases op with
  | execute line elem =>
    obtain ⟨⟨text, hline⟩, hmalloc⟩ := hop
    obtain ⟨h', l', hexec, hh', hcurrent, hsaved, -⟩ := executeLine_holds hn.holds hline (hmalloc h rfl)
    refine ⟨h', l', [], saved, congrArg (Option.map Prod.fst) hexec, ⟨?_, hcurrent, hsaved ▸ hn.saved⟩⟩
    · show h'.Holds (l' ++ []) (Option.elim (if line.text.all = [] then none else some line.text.all) _ _)
      rw [List.append_nil, hline.text_eq]
      by_cases hnil : text.all = []
      · rwa [if_pos hnil] at hh' ⊢
      · rwa [if_neg hnil] at hh' ⊢
  | previous line =>
    obtain ⟨text, hline⟩ := hop
    rcases List.eq_nil_or_concat' front with rfl | ⟨front, a, rfl⟩
    · have hprev := previous_of_begin hn.holds hn.current line
      exact ⟨h, [], back, saved, congrArg (Option.map Prod.fst) hprev, hn⟩
    · have hh := hn.holds
      rw [List.append_assoc, List.singleton_append] at hh
      obtain ⟨_, _, _, _, _, hprev⟩ := previous_of_snoc hh hn.current line
      refine ⟨_, front, a :: back, if back = [] then text else saved, congrArg (Option.map Prod.fst) hprev,
        ⟨⟨hh.linked, hh.bufs, hh.length⟩, rfl, ?_⟩⟩
      show Line.Holds (if back = [] then line else h.line) _
      split
      next => exact hline
      next => exact hn.saved
  | next =>
    cases back with
    | nil =>
      have hnext := (next_of_end hn.current).trans (restored_navigable hn)
      exact ⟨_, front, [], saved, congrArg (Option.map Prod.fst) hnext,
        ⟨⟨hn.holds.linked, hn.holds.bufs, hn.holds.length⟩, hn.current, hn.saved⟩⟩
    | cons a back =>
      have hh := hn.holds
      rw [List.append_cons] at hh
      obtain ⟨_, _, _, _, _, hnext⟩ := next_of_cons hn.holds hn.current
      have hend : History.Navigable { h with current := none } (front ++ [a] ++ back) [] commands saved :=
        ⟨⟨by rw [List.append_nil]; exact hh.linked, by rw [List.append_nil]; exact hh.bufs, hh.length⟩, rfl, hn.saved⟩
      rw [restored_navigable hend] at hnext
      cases back with
      | nil =>
        exact ⟨_, front ++ [a], [], saved, congrArg (Option.map Prod.fst) hnext,
          ⟨⟨hh.linked, hh.bufs, hh.length⟩, rfl, hn.saved⟩⟩
      | cons b back =>
        exact ⟨_, front ++ [a], b :: back, saved, congrArg (Option.map Prod.fst) hnext,
          ⟨⟨hh.linked, hh.bufs, hh.length⟩, rfl, hn.saved⟩⟩

/-- A new command in a list of the most recent ones. -/
theorem remember_recent (commands : List (List UInt8)) (command : List UInt8) :
    remember true (recent 64 commands) command = recent 64 (commands ++ [command]) := by
  rw [recent_snoc (by decide)]
  unfold remember
  rw [if_pos rfl]

/-- The executed commands are the lines that were typed. -/
theorem command?_fits {s : Option (History ι)} {op : HistoryOp ι} (hop : op.Enabled s) {command : List UInt8}
    (hcommand : op.command? = some command) : command ≠ [] ∧ NulFree command ∧ command.length ≤ 255 := by
  cases op with
  | execute line elem =>
    obtain ⟨⟨text, hline⟩, -⟩ := hop
    change (if line.text.all = [] then none else some line.text.all) = some command at hcommand
    rw [hline.text_eq] at hcommand
    split at hcommand
    next => cases hcommand
    next hne =>
      cases hcommand
      have hfits := hline.fits
      exact ⟨hne, hline.nulFree, by rw [text.length_all]; omega⟩
  | previous line => cases hcommand
  | next => cases hcommand

/-- The commands in the history after any run. -/
theorem run_history (hsize : h₀.line.buf.length = 256) {tr : List (HistoryOp ι)} {s : Option (History ι)}
    (hr : (historySystem h₀).Run tr s) :
    (∃ h front back saved, s = some h ∧ h.Navigable front back (recent 64 (tr.filterMap HistoryOp.command?)) saved) ∧
      ∀ command ∈ recent 64 (tr.filterMap HistoryOp.command?),
        command ≠ [] ∧ NulFree command ∧ command.length ≤ 255 := by
  constructor
  · refine hr.invariantOn (fun tr s => ∃ h front back saved, s = some h ∧
      h.Navigable front back (recent 64 (tr.filterMap HistoryOp.command?)) saved) ?_ ?_
    · obtain ⟨h, hinit, hn, -⟩ := historyInit_navigable hsize
      exact ⟨h, [], [], _, hinit, hn⟩
    · rintro tr s op - ⟨h, front, back, saved, rfl, hn⟩ hop
      obtain ⟨h', front', back', saved', hrun, hn'⟩ := run_navigable hn op hop
      refine ⟨h', front', back', saved', hrun, ?_⟩
      rw [List.filterMap_append]
      cases hcommand : op.command? with
      | none =>
        rw [hcommand] at hn'
        rwa [List.filterMap_cons_none hcommand, List.filterMap_nil, List.append_nil]
      | some command =>
        rw [hcommand] at hn'
        rw [List.filterMap_cons_some hcommand, List.filterMap_nil, ← remember_recent]
        exact hn'
  · intro command hrecent
    have hexecuted := mem_of_mem_recent hrecent
    clear hrecent
    induction hr with
    | nil => cases hexecuted
    | snoc op _ hop ih =>
      rw [List.filterMap_append, List.mem_append] at hexecuted
      rcases hexecuted with hold | hnew
      · exact ih hold
      · obtain ⟨op', hop', hcommand⟩ := List.mem_filterMap.mp hnew
        obtain rfl := List.mem_singleton.mp hop'
        exact command?_fits hop hcommand

/-- **The history is the list of the most recent commands.** -/
theorem history_is_recent (h₀ : History ι) (hsize : h₀.line.buf.length = 256) {tr : List (HistoryOp ι)}
    {s : Option (History ι)} (hr : (historySystem h₀).Run tr s) :
    ∃ h l, s = some h ∧ l.map h.buf = (recent 64 (tr.filterMap HistoryOp.command?)).map some ∧
      Linked h.next h.head l ∧ Linked h.prev h.tail l.reverse ∧
      h.length = (recent 64 (tr.filterMap HistoryOp.command?)).length ∧
      ∀ a, h.Reachable a → a ∈ l ∧ (h.mem a).isSome := by
  obtain ⟨⟨h, front, back, saved, hs, hn⟩, -⟩ := run_history hsize hr
  refine ⟨h, front ++ back, hs, hn.holds.bufs, hn.holds.linked.forward, hn.holds.linked.backward, hn.holds.length, ?_⟩
  intro a ha
  have hal := hn.reachable ha
  refine ⟨hal, ?_⟩
  obtain ⟨l₁, l₂, hl⟩ := List.append_of_mem hal
  have hh := hn.holds
  rw [hl] at hh
  obtain ⟨_, _, _, _, _, hmem⟩ := hh.elem
  rw [hmem]
  rfl

end Runs

/-- Nothing is allocated, and the lines are empty. -/
def emptyHistory : History ℕ where
  mem _ := none
  head := none
  tail := none
  length := 0
  current := none
  line := typedLine []
  lineValid := false

/-- `ls`, and a place for it. -/
def executeLs : HistoryOp ℕ := .execute (typedLine [0x6c, 0x73]) 7

theorem run_executeLs : (historySystem emptyHistory).Run [executeLs]
    ((historySystem emptyHistory).next (historySystem emptyHistory).start executeLs) :=
  (System.path_of_runs (by decide +kernel)).run

/-- 64 commands of one character; the last of them and an empty line; and two more, each in the place of the command
that was freed for it. -/
def evictOps : List (HistoryOp ℕ) :=
  (List.range 64).map (fun i => .execute (typedLine [0x21 + UInt8.ofNat i]) i) ++
    [.execute (typedLine [0x60]) 64, .execute (typedLine []) 64, .execute (typedLine [0x61]) 0, .previous (typedLine [0x78]),
      .execute (typedLine [0x61]) 64, .execute (typedLine [0x62]) 1]

theorem history_is_recent_evict : ∃ h l,
    evictOps.foldl (historySystem emptyHistory).next (historySystem emptyHistory).start = some h ∧
      l.map h.buf = (List.range 64).map (fun i => some [0x23 + UInt8.ofNat i]) ∧ Linked h.next h.head l ∧
      Linked h.prev h.tail l.reverse ∧ h.length = 64 ∧ h.tail = some 1 := by
  have hempty : emptyHistory.line.buf.length = 256 := (typedLine_holds NulFree.nil (Nat.zero_le _)).size
  have hrun : (historySystem emptyHistory).Run evictOps _ := (System.path_of_runs (by decide +kernel)).run
  obtain ⟨h, l, hs, hbufs, hforward, hbackward, hlength, -⟩ := history_is_recent emptyHistory hempty hrun
  have hrecent : recent 64 (evictOps.filterMap HistoryOp.command?) = (List.range 64).map fun i => [0x23 + UInt8.ofNat i] := by
    decide +kernel
  have htail : (evictOps.foldl (historySystem emptyHistory).next (historySystem emptyHistory).start).map History.tail =
      some (some 1) := by decide +kernel
  rw [hrecent] at hbufs hlength
  rw [hs] at htail
  rw [List.map_map] at hbufs
  exact ⟨h, l, hs, hbufs, hforward, hbackward, hlength, Option.some_inj.mp htail⟩

end Monolinux
