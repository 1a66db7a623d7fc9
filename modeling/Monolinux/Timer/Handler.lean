import Monolinux.Lib.DeltaList
import Mathlib.Logic.Function.Basic
import Mathlib.Tactic.Ring

/-!
# `ml_timer_handler_t`: the list of active timers

The timers of a handler are named by a type `τ`; `timer t` is the record of
`t`, and `list` is the chain of active timers from `head_p` on, up to the tail
element.  The walk along the list is a recursion on the chain; walking off its
end (the tail's `next_p` is `NULL`) is the result `none`.

A fired timer `t` stands for the `ml_queue_put` of its message on its queue;
both are set once by `ml_timer_handler_timer_init`.
-/

namespace Monolinux

variable {τ : Type*} [DecidableEq τ]

/-- `struct ml_timer_t`. -/
structure Timer where
  initialTicks : UInt32
  repeatTicks : UInt32
  delta : UInt32
  numberOfOutstandingTimeouts : Int
  numberOfTimeoutsToIgnore : Int

structure TimerHandler (τ : Type*) where
  /-- the active timers, head first -/
  list : List τ
  /-- `tail.delta` -/
  tailDelta : UInt32
  timer : τ → Timer

def divCeil (a b : UInt32) : UInt32 := (a + b - 1) / b

def setDelta (timer : τ → Timer) (t : τ) (delta : UInt32) : τ → Timer :=
  Function.update timer t { timer t with delta := delta }

/-- The walk of `timer_list_insert` from `elem_p` on: the rest of the list with `t` in it. -/
def insertWalk (tailDelta : UInt32) (t : τ) : (τ → Timer) → List τ → Option (List τ × (τ → Timer))
  | timer, [] => if tailDelta < (timer t).delta then none else some ([t], timer)
  | timer, e :: rest =>
    if (timer e).delta < (timer t).delta then
      (insertWalk tailDelta t (setDelta timer t ((timer t).delta - (timer e).delta)) rest).map
        fun r => (e :: r.1, r.2)
    else some (t :: e :: rest, setDelta timer e ((timer e).delta - (timer t).delta))

/-- The walk of `timer_list_remove`. -/
def removeWalk (t : τ) (timer : τ → Timer) : List τ → List τ × (τ → Timer)
  | [] => ([], timer)
  | e :: rest =>
    if e = t then
      match rest with
      | [] => ([], timer)
      | n :: rest' => (n :: rest', setDelta timer n ((timer n).delta + (timer e).delta))
    else ((e :: (removeWalk t timer rest).1), (removeWalk t timer rest).2)

namespace TimerHandler

def timerListInsert (h : TimerHandler τ) (t : τ) : Option (TimerHandler τ) :=
  (insertWalk h.tailDelta t h.timer h.list).map fun r => { h with list := r.1, timer := r.2 }

def timerListRemove (h : TimerHandler τ) (t : τ) : TimerHandler τ :=
  { h with list := (removeWalk t h.timer h.list).1, timer := (removeWalk t h.timer h.list).2 }

/-- `list_p->head_p->delta--`, unless no timer is active. -/
def decrementHead (h : TimerHandler τ) : TimerHandler τ :=
  match h.list with
  | [] => h
  | e :: _ => { h with timer := setDelta h.timer e ((h.timer e).delta - 1) }

/-- The head `e` leaves the list, and its message is on the way. -/
def expire (h : TimerHandler τ) (e : τ) : TimerHandler τ :=
  { h with
    list := h.list.tail
    timer := Function.update h.timer e
      { h.timer e with numberOfOutstandingTimeouts := (h.timer e).numberOfOutstandingTimeouts + 1 } }

/-- After the put: a periodic timer goes back into the list. -/
def resetPeriodic (h : TimerHandler τ) (e : τ) : Option (TimerHandler τ) :=
  if 0 < (h.timer e).repeatTicks then
    { h with timer := setDelta h.timer e (h.timer e).repeatTicks }.timerListInsert e
  else some h

/-- The loop of `tick` over the expired timers, and the timers it fired.  `none`: the walk left
the list, the tail expired, or the fuel ran out. -/
def fireExpired : ℕ → TimerHandler τ → Option (List τ × TimerHandler τ)
  | fuel, h => match h.list, fuel with
    | [], _ => if h.tailDelta = 0 then none else some ([], h)
    | e :: _, fuel =>
      if (h.timer e).delta = 0 then
        match fuel with
        | 0 => none
        | fuel + 1 => ((h.expire e).resetPeriodic e).bind fun h' =>
            (fireExpired fuel h').map fun r => (e :: r.1, r.2)
      else some ([], h)

/-- No timer fires twice in a tick, so the length of the list is fuel enough. -/
def tick (h : TimerHandler τ) : Option (List τ × TimerHandler τ) :=
  match h.list with
  | [] => some ([], h)
  | _ => fireExpired h.list.length h.decrementHead

/-- `mem` is the memory the timers are in. -/
def mlTimerHandlerInit (mem : τ → Timer) : TimerHandler τ where
  list := []
  tailDelta := -1
  timer := mem

def mlTimerHandlerTimerInit (t : Timer) : Timer :=
  { t with numberOfOutstandingTimeouts := 0, numberOfTimeoutsToIgnore := 0 }

def mlTimerHandlerTimerStop (h : TimerHandler τ) (t : τ) : TimerHandler τ :=
  { h with
    timer := Function.update h.timer t
      { h.timer t with numberOfTimeoutsToIgnore := (h.timer t).numberOfOutstandingTimeouts } }.timerListRemove t

/-- What `ml_timer_handler_timer_start` does after it has stopped the timer. -/
def insertStarted (h : TimerHandler τ) (t : τ) (initial rep : UInt32) : Option (TimerHandler τ) :=
  let initialTicks := divCeil initial 100
  { h with
    timer := Function.update h.timer t
      { h.timer t with
        initialTicks := initialTicks
        repeatTicks := divCeil rep 100
        delta := initialTicks + 1 } }.timerListInsert t

def mlTimerHandlerTimerStart (h : TimerHandler τ) (t : τ) (initial rep : UInt32) : Option (TimerHandler τ) :=
  (h.mlTimerHandlerTimerStop t).insertStarted t initial rep

def mlTimerIsMessageValid (h : TimerHandler τ) (t : τ) : Bool × TimerHandler τ :=
  let r := { h.timer t with numberOfOutstandingTimeouts := (h.timer t).numberOfOutstandingTimeouts - 1 }
  if 0 < r.numberOfTimeoutsToIgnore then
    (false, { h with
      timer := Function.update h.timer t
        { r with numberOfTimeoutsToIgnore := r.numberOfTimeoutsToIgnore - 1 } })
  else (true, { h with timer := Function.update h.timer t r })

end TimerHandler

end Monolinux
