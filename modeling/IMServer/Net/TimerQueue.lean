import IMServer.Lib.Run
import Mathlib.Data.List.Sort
import Mathlib.Data.List.Perm.Basic
import Mathlib.Logic.Function.Basic

/-!
# `muduo::net::TimerQueue`

Timers are objects that are named by raw pointers: in the set `timers_`, ordered by the time they
expire, in the set `activeTimers_`, in the vector `handleRead` works on, and in functors that wait in
the loop. Addresses may be used again, which is why a `TimerId` also has a sequence number. Times are
microseconds; whatever else happens between two callbacks of `handleRead` is a step of its own.
-/

namespace IMServer.Net

inductive TimerFault
  | assertion
  | useAfterFree
deriving Repr, DecidableEq

structure Timer where
  expiration : Int
  /-- what `addTime` makes of `interval_`, if `repeat_` -/
  interval : Option Nat
  sequence : Nat
deriving Repr, DecidableEq

/-- `Timestamp::invalid()` is 0. -/
def Timer.restart (timer : Timer) (now : Int) : Timer :=
  match timer.interval with
  | some interval => { timer with expiration := now + interval }
  | none => { timer with expiration := 0 }

structure TimerId where
  timer : Nat
  sequence : Nat
deriving Repr, DecidableEq

abbrev TimerEntry : Type := Int × Nat

/-- The order of `std::pair<Timestamp, Timer*>`. -/
def TimerEntry.le (e e' : TimerEntry) : Prop := e.1 < e'.1 ∨ e.1 = e'.1 ∧ e.2 ≤ e'.2

instance : DecidableRel TimerEntry.le := fun _ _ => inferInstanceAs (Decidable (_ ∨ _))

def TimerEntry.due (now : Int) (e : TimerEntry) : Bool := decide (e.1 ≤ now)

/-- What `timerfd_settime` was called with, and when. -/
structure Alarm where
  expiration : Int
  set : Int
deriving Repr, DecidableEq

/-- `howMuchTimeFromNow` -/
def Alarm.delay (a : Alarm) : Int := if a.expiration - a.set < 100 then 100 else a.expiration - a.set

/-- The variables of `handleRead`, and the entries whose callbacks are still to be called. -/
structure Handling where
  now : Int
  expired : List TimerEntry
  todo : List TimerEntry

/-- One callback that was called. -/
structure Ran where
  timer : Timer
  /-- what `handleRead` read from the clock before it called the first -/
  now : Int
deriving Repr, DecidableEq

inductive TimerFunctor
  | addTimerInLoop (timer : Nat)
  | cancelInLoop (timerId : TimerId)
deriving Repr, DecidableEq

structure TimerQueue where
  /-- the timers that are not deleted, by their addresses -/
  heap : Nat → Option Timer := fun _ => none
  numCreated : Nat := 0
  timers : List TimerEntry := []
  activeTimers : List TimerId := []
  callingExpiredTimers : Bool := false
  cancelingTimers : List TimerId := []
  handling : Option Handling := none
  /-- the functors of the queue that wait in the loop -/
  pendingFunctors : List TimerFunctor := []
  /-- `addTimer` of other threads that have queued their functor and not returned yet -/
  returning : List TimerId := []
  alarm : Option Alarm := none
  /-- the timerfd can be read -/
  readable : Bool := false
  /-- what `addTimer` returned or is going to return -/
  created : List TimerId := []
  ran : List Ran := []

namespace TimerQueue

def deref (q : TimerQueue) (timer : Nat) : Except TimerFault Timer :=
  match q.heap timer with
  | some t => .ok t
  | none => .error .useAfterFree

def store (q : TimerQueue) (timer : Nat) (t : Option Timer) : TimerQueue :=
  { q with heap := Function.update q.heap timer t }

def resetTimerfd (q : TimerQueue) (expiration clock : Int) : TimerQueue :=
  { q with alarm := some ⟨expiration, clock⟩, readable := false }

def check (q : TimerQueue) : Except TimerFault Unit :=
  if q.timers.length = q.activeTimers.length then .ok () else .error .assertion

/-- Into both sets. -/
def put (q : TimerQueue) (timer : Nat) (t : Timer) : TimerQueue :=
  { q with
    timers := q.timers.orderedInsert TimerEntry.le (t.expiration, timer)
    activeTimers := ⟨timer, t.sequence⟩ :: q.activeTimers }

def insert (q : TimerQueue) (timer : Nat) : Except TimerFault (Bool × TimerQueue) := do
  q.check
  let t ← q.deref timer
  let earliestChanged := q.timers.head?.all fun it => decide (t.expiration < it.1)
  let entry : TimerEntry := (t.expiration, timer)
  if entry ∈ q.timers then .error .assertion
  else if ⟨timer, t.sequence⟩ ∈ q.activeTimers then .error .assertion
  else
    (q.put timer t).check
    return (earliestChanged, q.put timer t)

def addTimerInLoop (q : TimerQueue) (timer : Nat) (clock : Int) : Except TimerFault TimerQueue := do
  let (earliestChanged, q) ← q.insert timer
  if earliestChanged then return q.resetTimerfd (← q.deref timer).expiration clock else return q

/-- Out of both sets, and deleted. -/
def remove (q : TimerQueue) (timerId : TimerId) (t : Timer) : TimerQueue :=
  { q.store timerId.timer none with
    timers := q.timers.erase (t.expiration, timerId.timer)
    activeTimers := q.activeTimers.erase timerId }

def cancelInLoop (q : TimerQueue) (timerId : TimerId) : Except TimerFault TimerQueue := do
  q.check
  if timerId ∈ q.activeTimers then
    let t ← q.deref timerId.timer
    let entry : TimerEntry := (t.expiration, timerId.timer)
    if entry ∈ q.timers then
      (q.remove timerId t).check
      return q.remove timerId t
    else .error .assertion
  else if q.callingExpiredTimers then return { q with cancelingTimers := timerId :: q.cancelingTimers }
  else return q

/-- The loop of `getExpired`. -/
def eraseActive (q : TimerQueue) : List TimerEntry → Except TimerFault TimerQueue
  | [] => .ok q
  | it :: expired => do
    let t ← q.deref it.2
    if ⟨it.2, t.sequence⟩ ∈ q.activeTimers then
      eraseActive { q with activeTimers := q.activeTimers.erase ⟨it.2, t.sequence⟩ } expired
    else .error .assertion

/-- The sentry stands behind all entries that expire at `now`. -/
def getExpired (q : TimerQueue) (now : Int) : Except TimerFault (List TimerEntry × TimerQueue) := do
  q.check
  let expired := q.timers.takeWhile (TimerEntry.due now)
  let q ← { q with timers := q.timers.dropWhile (TimerEntry.due now) }.eraseActive expired
  q.check
  return (expired, q)

/-- `handleRead` up to the callbacks -/
def beginRead (q : TimerQueue) (now : Int) : Except TimerFault TimerQueue := do
  let (expired, q) ← { q with readable := false }.getExpired now
  return { q with
    callingExpiredTimers := true
    cancelingTimers := []
    handling := some ⟨now, expired, expired⟩ }

/-- The loop of `reset`. -/
def restartExpired (q : TimerQueue) (now : Int) : List TimerEntry → Except TimerFault TimerQueue
  | [] => .ok q
  | it :: expired => do
    let t ← q.deref it.2
    if t.interval.isSome ∧ ⟨it.2, t.sequence⟩ ∉ q.cancelingTimers then
      let (_, q) ← (q.store it.2 (some (t.restart now))).insert it.2
      restartExpired q now expired
    else restartExpired (q.store it.2 none) now expired

def reset (q : TimerQueue) (expired : List TimerEntry) (now clock : Int) : Except TimerFault TimerQueue := do
  let q ← q.restartExpired now expired
  match q.timers.head? with
  | none => return q
  | some it =>
    let nextExpire := (← q.deref it.2).expiration
    if 0 < nextExpire then return q.resetTimerfd nextExpire clock else return q

/-- `new Timer` at a free address -/
def newTimer (q : TimerQueue) (timer : Nat) (expiration : Int) (interval : Option Nat) : TimerQueue :=
  { q.store timer (some ⟨expiration, interval, q.numCreated + 1⟩) with
    numCreated := q.numCreated + 1
    created := ⟨timer, q.numCreated + 1⟩ :: q.created }

inductive Op
  /-- `addTimer` in the thread of the loop -/
  | addTimer (timer : Nat) (expiration : Int) (interval : Option Nat) (clock : Int)
  | addTimerElsewhere (timer : Nat) (expiration : Int) (interval : Option Nat)
  /-- `return TimerId(timer, timer->sequence())` in another thread -/
  | returnElsewhere (timerId : TimerId)
  | cancel (timerId : TimerId)
  | cancelElsewhere (timerId : TimerId)
  /-- the next functor that waits -/
  | functor (clock : Int)
  /-- the kernel lets the alarm go off -/
  | alarm
  | beginRead (now : Int)
  | callback
  | endRead (clock : Int)

/-- What cannot happen in a state leaves it as it is. -/
def step (q : TimerQueue) : Op → Except TimerFault TimerQueue
  | .addTimer timer expiration interval clock =>
    if (q.heap timer).isSome then .ok q else (q.newTimer timer expiration interval).addTimerInLoop timer clock
  | .addTimerElsewhere timer expiration interval =>
    if (q.heap timer).isSome then .ok q
    else .ok { q.newTimer timer expiration interval with
      pendingFunctors := q.pendingFunctors ++ [.addTimerInLoop timer]
      returning := ⟨timer, q.numCreated + 1⟩ :: q.returning }
  | .returnElsewhere timerId =>
    if timerId ∈ q.returning then
      if (q.heap timerId.timer).map Timer.sequence = some timerId.sequence then
        .ok { q with returning := q.returning.erase timerId }
      else .error .useAfterFree
    else .ok q
  | .cancel timerId => q.cancelInLoop timerId
  | .cancelElsewhere timerId => .ok { q with pendingFunctors := q.pendingFunctors ++ [.cancelInLoop timerId] }
  | .functor clock =>
    match q.pendingFunctors with
    | [] => .ok q
    | .addTimerInLoop timer :: functors => { q with pendingFunctors := functors }.addTimerInLoop timer clock
    | .cancelInLoop timerId :: functors => { q with pendingFunctors := functors }.cancelInLoop timerId
  | .alarm => .ok (if q.alarm.isSome then { q with alarm := none, readable := true } else q)
  | .beginRead now => if q.handling.isSome then .ok q else q.beginRead now
  | .callback =>
    match q.handling with
    | some ⟨now, expired, it :: todo⟩ => do
      let t ← q.deref it.2
      return { q with handling := some ⟨now, expired, todo⟩, ran := q.ran ++ [⟨t, now⟩] }
    | _ => .ok q
  | .endRead clock =>
    match q.handling with
    | some ⟨now, expired, []⟩ => { q with callingExpiredTimers := false, handling := none }.reset expired now clock
    | _ => .ok q

def run (q : TimerQueue) (ops : List Op) : Except TimerFault TimerQueue := ops.foldlM step q

end TimerQueue

end IMServer.Net
