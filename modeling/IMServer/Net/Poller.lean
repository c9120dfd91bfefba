import Mathlib.Data.List.Perm.Subperm
import Mathlib.Logic.Function.Basic
import IMServer.Basic
import IMServer.Lib.AssocMap
import IMServer.Lib.Run

/-!
# The two pollers

`EPollPoller` keeps the kernel's interest list in step with the channels, `PollPoller` an array of its
own, from which a channel is removed by moving the last entry into its place. Channels are pointers
here, of any type `ι`, and `fd` is theirs for good.
-/

namespace IMServer.Net

/-- `Channel::events_`, which has `kReadEvent` and `kWriteEvent` or not. -/
structure Events where
  reading : Bool
  writing : Bool
deriving DecidableEq

def kNoneEvent : Events := ⟨false, false⟩

/-- What channels ask for: `update` ends each of `enableReading` to `disableAll`. -/
inductive PollOp (ι : Type)
  | update (c : ι) (events : Events)
  | remove (c : ι)
deriving DecidableEq

/-- What a loop does with its poller. What happened on each descriptor is `ready`; what `epoll_wait` puts
into the array then is `reported`. -/
inductive PollCall (ι : Type)
  | request (op : PollOp ι)
  | poll (ready : Nat → Nat) (reported : List (ι × Nat))

def PollCall.requests (calls : List (PollCall ι)) : List (PollOp ι) :=
  calls.filterMap fun
    | .request op => some op
    | .poll _ _ => none

variable {ι : Type} [DecidableEq ι]

/-! ### `EPollPoller` -/

inductive Index
  | kNew
  | kAdded
  | kDeleted
deriving DecidableEq

inductive EpollCtl
  | add
  | del
  | mod

def kInitEventListSize : Nat := 16

structure EPollPoller (ι : Type) where
  channels : List (Nat × ι) := []
  /-- `events_` of each channel -/
  events : ι → Events := fun _ => kNoneEvent
  /-- `index_` of each channel -/
  index : ι → Index := fun _ => .kNew
  /-- what the kernel has for `epollfd_` -/
  epoll : List (Nat × Events × ι) := []
  /-- how much the array `events_` has room for -/
  room : Nat := kInitEventListSize

namespace EPollPoller

/-- `epoll_ctl` refuses to add what is there and to change what is not; only a refused `EPOLL_CTL_DEL` is
not fatal. -/
def update (fd : ι → Nat) (p : EPollPoller ι) (operation : EpollCtl) (c : ι) : Except Fault (EPollPoller ι) :=
  match operation, AssocMap.find p.epoll (fd c) with
  | .add, none => .ok { p with epoll := AssocMap.insert (fd c) (p.events c, c) p.epoll }
  | .add, some _ => .error .assertion
  | .mod, some _ => .ok { p with epoll := AssocMap.insert (fd c) (p.events c, c) p.epoll }
  | .mod, none => .error .assertion
  | .del, _ => .ok { p with epoll := AssocMap.erase p.epoll (fd c) }

def setIndex (p : EPollPoller ι) (c : ι) (i : Index) : EPollPoller ι := { p with index := Function.update p.index c i }

def updateChannel (fd : ι → Nat) (p : EPollPoller ι) (c : ι) : Except Fault (EPollPoller ι) :=
  match p.index c with
  | .kNew =>
    if AssocMap.find p.channels (fd c) = none then
      ({ p with channels := AssocMap.insert (fd c) c p.channels }.setIndex c .kAdded).update fd .add c
    else .error .assertion
  | .kDeleted =>
    if AssocMap.find p.channels (fd c) = some c then (p.setIndex c .kAdded).update fd .add c
    else .error .assertion
  | .kAdded =>
    if AssocMap.find p.channels (fd c) = some c then
      if p.events c = kNoneEvent then do return (← p.update fd .del c).setIndex c .kDeleted
      else p.update fd .mod c
    else .error .assertion

def removeChannel (fd : ι → Nat) (p : EPollPoller ι) (c : ι) : Except Fault (EPollPoller ι) :=
  if AssocMap.find p.channels (fd c) = some c ∧ p.events c = kNoneEvent then
    let p' := { p with channels := AssocMap.erase p.channels (fd c) }
    match p.index c with
    | .kNew => .error .assertion
    | .kAdded => do return (← p'.update fd .del c).setIndex c .kNew
    | .kDeleted => .ok (p'.setIndex c .kNew)
  else .error .assertion

def hasChannel (fd : ι → Nat) (p : EPollPoller ι) (c : ι) : Bool := AssocMap.find p.channels (fd c) = some c

def step (fd : ι → Nat) (p : EPollPoller ι) : PollOp ι → Except Fault (EPollPoller ι)
  | .update c events => { p with events := Function.update p.events c events }.updateChannel fd c
  | .remove c => p.removeChannel fd c

def run (fd : ι → Nat) (p : EPollPoller ι) (ops : List (PollOp ι)) : Except Fault (EPollPoller ι) :=
  ops.foldlM (step fd) p

/-- What there is for `epoll_wait` to report. -/
def readyList (p : EPollPoller ι) (ready : Nat → Nat) : List (ι × Nat) :=
  (p.epoll.map fun x => (x.2.2, ready x.1)).filter (0 < ·.2)

/-- Of what there is, `epoll_wait` reports as much as the array has room for, each entry once. Which of them
and in which order is up to the kernel. -/
def EpollWait (p : EPollPoller ι) (ready : Nat → Nat) (reported : List (ι × Nat)) : Prop :=
  reported.Subperm (p.readyList ready) ∧ reported.length = min (p.readyList ready).length p.room

instance (p : EPollPoller ι) (ready : Nat → Nat) : DecidablePred (p.EpollWait ready) :=
  fun _ => inferInstanceAs (Decidable (_ ∧ _))

/-- The first `numEvents` entries of the array are `events`. -/
def fillActiveChannels (fd : ι → Nat) (p : EPollPoller ι) (events : List (ι × Nat)) : Except Fault (List (ι × Nat)) :=
  if events.length ≤ p.room then
    events.mapM fun x => if AssocMap.find p.channels (fd x.1) = some x.1 then .ok x else .error .assertion
  else .error .assertion

/-- The active channels with their `revents_`. An array that was full is made twice as large for the next
time. -/
def poll (fd : ι → Nat) (p : EPollPoller ι) (reported : List (ι × Nat)) :
    Except Fault (List (ι × Nat) × EPollPoller ι) :=
  if 0 < reported.length then do
    let activeChannels ← p.fillActiveChannels fd reported
    return (activeChannels, if reported.length = p.room then { p with room := p.room * 2 } else p)
  else .ok ([], p)

def call (fd : ι → Nat) (p : EPollPoller ι) : PollCall ι → Except Fault (EPollPoller ι)
  | .request op => p.step fd op
  | .poll _ reported => do return (← p.poll fd reported).2

def calls (fd : ι → Nat) (p : EPollPoller ι) (cs : List (PollCall ι)) : Except Fault (EPollPoller ι) :=
  cs.foldlM (call fd) p

/-- In these calls `epoll_wait` does what it should. -/
def KernelReports (fd : ι → Nat) : EPollPoller ι → List (PollCall ι) → Prop
  | _, [] => True
  | p, .request op :: cs => ∀ p', p.step fd op = .ok p' → KernelReports fd p' cs
  | p, .poll ready reported :: cs =>
    p.EpollWait ready reported ∧ ∀ l p', p.poll fd reported = .ok (l, p') → KernelReports fd p' cs

instance KernelReports.decidable (fd : ι → Nat) :
    ∀ (p : EPollPoller ι) (cs : List (PollCall ι)), Decidable (KernelReports fd p cs)
  | _, [] => isTrue trivial
  | p, .request op :: cs =>
    match h : p.step fd op with
    | .ok p' =>
      have := KernelReports.decidable fd p' cs
      decidable_of_iff (KernelReports fd p' cs) (by simp [KernelReports, h])
    | .error _ => isTrue (by simp [KernelReports, h])
  | p, .poll ready reported :: cs =>
    match h : p.poll fd reported with
    | .ok (_, p') =>
      have := KernelReports.decidable fd p' cs
      decidable_of_iff (p.EpollWait ready reported ∧ KernelReports fd p' cs) (by simp [KernelReports, h])
    | .error _ => decidable_of_iff (p.EpollWait ready reported) (by simp [KernelReports, h])

/-- The kernel waits for `events` on the descriptor `f`. -/
def Watches (p : EPollPoller ι) (f : Nat) (events : Events) : Prop := ∃ c, AssocMap.find p.epoll f = some (events, c)

end EPollPoller

/-! ### `PollPoller` -/

structure PollPoller (ι : Type) where
  channels : List (Nat × ι) := []
  events : ι → Events := fun _ => kNoneEvent
  index : ι → Int := fun _ => -1
  /-- `fd` and `events` of each `struct pollfd` -/
  pollfds : List (Int × Events) := []

namespace PollPoller

/-- A descriptor the kernel ignores. -/
def muted (f : Nat) : Int := -f - 1

def setIndex (p : PollPoller ι) (c : ι) (i : Int) : PollPoller ι := { p with index := Function.update p.index c i }

def updateChannel (fd : ι → Nat) (p : PollPoller ι) (c : ι) : Except Fault (PollPoller ι) :=
  if p.index c < 0 then
    if AssocMap.find p.channels (fd c) = none then
      .ok ({ p with
        pollfds := p.pollfds ++ [((fd c : Int), p.events c)]
        channels := AssocMap.insert (fd c) c p.channels }.setIndex c p.pollfds.length)
    else .error .assertion
  else if AssocMap.find p.channels (fd c) = some c then
    match p.pollfds[(p.index c).toNat]? with
    | some pfd =>
      if pfd.1 = fd c ∨ pfd.1 = muted (fd c) then
        let f : Int := if p.events c = kNoneEvent then muted (fd c) else fd c
        .ok { p with pollfds := p.pollfds.set (p.index c).toNat (f, p.events c) }
      else .error .assertion
    | none => .error .assertion
  else .error .assertion

/-- The channel keeps its index, as nothing resets it. -/
def removeChannel (fd : ι → Nat) (p : PollPoller ι) (c : ι) : Except Fault (PollPoller ι) :=
  if AssocMap.find p.channels (fd c) = some c ∧ p.events c = kNoneEvent ∧ 0 ≤ p.index c then
    let idx := (p.index c).toNat
    match p.pollfds[idx]? with
    | some pfd =>
      if pfd = (muted (fd c), p.events c) then
        let channels := AssocMap.erase p.channels (fd c)
        if idx = p.pollfds.length - 1 then .ok { p with channels := channels, pollfds := p.pollfds.dropLast }
        else
          match p.pollfds.getLast? with
          | none => .error .assertion
          | some last =>
            let channelAtEnd := if last.1 < 0 then -last.1 - 1 else last.1
            let p' := { p with channels := channels, pollfds := (p.pollfds.set idx last).dropLast }
            match AssocMap.find channels channelAtEnd.toNat with
            | some c' => .ok (p'.setIndex c' idx)
            -- `operator[]` makes a null pointer
            | none => .error .nullPointer
      else .error .assertion
    | none => .error .assertion
  else .error .assertion

def hasChannel (fd : ι → Nat) (p : PollPoller ι) (c : ι) : Bool := AssocMap.find p.channels (fd c) = some c

def step (fd : ι → Nat) (p : PollPoller ι) : PollOp ι → Except Fault (PollPoller ι)
  | .update c events => { p with events := Function.update p.events c events }.updateChannel fd c
  | .remove c => p.removeChannel fd c

/-- What `::poll` finds for a descriptor when `ready` is what happened. -/
def revents (ready : Nat → Nat) (f : Int) : Nat := if f < 0 then 0 else ready f.toNat

/-- The entries as `::poll` leaves them. -/
def polled (p : PollPoller ι) (ready : Nat → Nat) : List (Int × Nat) :=
  p.pollfds.map fun pfd => (pfd.1, revents ready pfd.1)

/-- `numEvents` is how many entries are left to be found. -/
def fillActiveChannels (fd : ι → Nat) (p : PollPoller ι) : List (Int × Nat) → Nat → Except Fault (List (ι × Nat))
  | [], _ => .ok []
  | _, 0 => .ok []
  | (f, revents) :: pollfds, numEvents + 1 =>
    if 0 < revents then
      match if f < 0 then none else AssocMap.find p.channels f.toNat with
      | none => .error .assertion
      | some c =>
        if (fd c : Int) = f then do return (c, revents) :: (← p.fillActiveChannels fd pollfds numEvents)
        else .error .assertion
    else p.fillActiveChannels fd pollfds (numEvents + 1)

/-- `::poll` counts the entries on which something happened. -/
def poll (fd : ι → Nat) (p : PollPoller ι) (ready : Nat → Nat) : Except Fault (List (ι × Nat)) :=
  p.fillActiveChannels fd (p.polled ready) ((p.polled ready).countP fun x => 0 < x.2)

def call (fd : ι → Nat) (p : PollPoller ι) : PollCall ι → Except Fault (PollPoller ι)
  | .request op => p.step fd op
  | .poll ready _ => do
    let _ ← p.poll fd ready
    return p

def calls (fd : ι → Nat) (p : PollPoller ι) (cs : List (PollCall ι)) : Except Fault (PollPoller ι) :=
  cs.foldlM (call fd) p

def Watches (p : PollPoller ι) (f : Nat) (events : Events) : Prop := ((f : Int), events) ∈ p.pollfds

end PollPoller

end IMServer.Net
