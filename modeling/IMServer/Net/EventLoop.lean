import Mathlib.Data.List.Basic

/-!
# `EventLoop`

The thread of the loop goes round: it polls, handles the channels that are active and calls the pending
functors. Other threads leave functors to it. Their `queueInLoop` is two steps, the push under the mutex
and the `wakeup` after it, and the loop may be anywhere in between. A functor is only a name here, of
any type; what it does when it is called is part of the step that calls it.
-/

namespace IMServer.Net

namespace EventLoop

inductive Ready
  | wakeup
  | channel
deriving DecidableEq

/-- Where the thread of the loop is. -/
inductive Phase (F : Type)
  /-- outside `loop()` -/
  | stopped
  /-- at `while (!quit_)` -/
  | check
  | poll
  | events (active : List Ready)
  /-- in `doPendingFunctors`, before the swap -/
  | swap
  | functors (rest : List F)

end EventLoop

open EventLoop in
structure EventLoop (F : Type) where
  phase : Phase F := .stopped
  quit : Bool := false
  callingPendingFunctors : Bool := false
  iteration : Nat := 0
  pendingFunctors : List F := []
  /-- the counter of the eventfd -/
  wakeupFd : Nat := 0
  /-- the threads that have still to call `wakeup` -/
  wakers : Nat := 0
  /-- everything pushed so far -/
  queued : List F := []
  /-- everything called so far -/
  called : List F := []

namespace EventLoop
variable {F : Type} {l l' : EventLoop F}

/-- Calls in the thread of the loop. -/
inductive Act (F : Type)
  | queueInLoop (f : F)
  | quit

def push (l : EventLoop F) (f : F) : EventLoop F :=
  { l with pendingFunctors := l.pendingFunctors ++ [f], queued := l.queued ++ [f] }

def wakeup (l : EventLoop F) : EventLoop F := { l with wakeupFd := l.wakeupFd + 1 }

def act (l : EventLoop F) : Act F → EventLoop F
  | .queueInLoop f => if l.callingPendingFunctors then (l.push f).wakeup else l.push f
  | .quit => { l with quit := true }

def acts (l : EventLoop F) (as : List (Act F)) : EventLoop F := as.foldl act l

/-- `handleRead` of the wakeup channel sets the counter back. -/
def handleEvent (l : EventLoop F) (as : List (Act F)) : Ready → EventLoop F
  | .wakeup => { l with wakeupFd := 0 }
  | .channel => l.acts as

inductive Op (F : Type)
  | loop
  /-- `while (!quit_)` -/
  | check
  | pollReturns (active : List Ready)
  /-- the next active channel, whose callbacks do `as` -/
  | handleEvent (as : List (Act F))
  | doPendingFunctors
  | swap
  /-- the next functor, which does `as` -/
  | functor (as : List (Act F))
  | endFunctors
  /-- calls in the thread of the loop, outside `loop()` -/
  | outside (as : List (Act F))
  /-- the first half of `queueInLoop` in another thread -/
  | queueElsewhere (f : F)
  | quitElsewhere
  /-- the second half of either -/
  | wakeElsewhere

/-- A poll returns when something is ready; there may be more than it has room for, but the eventfd keeps it
from waiting. -/
def PollReturns (l : EventLoop F) (active : List Ready) : Prop :=
  (.wakeup ∈ active → 0 < l.wakeupFd) ∧ (0 < l.wakeupFd → active ≠ [])

instance (l : EventLoop F) : DecidablePred l.PollReturns := fun _ => inferInstanceAs (Decidable (_ ∧ _))

/-- `none` for what cannot happen there. -/
def step (l : EventLoop F) (op : Op F) : Option (EventLoop F) :=
  match op, l.phase with
  | .loop, .stopped => some { l with phase := .check, quit := false }
  | .check, .check => some { l with phase := if l.quit then .stopped else .poll }
  | .pollReturns active, .poll =>
    if l.PollReturns active then some { l with phase := .events active, iteration := l.iteration + 1 } else none
  | .handleEvent as, .events (r :: rest) => some { l.handleEvent as r with phase := .events rest }
  | .doPendingFunctors, .events [] => some { l with phase := .swap, callingPendingFunctors := true }
  | .swap, .swap => some { l with phase := .functors l.pendingFunctors, pendingFunctors := [] }
  | .functor as, .functors (f :: rest) =>
    some { l.acts as with phase := .functors rest, called := l.called ++ [f] }
  | .endFunctors, .functors [] => some { l with phase := .check, callingPendingFunctors := false }
  | .outside as, .stopped => some (l.acts as)
  | .queueElsewhere f, _ => some { l.push f with wakers := l.wakers + 1 }
  | .quitElsewhere, _ => some { l with quit := true, wakers := l.wakers + 1 }
  | .wakeElsewhere, _ => if 0 < l.wakers then some { l.wakeup with wakers := l.wakers - 1 } else none
  | _, _ => none

def run (l : EventLoop F) (ops : List (Op F)) : Option (EventLoop F) := ops.foldlM step l

/-! ### One step at a time -/

/-- All that can happen. -/
inductive Step (l : EventLoop F) : Op F → EventLoop F → Prop
  | loop (h : l.phase = .stopped) : Step l .loop { l with phase := .check, quit := false }
  | stop (h : l.phase = .check) (hquit : l.quit = true) : Step l .check { l with phase := .stopped }
  | go (h : l.phase = .check) (hquit : l.quit = false) : Step l .check { l with phase := .poll }
  | pollReturns {active : List Ready} (h : l.phase = .poll) (hactive : l.PollReturns active) :
    Step l (.pollReturns active) { l with phase := .events active, iteration := l.iteration + 1 }
  | handleEvent {as : List (Act F)} {r : Ready} {rest : List Ready} (h : l.phase = .events (r :: rest)) :
    Step l (.handleEvent as) { l.handleEvent as r with phase := .events rest }
  | doPendingFunctors (h : l.phase = .events []) :
    Step l .doPendingFunctors { l with phase := .swap, callingPendingFunctors := true }
  | swap (h : l.phase = .swap) :
    Step l .swap { l with phase := .functors l.pendingFunctors, pendingFunctors := [] }
  | functor {as : List (Act F)} {f : F} {rest : List F} (h : l.phase = .functors (f :: rest)) :
    Step l (.functor as) { l.acts as with phase := .functors rest, called := l.called ++ [f] }
  | endFunctors (h : l.phase = .functors []) :
    Step l .endFunctors { l with phase := .check, callingPendingFunctors := false }
  | outside {as : List (Act F)} (h : l.phase = .stopped) : Step l (.outside as) (l.acts as)
  | queueElsewhere {f : F} : Step l (.queueElsewhere f) { l.push f with wakers := l.wakers + 1 }
  | quitElsewhere : Step l .quitElsewhere { l with quit := true, wakers := l.wakers + 1 }
  | wakeElsewhere (h : 0 < l.wakers) : Step l .wakeElsewhere { l.wakeup with wakers := l.wakers - 1 }

theorem step_cases {op : Op F} (h : l.step op = some l') : Step l op l' := by
  unfold step at h
  split at h
  · next hp =>
    obtain rfl := Option.some.inj h
    exact .loop hp
  · next hp =>
    obtain rfl := Option.some.inj h
    split
    · next hq => exact .stop hp hq
    · next hq => exact .go hp (by simpa using hq)
  · next hp =>
    split at h
    · next ha =>
      obtain rfl := Option.some.inj h
      exact .pollReturns hp ha
    · cases h
  · next hp =>
    obtain rfl := Option.some.inj h
    exact .handleEvent hp
  · next hp =>
    obtain rfl := Option.some.inj h
    exact .doPendingFunctors hp
  · next hp =>
    obtain rfl := Option.some.inj h
    exact .swap hp
  · next hp =>
    obtain rfl := Option.some.inj h
    exact .functor hp
  · next hp =>
    obtain rfl := Option.some.inj h
    exact .endFunctors hp
  · next hp =>
    obtain rfl := Option.some.inj h
    exact .outside hp
  · obtain rfl := Option.some.inj h
    exact .queueElsewhere
  · obtain rfl := Option.some.inj h
    exact .quitElsewhere
  · split at h
    · next hw =>
      obtain rfl := Option.some.inj h
      exact .wakeElsewhere hw
    · cases h
  · cases h

/-- What calls in the thread of the loop come to: some functors are pushed, with a wakeup for each if the
loop would not look at them otherwise. -/
theorem acts_eq (l : EventLoop F) (as : List (Act F)) :
    ∃ fs q, l.acts as = { l with
      pendingFunctors := l.pendingFunctors ++ fs
      queued := l.queued ++ fs
      wakeupFd := if l.callingPendingFunctors then l.wakeupFd + fs.length else l.wakeupFd
      quit := l.quit || q } := by
  induction as generalizing l with
  | nil => exact ⟨[], false, by simp [acts]⟩
  | cons a as ih =>
    obtain ⟨fs, q, h⟩ := ih (l.act a)
    have hcons : l.acts (a :: as) = (l.act a).acts as := rfl
    cases a with
    | queueInLoop f =>
      refine ⟨f :: fs, q, ?_⟩
      rw [hcons, h, act]
      split
      · next hc => simp [push, wakeup, hc, Nat.add_assoc, Nat.add_comm 1]
      · next hc => simp [push, hc]
    | quit =>
      refine ⟨fs, true, ?_⟩
      rw [hcons, h, Bool.or_true]
      rfl

theorem acts_silent (l : EventLoop F) {as : List (Act F)} (h : ∀ f, .queueInLoop f ∉ as) :
    ∃ q, l.acts as = { l with quit := q } := by
  induction as generalizing l with
  | nil => exact ⟨l.quit, rfl⟩
  | cons a as ih =>
    cases a with
    | queueInLoop f => exact absurd (.head _) (h f)
    | quit =>
      obtain ⟨q, hq⟩ := ih (l.act .quit) fun f hf => h f (.tail _ hf)
      exact ⟨q, hq⟩

theorem handleEvent_eq (l : EventLoop F) (as : List (Act F)) (r : Ready) :
    ∃ fs q n, l.handleEvent as r = { l with
      pendingFunctors := l.pendingFunctors ++ fs
      queued := l.queued ++ fs
      wakeupFd := n
      quit := l.quit || q } := by
  cases r with
  | wakeup => exact ⟨[], false, 0, by simp [handleEvent]⟩
  | channel =>
    obtain ⟨fs, q, h⟩ := l.acts_eq as
    exact ⟨fs, q, _, h⟩

/-! ### Every functor once, in order -/

/-- The functors that are being called. -/
def Phase.rest : Phase F → List F
  | .functors rest => rest
  | _ => []

@[simp] theorem Phase.rest_functors (rest : List F) : (Phase.functors rest).rest = rest := rfl

def Ordered (l : EventLoop F) : Prop := l.called ++ l.phase.rest ++ l.pendingFunctors = l.queued

theorem Step.ordered {op : Op F} (h : Step l op l') (hl : l.Ordered) : l'.Ordered := by
  unfold Ordered at hl ⊢
  cases h with
  | loop hp => simpa [hp, Phase.rest] using hl
  | stop hp hq => simpa [hp, Phase.rest] using hl
  | go hp hq => simpa [hp, Phase.rest] using hl
  | pollReturns hp ha => simpa [hp, Phase.rest] using hl
  | handleEvent hp =>
    obtain ⟨fs, q, n, he⟩ := l.handleEvent_eq _ _
    rw [hp] at hl
    rw [he]
    simp only [← hl, Phase.rest, List.append_assoc]
  | doPendingFunctors hp => simpa [hp, Phase.rest] using hl
  | swap hp => simpa [hp, Phase.rest] using hl
  | functor hp =>
    obtain ⟨fs, q, he⟩ := l.acts_eq _
    rw [hp] at hl
    rw [he]
    simp only [← hl, Phase.rest, List.append_assoc, List.cons_append, List.nil_append]
  | endFunctors hp => simpa [hp, Phase.rest] using hl
  | outside hp =>
    obtain ⟨fs, q, he⟩ := l.acts_eq _
    rw [he]
    simp only [← hl, List.append_assoc]
  | queueElsewhere => simp [push, ← hl]
  | quitElsewhere => exact hl
  | wakeElsewhere hw => exact hl

theorem run_induction {P : EventLoop F → Prop} {ops : List (Op F)} (h : l.run ops = some l')
    (hstep : ∀ {l₁ l₂ op}, op ∈ ops → Step l₁ op l₂ → P l₁ → P l₂) (hl : P l) : P l' := by
  unfold run at h
  induction ops generalizing l with
  | nil =>
    obtain rfl := Option.some.inj h
    exact hl
  | cons op ops ih =>
    rw [List.foldlM_cons] at h
    obtain ⟨l₁, h₁, h⟩ := Option.bind_eq_some_iff.1 h
    exact ih h (fun hmem => hstep (.tail _ hmem)) (hstep (.head _) (step_cases h₁) hl)

/-! ### No sleep while there is work -/

/-- The loop will not look at the pending functors again before it polls. -/
def Phase.late : Phase F → Prop
  | .events _ => False
  | .swap => False
  | _ => True

def Phase.calling : Phase F → Bool
  | .swap => true
  | .functors _ => true
  | _ => false

/-- Somebody has written to the eventfd, or is about to. -/
def Woken (l : EventLoop F) : Prop := 0 < l.wakeupFd + l.wakers

structure Awake (l : EventLoop F) : Prop where
  calling : l.callingPendingFunctors = l.phase.calling
  pending : l.phase.late → l.pendingFunctors ≠ [] → l.Woken
  quit : l.phase = .poll → l.quit = true → l.Woken

/-- Functors the thread of the loop queues before `loop()` wake nobody. -/
def Op.Silent : Op F → Prop
  | .outside as => ∃ f, .queueInLoop f ∈ as
  | _ => False

theorem Step.awake {op : Op F} (h : Step l op l') (hop : ¬ op.Silent) (hl : l.Awake) : l'.Awake := by
  have hpending := hl.pending
  cases h with
  | loop hp =>
    rw [hp] at hpending
    exact ⟨by rw [hl.calling, hp]; rfl, hpending, fun h => (by cases h)⟩
  | stop hp hq =>
    rw [hp] at hpending
    exact ⟨by rw [hl.calling, hp]; rfl, hpending, fun h => (by cases h)⟩
  | go hp hq =>
    rw [hp] at hpending
    exact ⟨by rw [hl.calling, hp]; rfl, hpending, fun _ h => absurd h (by simp [hq])⟩
  | pollReturns hp ha => exact ⟨by rw [hl.calling, hp]; rfl, fun h => h.elim, fun h => (by cases h)⟩
  | handleEvent hp =>
    obtain ⟨fs, q, n, he⟩ := l.handleEvent_eq _ _
    rw [he]
    exact ⟨by rw [hl.calling, hp]; rfl, fun h => h.elim, fun h => (by cases h)⟩
  | doPendingFunctors hp => exact ⟨rfl, fun h => h.elim, fun h => (by cases h)⟩
  | swap hp => exact ⟨by rw [hl.calling, hp]; rfl, fun _ h => absurd rfl h, fun h => (by cases h)⟩
  | functor hp =>
    obtain ⟨fs, q, he⟩ := l.acts_eq _
    have hcalling : l.callingPendingFunctors = true := by
      rw [hl.calling, hp]
      rfl
    rw [hp] at hpending
    rw [he]
    refine ⟨hcalling, fun _ hne => ?_, fun h => (by cases h)⟩
    unfold Woken at hpending ⊢
    simp only [hcalling, if_true]
    -- a functor queued by a functor wakes the loop for the next round
    by_cases hold : l.pendingFunctors = []
    · have hfs : fs ≠ [] := by simpa [hold] using hne
      have := List.length_pos_of_ne_nil hfs
      omega
    · have := hpending trivial hold
      omega
  | endFunctors hp =>
    rw [hp] at hpending
    exact ⟨rfl, hpending, fun h => (by cases h)⟩
  | outside hp =>
    obtain ⟨q, he⟩ := l.acts_silent fun f hf => hop ⟨f, hf⟩
    rw [he]
    exact ⟨hl.calling, hpending, fun h => absurd (hp.symm.trans h) (by simp)⟩
  | queueElsewhere =>
    refine ⟨hl.calling, fun _ _ => ?_, fun _ _ => ?_⟩
    · exact Nat.add_pos_right _ (Nat.succ_pos _)
    · exact Nat.add_pos_right _ (Nat.succ_pos _)
  | quitElsewhere =>
    refine ⟨hl.calling, fun _ _ => ?_, fun _ _ => ?_⟩
    · exact Nat.add_pos_right _ (Nat.succ_pos _)
    · exact Nat.add_pos_right _ (Nat.succ_pos _)
  | wakeElsewhere hw =>
    refine ⟨hl.calling, fun _ _ => ?_, fun _ _ => ?_⟩
    · exact Nat.add_pos_left (Nat.succ_pos _) _
    · exact Nat.add_pos_left (Nat.succ_pos _) _

/-! ### Within a round -/

/-- `queue` was pushed before the poll that follows round `n`, and has been called after the functors of the
round after it. -/
structure Served (n : Nat) (queue : List F) (l : EventLoop F) : Prop where
  ordered : l.Ordered
  pushed : queue <+: l.queued
  served : l.iteration = n ∧ l.phase = .poll ∨
    n < l.iteration ∧ (l.phase.late → queue <+: l.called ++ l.phase.rest)

namespace Served
variable {n : Nat} {queue : List F}

/-- Other threads push, and the loop stays where it is. -/
theorem same (hl : Served n queue l) (hord : l'.Ordered) (hqueued : l.queued <+: l'.queued)
    (hp : l'.phase = l.phase) (hi : l'.iteration = l.iteration) (hc : l'.called = l.called) : Served n queue l' := by
  refine ⟨hord, hl.pushed.trans hqueued, ?_⟩
  rw [hp, hi, hc]
  exact hl.served

/-- The loop goes on within a round. -/
theorem move (hl : Served n queue l) (hord : l'.Ordered) (hqueued : l.queued <+: l'.queued)
    (hp : l.phase ≠ .poll) (hi : l'.iteration = l.iteration)
    (hlate : l'.phase.late → l.phase.late ∧ l'.called ++ l'.phase.rest = l.called ++ l.phase.rest ∨
      queue <+: l'.called ++ l'.phase.rest) : Served n queue l' := by
  refine ⟨hord, hl.pushed.trans hqueued, .inr ?_⟩
  rcases hl.served with ⟨-, hpoll⟩ | ⟨hlt, hserved⟩
  · exact absurd hpoll hp
  · refine ⟨by omega, fun hl' => ?_⟩
    rcases hlate hl' with ⟨hbefore, heq⟩ | hdone
    · rw [heq]
      exact hserved hbefore
    · exact hdone

end Served

theorem Step.served {op : Op F} {n : Nat} {queue : List F} (h : Step l op l') (hl : Served n queue l) :
    Served n queue l' := by
  have hord := h.ordered hl.ordered
  cases h with
  | loop hp =>
    exact hl.move hord List.prefix_rfl (by simp [hp]) rfl fun _ => .inl ⟨by simp [hp, Phase.late], by simp [hp, Phase.rest]⟩
  | stop hp hq =>
    exact hl.move hord List.prefix_rfl (by simp [hp]) rfl fun _ => .inl ⟨by simp [hp, Phase.late], by simp [hp, Phase.rest]⟩
  | go hp hq =>
    exact hl.move hord List.prefix_rfl (by simp [hp]) rfl fun _ => .inl ⟨by simp [hp, Phase.late], by simp [hp, Phase.rest]⟩
  | pollReturns hp ha =>
    refine ⟨hord, hl.pushed, .inr ⟨?_, fun h => h.elim⟩⟩
    rcases hl.served with ⟨hi, -⟩ | ⟨hlt, -⟩
    · exact Nat.lt_succ_of_le (Nat.le_of_eq hi.symm)
    · exact Nat.lt_succ_of_lt hlt
  | handleEvent hp =>
    obtain ⟨fs, q, k, he⟩ := l.handleEvent_eq _ _
    rw [he] at hord ⊢
    exact hl.move hord (List.prefix_append _ _) (by simp [hp]) rfl fun h => h.elim
  | doPendingFunctors hp => exact hl.move hord List.prefix_rfl (by simp [hp]) rfl fun h => h.elim
  | swap hp =>
    refine hl.move hord List.prefix_rfl (by simp [hp]) rfl fun _ => .inr ?_
    have hall : l.called ++ l.pendingFunctors ++ [] = l.queued := hord
    rw [List.append_nil] at hall
    exact hall ▸ hl.pushed
  | functor hp =>
    obtain ⟨fs, q, he⟩ := l.acts_eq _
    rw [he] at hord ⊢
    exact hl.move hord (List.prefix_append _ _) (by simp [hp]) rfl fun _ =>
      .inl ⟨by simp [hp, Phase.late], by simp [hp, Phase.rest]⟩
  | endFunctors hp =>
    exact hl.move hord List.prefix_rfl (by simp [hp]) rfl fun _ => .inl ⟨by simp [hp, Phase.late], by simp [hp, Phase.rest]⟩
  | outside hp =>
    obtain ⟨fs, q, he⟩ := l.acts_eq _
    rw [he] at hord ⊢
    exact hl.same hord (List.prefix_append _ _) rfl rfl rfl
  | queueElsewhere => exact hl.same hord (List.prefix_append _ _) rfl rfl rfl
  | quitElsewhere => exact hl.same hord List.prefix_rfl rfl rfl rfl
  | wakeElsewhere hw => exact hl.same hord List.prefix_rfl rfl rfl rfl

/-! ### Leaving the loop -/

/-- The loop has been told to quit in round `n`. -/
structure Leaving (n : Nat) (l : EventLoop F) : Prop where
  quit : l.quit = true
  rounds : l.iteration = n ∨ l.iteration = n + 1 ∧ l.phase ≠ .poll

theorem Step.leaving {op : Op F} {n : Nat} (h : Step l op l') (hop : op ≠ .loop) (hl : Leaving n l) :
    Leaving n l' := by
  obtain ⟨hquit, hrounds⟩ := hl
  cases h with
  | loop hp => exact absurd rfl hop
  | stop hp hq => exact ⟨hquit, hrounds.imp_right fun h => ⟨h.1, by simp⟩⟩
  | go hp hq => simp [hquit] at hq
  | pollReturns hp ha =>
    rcases hrounds with hi | ⟨-, hpoll⟩
    · exact ⟨hquit, .inr ⟨congrArg (· + 1) hi, by simp⟩⟩
    · exact absurd hp hpoll
  | handleEvent hp =>
    obtain ⟨fs, q, k, he⟩ := l.handleEvent_eq _ _
    rw [he]
    exact ⟨by simp [hquit], hrounds.imp_right fun h => ⟨h.1, by simp⟩⟩
  | doPendingFunctors hp => exact ⟨hquit, hrounds.imp_right fun h => ⟨h.1, by simp⟩⟩
  | swap hp => exact ⟨hquit, hrounds.imp_right fun h => ⟨h.1, by simp⟩⟩
  | functor hp =>
    obtain ⟨fs, q, he⟩ := l.acts_eq _
    rw [he]
    exact ⟨by simp [hquit], hrounds.imp_right fun h => ⟨h.1, by simp⟩⟩
  | endFunctors hp => exact ⟨hquit, hrounds.imp_right fun h => ⟨h.1, by simp⟩⟩
  | outside hp =>
    obtain ⟨fs, q, he⟩ := l.acts_eq _
    rw [he]
    exact ⟨by simp [hquit], hrounds⟩
  | queueElsewhere => exact ⟨hquit, hrounds⟩
  | quitElsewhere => exact ⟨rfl, hrounds⟩
  | wakeElsewhere hw => exact ⟨hquit, hrounds⟩

end EventLoop

open EventLoop

/-- However the threads interleave, what was queued has been called, is being called or is pending, in the
order in which it was queued, and what was there when the loop polled has been called when it polls
again. -/
theorem functors_are_called_once_and_soon {F : Type} (ops₀ ops : List (Op F)) (l l' : EventLoop F)
    (h₀ : ({} : EventLoop F).run ops₀ = some l) (h : l.run ops = some l') :
    l'.called ++ l'.phase.rest ++ l'.pendingFunctors = l'.queued ∧
      (l.phase = .poll → l.iteration < l'.iteration → l'.phase = .poll → l.queued <+: l'.called) := by
  have hord : l.Ordered := run_induction h₀ (fun _ hstep hl => hstep.ordered hl) rfl
  refine ⟨run_induction h (P := Ordered) (fun _ hstep hl => hstep.ordered hl) hord, fun hpoll hlt hpoll' => ?_⟩
  have hserved : Served l.iteration l.queued l' :=
    run_induction h (fun _ hstep hl => hstep.served hl) ⟨hord, List.prefix_rfl, .inl ⟨rfl, hpoll⟩⟩
  rcases hserved.served with ⟨hi, -⟩ | ⟨-, hdone⟩
  · omega
  · rw [hpoll'] at hdone
    simpa [Phase.rest] using hdone trivial

/-- A functor that another thread has queued while the loop polls, and one queued by it. -/
theorem functors_are_called_once_and_soon_two :
    ∃ l l', ({} : EventLoop Nat).run [.loop, .check, .queueElsewhere 1] = some l ∧
      l.run [.wakeElsewhere, .pollReturns [.wakeup], .handleEvent [], .doPendingFunctors, .swap,
        .functor [.queueInLoop 2], .endFunctors, .check] = some l' ∧
      l'.called ++ l'.phase.rest ++ l'.pendingFunctors = [1, 2] ∧ [1] <+: l'.called := by
  have h := functors_are_called_once_and_soon (F := Nat) [.loop, .check, .queueElsewhere 1] [.wakeElsewhere,
    .pollReturns [.wakeup], .handleEvent [], .doPendingFunctors, .swap, .functor [.queueInLoop 2], .endFunctors,
    .check] _ _ rfl rfl
  exact ⟨_, _, rfl, rfl, h.1, h.2 rfl Nat.one_pos rfl⟩

-- what the thread of the loop queues before `loop()` does not keep the first poll from waiting
example : (({} : EventLoop Nat).run [.outside [.queueInLoop 1], .loop, .check]).map
    (fun l => (l.pendingFunctors, l.wakeupFd)) = some ([1], 0) := rfl

end IMServer.Net
