import IMServer.Net.TimerOwners

/-!
# The timer queue is safe

What each step does to a state in which every timer has its owner (`Effect`), and that it leaves such a
state (`Inv`). The steps of all threads may come in any order: no assertion fails and no timer is used
after it was deleted, but for the sequence number that `addTimer` reads when its functor has long been
called (`timers_are_safe`).
-/

namespace IMServer.Net

namespace TimerQueue

/-! ### What a step does -/

def pendingAdds (q : TimerQueue) : List Nat :=
  q.pendingFunctors.filterMap fun
    | .addTimerInLoop timer => some timer
    | .cancelInLoop _ => none

/-- The timers `handleRead` works on. -/
def batch (q : TimerQueue) : List TimerEntry :=
  match q.handling with
  | none => []
  | some h => h.expired

/-- Where the timers are that `timers_` does not have. -/
def others (q : TimerQueue) : List Nat := q.batch.map Prod.snd ++ q.pendingAdds

/-- All that can happen in a state in which every timer has its owner. -/
inductive Effect (q : TimerQueue) : Op → TimerQueue → Prop
  | idle (op : Op) : Effect q op q
  | addTimer {p : Nat} (hfree : q.heap p = none) (expiration : Int) (interval : Option Nat) (clock : Int) :
      Effect q (.addTimer p expiration interval clock)
        ((q.newTimer p expiration interval).added p ⟨expiration, interval, q.numCreated + 1⟩ clock)
  | addElsewhere {p : Nat} (hfree : q.heap p = none) (expiration : Int) (interval : Option Nat) :
      Effect q (.addTimerElsewhere p expiration interval) { q.newTimer p expiration interval with
        pendingFunctors := q.pendingFunctors ++ [.addTimerInLoop p]
        returning := ⟨p, q.numCreated + 1⟩ :: q.returning }
  | returned (id : TimerId) : Effect q (.returnElsewhere id) { q with returning := q.returning.erase id }
  | canceled {q' : TimerQueue} {id : TimerId} (h : Canceled q id q') : Effect q (.cancel id) q'
  | cancelElsewhere (id : TimerId) :
      Effect q (.cancelElsewhere id) { q with pendingFunctors := q.pendingFunctors ++ [.cancelInLoop id] }
  | addFunctor {p : Nat} {functors : List TimerFunctor} (hf : q.pendingFunctors = .addTimerInLoop p :: functors)
      {t : Timer} (ht : q.heap p = some t) (clock : Int) :
      Effect q (.functor clock) ({ q with pendingFunctors := functors }.added p t clock)
  | cancelFunctor {q' : TimerQueue} {id : TimerId} {functors : List TimerFunctor}
      (hf : q.pendingFunctors = .cancelInLoop id :: functors)
      (h : Canceled { q with pendingFunctors := functors } id q') (clock : Int) : Effect q (.functor clock) q'
  | alarm {a : Alarm} (ha : q.alarm = some a) : Effect q .alarm { q with alarm := none, readable := true }
  | beginRead {now : Int} (hidle : q.handling = none) {active : List TimerId}
      (hactive : active.Perm ((q.timers.dropWhile (TimerEntry.due now)).map q.idOf)) :
      Effect q (.beginRead now) { q with
        timers := q.timers.dropWhile (TimerEntry.due now)
        activeTimers := active
        readable := false
        callingExpiredTimers := true
        cancelingTimers := []
        handling := some ⟨now, q.timers.takeWhile (TimerEntry.due now), q.timers.takeWhile (TimerEntry.due now)⟩ }
  | callback {now : Int} {expired todo : List TimerEntry} {it : TimerEntry}
      (hh : q.handling = some ⟨now, expired, it :: todo⟩) {t : Timer} (ht : q.heap it.2 = some t) :
      Effect q .callback { q with handling := some ⟨now, expired, todo⟩, ran := q.ran ++ [⟨t, now⟩] }
  | endRead {now : Int} {expired : List TimerEntry} (hh : q.handling = some ⟨now, expired, []⟩) {q₁ q' : TimerQueue}
      (hsame : { q with callingExpiredTimers := false, handling := none }.SameBut q₁) (hholds : q₁.Holds q.pendingAdds)
      (hheap : ∀ p, q₁.heap p = if p ∈ expired.map Prod.snd then q.kept now p else q.heap p) (clock : Int)
      (hq' : q' = q₁ ∧ (∀ it ∈ q₁.timers.head?, it.1 ≤ 0) ∨
        ∃ it ∈ q₁.timers.head?, 0 < it.1 ∧ q' = q₁.resetTimerfd it.1 clock) : Effect q (.endRead clock) q'

/-! ### Every step has its effect -/

/-- What holds between any two steps if nothing is `loose`, that is, in the hands of an operation. -/
structure Inv (q : TimerQueue) (loose : List Nat) : Prop where
  holds : q.Holds (loose ++ q.others)
  expired : ∀ e ∈ q.batch, (q.heap e.2).map Timer.expiration = some e.1
  calling : q.callingExpiredTimers = q.handling.isSome
  handling : ∀ h ∈ q.handling, h.todo <:+ h.expired ∧ ∀ e ∈ h.expired, e.1 ≤ h.now
  live : ∀ p t, q.heap p = some t → ⟨p, t.sequence⟩ ∈ q.created
  created : (q.created.map TimerId.sequence).Nodup ∧ ∀ id ∈ q.created, id.sequence ≤ q.numCreated

/-- A timer is gone before `addTimer` of another thread could read its sequence number. -/
def Op.Late (q : TimerQueue) : Op → Prop
  | .returnElsewhere id => id ∈ q.returning ∧ (q.heap id.timer).map Timer.sequence ≠ some id.sequence
  | _ => False

theorem step_effect {q : TimerQueue} {op : Op} (h : q.Inv []) (hlate : ¬ op.Late q) :
    ∃ q', q.step op = .ok q' ∧ q.Effect op q' := by
  cases op with
  | addTimer p expiration interval clock =>
    rw [step]
    cases hp : q.heap p with
    | some t => exact ⟨q, rfl, .idle _⟩
    | none =>
      have hnew := h.holds.newTimer hp expiration interval
      exact ⟨_, hnew.addTimerInLoop (heap_store ..) clock, .addTimer hp expiration interval clock⟩
  | addTimerElsewhere p expiration interval =>
    rw [step]
    cases hp : q.heap p with
    | some t => exact ⟨q, rfl, .idle _⟩
    | none => exact ⟨_, rfl, .addElsewhere hp expiration interval⟩
  | returnElsewhere id =>
    rw [step]
    split
    · rename_i hid
      rw [if_pos (not_not.1 fun hseq => hlate ⟨hid, hseq⟩)]
      exact ⟨_, rfl, .returned id⟩
    · exact ⟨q, rfl, .idle _⟩
  | cancel id =>
    obtain ⟨q', hrun, hc⟩ := h.holds.canceled id
    exact ⟨q', hrun, .canceled hc⟩
  | cancelElsewhere id => exact ⟨_, rfl, .cancelElsewhere id⟩
  | functor clock =>
    rw [step]
    cases hf : q.pendingFunctors with
    | nil => exact ⟨q, rfl, .idle _⟩
    | cons f functors =>
      cases f with
      | addTimerInLoop p =>
        have hothers : q.others = q.batch.map Prod.snd ++ p :: { q with pendingFunctors := functors }.pendingAdds := by
          rw [others, pendingAdds, pendingAdds, hf]
          rfl
        have hnext : { q with pendingFunctors := functors }.Holds
            (p :: (q.batch.map Prod.snd ++ { q with pendingFunctors := functors }.pendingAdds)) :=
          ((hothers ▸ h.holds).perm List.perm_middle).congr rfl rfl rfl
        obtain ⟨t, ht⟩ := hnext.get
        exact ⟨_, hnext.addTimerInLoop ht clock, .addFunctor hf ht clock⟩
      | cancelInLoop id =>
        have hnext : { q with pendingFunctors := functors }.Holds q.others := h.holds.congr rfl rfl rfl
        obtain ⟨q', hrun, hc⟩ := hnext.canceled id
        exact ⟨q', hrun, .cancelFunctor hf hc clock⟩
  | alarm =>
    rw [step]
    cases ha : q.alarm with
    | none => exact ⟨q, rfl, .idle _⟩
    | some a => exact ⟨_, rfl, .alarm ha⟩
  | beginRead now =>
    rw [step]
    cases hh : q.handling with
    | some _ => exact ⟨q, rfl, .idle _⟩
    | none =>
      have hread : { q with readable := false }.Holds q.others := h.holds.congr rfl rfl rfl
      obtain ⟨active, hrun, hactive⟩ := hread.getExpired now
      refine ⟨_, ?_, .beginRead hh hactive⟩
      dsimp only [Option.isSome_none]
      rw [if_neg Bool.false_ne_true, TimerQueue.beginRead, hrun]
      rfl
  | callback =>
    rw [step]
    rcases hh : q.handling with _ | ⟨now, expired, _ | ⟨it, todo⟩⟩
    · exact ⟨q, rfl, .idle _⟩
    · exact ⟨q, rfl, .idle _⟩
    · have hsuffix := (h.handling _ hh).1
      have hit : it ∈ q.batch := by
        rw [batch, hh]
        exact hsuffix.subset (List.mem_cons_self ..)
      obtain ⟨t, ht, -⟩ := Option.map_eq_some_iff.1 (h.expired it hit)
      refine ⟨_, ?_, .callback hh ht⟩
      dsimp only
      rw [deref, ht]
      rfl
  | endRead clock =>
    rw [step]
    rcases hh : q.handling with _ | ⟨now, expired, _ | ⟨it, todo⟩⟩
    · exact ⟨q, rfl, .idle _⟩
    · have hothers : q.others = expired.map Prod.snd ++ q.pendingAdds := by
        rw [others, batch, hh]
      have hnext : { q with callingExpiredTimers := false, handling := none }.Holds
          (expired.map Prod.snd ++ q.pendingAdds) := (hothers ▸ h.holds).congr rfl rfl rfl
      obtain ⟨q₁, q', hrun, hholds, hsame, hheap, hq'⟩ := hnext.reset now clock
      exact ⟨q', hrun, .endRead hh hsame hholds hheap clock hq'⟩
    · exact ⟨q, rfl, .idle _⟩

/-! ### Every effect keeps the invariant -/

namespace Inv

variable {q : TimerQueue} {loose : List Nat} {p : Nat} {t : Timer}

theorem heap_ne_none (h : q.Inv loose) (hp : p ∈ loose ++ q.others) : q.heap p ≠ none := by
  intro hnone
  have hsome := (h.holds.live p).2 (List.mem_append_right _ hp)
  rw [hnone] at hsome
  cases hsome

theorem mem_others_of_batch {e : TimerEntry} (he : e ∈ q.batch) : e.2 ∈ q.others :=
  List.mem_append_left _ (List.mem_map_of_mem he)

theorem mem_others_of_pending (hp : p ∈ q.pendingAdds) : p ∈ q.others := List.mem_append_right _ hp

theorem newTimer (h : q.Inv []) (hfree : q.heap p = none) (expiration : Int) (interval : Option Nat) :
    (q.newTimer p expiration interval).Inv [p] where
  holds := h.holds.newTimer hfree expiration interval
  expired := by
    intro e he
    have hne : e.2 ≠ p := by
      rintro rfl
      exact h.heap_ne_none (mem_others_of_batch he) hfree
    exact (congrArg _ (heap_store_of_ne hne _)).trans (h.expired e he)
  calling := h.calling
  handling := h.handling
  live := by
    intro p' t' ht'
    by_cases hp' : p' = p
    · subst hp'
      cases (heap_store ..).symm.trans ht'
      exact List.mem_cons_self ..
    · exact List.mem_cons_of_mem _ (h.live p' t' ((heap_store_of_ne hp' _).symm.trans ht'))
  created := by
    obtain ⟨hnodup, hle⟩ := h.created
    constructor
    · refine List.nodup_cons.2 ⟨fun hmem => ?_, hnodup⟩
      obtain ⟨id, hid, heq⟩ := List.mem_map.1 hmem
      have := hle id hid
      dsimp only at heq
      omega
    · intro id hid
      rcases List.mem_cons.1 hid with rfl | hid
      · exact le_rfl
      · exact (hle id hid).trans (Nat.le_succ _)

theorem addElsewhere (h : q.Inv [p]) (returning : List TimerId) :
    { q with
      pendingFunctors := q.pendingFunctors ++ [TimerFunctor.addTimerInLoop p]
      returning := returning }.Inv [] := by
  refine { h with holds := (h.holds.perm ?_).congr rfl rfl rfl }
  show ([p] ++ q.others).Perm (q.batch.map Prod.snd ++ pendingAdds _)
  rw [pendingAdds, List.filterMap_append, ← List.append_assoc]
  exact (List.perm_append_singleton p q.others).symm

theorem takeFunctor (h : q.Inv []) {functors : List TimerFunctor}
    (hf : q.pendingFunctors = .addTimerInLoop p :: functors) : { q with pendingFunctors := functors }.Inv [p] := by
  refine { h with holds := (h.holds.perm ?_).congr rfl rfl rfl }
  rw [List.nil_append, others, pendingAdds, hf]
  exact List.perm_middle

theorem takeCancel (h : q.Inv []) {id : TimerId} {functors : List TimerFunctor}
    (hf : q.pendingFunctors = .cancelInLoop id :: functors) : { q with pendingFunctors := functors }.Inv [] := by
  have hholds := h.holds
  rw [others, pendingAdds, hf] at hholds
  exact { h with holds := hholds.congr rfl rfl rfl }

theorem added (h : q.Inv [p]) (ht : q.heap p = some t) (clock : Int) : (q.added p t clock).Inv [] := by
  have hholds := h.holds.added ht clock
  unfold TimerQueue.added armIf at hholds ⊢
  split at hholds
  · rw [if_pos ‹_›]
    exact { h with holds := hholds }
  · rw [if_neg ‹_›]
    exact { h with holds := hholds }

theorem canceled (h : q.Inv []) {id : TimerId} {q' : TimerQueue} (hc : q.Canceled id q') : q'.Inv [] := by
  cases hc with
  | missed => exact h
  | noted => exact { h with holds := h.holds.congr rfl rfl rfl }
  | @removed t ht hseq he =>
    have hother : ∀ p ∈ q.others, p ≠ id.timer := by
      rintro p hp rfl
      exact List.disjoint_of_nodup_append h.holds.nodup (List.mem_map_of_mem (f := Prod.snd) he) hp
    refine { h with holds := h.holds.remove ht hseq he, expired := ?_, live := ?_ }
    · intro e he
      exact (congrArg _ (heap_store_of_ne (hother _ (mem_others_of_batch he)) _)).trans (h.expired e he)
    · intro p t' ht'
      by_cases hp : p = id.timer
      · subst hp
        cases (heap_store ..).symm.trans ht'
      · exact h.live p t' ((heap_store_of_ne hp _).symm.trans ht')

theorem batch_eq_nil (hidle : q.handling = none) : q.batch = [] := by
  rw [batch, hidle]

theorem beginRead (h : q.Inv []) {now : Int} (hidle : q.handling = none) {active : List TimerId}
    (hactive : active.Perm ((q.timers.dropWhile (TimerEntry.due now)).map q.idOf)) :
    { q with
      timers := q.timers.dropWhile (TimerEntry.due now)
      activeTimers := active
      readable := false
      callingExpiredTimers := true
      cancelingTimers := []
      handling := some (Handling.mk now (q.timers.takeWhile (TimerEntry.due now))
        (q.timers.takeWhile (TimerEntry.due now))) }.Inv [] := by
  have hothers : q.others = q.pendingAdds := by
    rw [others, batch_eq_nil hidle]
    rfl
  refine { h with holds := ?_, expired := ?_, calling := rfl, handling := ?_ }
  · have hsplit := h.holds.split List.takeWhile_append_dropWhile hactive
    rw [List.nil_append, hothers] at hsplit
    exact hsplit.congr rfl rfl rfl
  · intro e he
    exact h.holds.entries e ((List.takeWhile_sublist _).subset he)
  · rintro _ ⟨⟩
    exact ⟨List.suffix_rfl, fun e he => of_decide_eq_true (List.all_eq_true.1 List.all_takeWhile e he)⟩

theorem callback (h : q.Inv []) {now : Int} {expired todo : List TimerEntry} {it : TimerEntry}
    (hh : q.handling = some ⟨now, expired, it :: todo⟩) (ran : List Ran) :
    { q with handling := some (Handling.mk now expired todo), ran := ran }.Inv [] := by
  have hbatch : q.batch = expired := by
    rw [batch, hh]
  obtain ⟨hsuffix, hdue⟩ := h.handling _ hh
  refine { h with holds := ?_, expired := ?_, calling := ?_, handling := ?_ }
  · have hholds := h.holds
    rw [List.nil_append, others, hbatch] at hholds
    exact hholds.congr rfl rfl rfl
  · have hexpired := h.expired
    rwa [hbatch] at hexpired
  · rw [h.calling, hh]
    rfl
  · rintro _ ⟨⟩
    exact ⟨(List.suffix_cons _ _).trans hsuffix, hdue⟩

end Inv

theorem kept_eq_some {q : TimerQueue} {now : Int} {p : Nat} {t : Timer} (h : q.kept now p = some t) :
    ∃ t₀ d, q.heap p = some t₀ ∧ t₀.interval = some d ∧ ⟨p, t₀.sequence⟩ ∉ q.cancelingTimers ∧
      t = { t₀ with expiration := now + d } := by
  obtain ⟨t₀, ht₀, h⟩ := Option.bind_eq_some_iff.1 h
  split at h
  · rename_i hrepeat
    obtain ⟨d, hd⟩ := Option.isSome_iff_exists.1 hrepeat.1
    refine ⟨t₀, d, ht₀, hd, hrepeat.2, ?_⟩
    rw [← Option.some.inj h, Timer.restart, hd]
  · cases h

/-- The state after the loop of `reset`. -/
theorem Inv.reset {q q₁ : TimerQueue} (h : q.Inv []) {now : Int} {expired : List TimerEntry}
    (hsame : { q with callingExpiredTimers := false, handling := none }.SameBut q₁) (hholds : q₁.Holds q.pendingAdds)
    (hheap : ∀ p, q₁.heap p = if p ∈ expired.map Prod.snd then q.kept now p else q.heap p) : q₁.Inv [] := by
  obtain ⟨heap, timers, active, rfl⟩ := hsame
  dsimp only at hheap
  refine { h with holds := hholds, expired := ?_, calling := rfl, handling := ?_, live := ?_ }
  · rintro e ⟨⟩
  · rintro _ ⟨⟩
  · intro p t ht
    dsimp only at ht
    rw [hheap] at ht
    split at ht
    · obtain ⟨t₀, d, ht₀, -, -, rfl⟩ := kept_eq_some ht
      exact h.live p t₀ ht₀
    · exact h.live p t ht

theorem pendingAdds_cancel (q : TimerQueue) (id : TimerId) :
    { q with pendingFunctors := q.pendingFunctors ++ [TimerFunctor.cancelInLoop id] }.pendingAdds = q.pendingAdds := by
  rw [pendingAdds, List.filterMap_append]
  exact List.append_nil _

theorem Inv.effect {q q' : TimerQueue} {op : Op} (h : q.Inv []) (he : q.Effect op q') : q'.Inv [] := by
  cases he with
  | idle => exact h
  | addTimer hfree expiration interval clock => exact (h.newTimer hfree expiration interval).added (heap_store ..) clock
  | addElsewhere hfree expiration interval => exact (h.newTimer hfree expiration interval).addElsewhere _
  | returned id => exact { h with holds := h.holds.congr rfl rfl rfl }
  | canceled hc => exact h.canceled hc
  | cancelElsewhere id =>
    refine { h with holds := ?_ }
    rw [List.nil_append, others, pendingAdds_cancel]
    exact h.holds.congr rfl rfl rfl
  | addFunctor hf ht clock => exact (h.takeFunctor hf).added ht clock
  | cancelFunctor hf hc clock => exact (h.takeCancel hf).canceled hc
  | alarm ha => exact { h with holds := h.holds.congr rfl rfl rfl }
  | beginRead hidle hactive => exact h.beginRead hidle hactive
  | callback hh ht => exact h.callback hh _
  | endRead hh hsame hholds hheap clock hq' =>
    have hreset := h.reset hsame hholds hheap
    rcases hq' with ⟨rfl, -⟩ | ⟨it, -, -, rfl⟩
    · exact hreset
    · exact { hreset with holds := hreset.holds.congr rfl rfl rfl }

theorem inv_init : ({} : TimerQueue).Inv [] where
  holds :=
    { nodup := List.nodup_nil
      live := fun p => iff_of_false Bool.false_ne_true List.not_mem_nil
      entries := fun e he => (List.not_mem_nil he).elim
      sorted := .nil
      active := .nil }
  expired := fun e he => (List.not_mem_nil he).elim
  calling := rfl
  handling := by rintro _ ⟨⟩
  live := by rintro p t ⟨⟩
  created := ⟨List.nodup_nil, fun id hid => (List.not_mem_nil hid).elim⟩

/-! ### Runs -/

theorem step_late {q : TimerQueue} {op : Op} (h : op.Late q) : q.step op = .error .useAfterFree := by
  cases op with
  | returnElsewhere id =>
    rw [step, if_pos h.1, if_neg h.2]
  | _ => exact h.elim

theorem effect_of_step {q q' : TimerQueue} {op : Op} (h : q.Inv []) (hs : q.step op = .ok q') : q.Effect op q' := by
  have hlate : ¬ op.Late q := by
    intro hlate
    cases (step_late hlate).symm.trans hs
  obtain ⟨q₁, hs₁, he⟩ := step_effect h hlate
  cases Except.ok_unique hs₁ hs
  exact he

/-- What the effects of some operations keep holds after every run of them. -/
theorem run_keeps {C : Op → Prop} {P : TimerQueue → Prop}
    (hstep : ∀ {q op q'}, C op → q.Inv [] → P q → q.Effect op q' → P q') {ops : List Op} (hops : ∀ op ∈ ops, C op)
    {q q' : TimerQueue} (h : q.Inv []) (hp : P q) (hr : q.run ops = .ok q') : q'.Inv [] ∧ P q' := by
  induction ops generalizing q with
  | nil =>
    cases hr
    exact ⟨h, hp⟩
  | cons op ops ih =>
    obtain ⟨q₁, hs, hr⟩ := Except.foldlM_cons_ok.1 hr
    have he := effect_of_step h hs
    exact ih (fun op' hop' => hops op' (List.mem_cons_of_mem _ hop')) (h.effect he)
      (hstep (hops op (List.mem_cons_self ..)) h hp he) hr

theorem Inv.run {q q' : TimerQueue} {ops : List Op} (h : q.Inv []) (hr : q.run ops = .ok q') : q'.Inv [] :=
  (run_keeps (C := fun _ => True) (P := fun _ => True) (fun _ _ _ _ => trivial) (fun _ _ => trivial) h trivial hr).1

/-- Only what comes too late makes a run fail. -/
theorem Inv.run_error {q : TimerQueue} {ops : List Op} {e : TimerFault} (h : q.Inv []) (hr : q.run ops = .error e) :
    e = .useAfterFree ∧ ∃ before op after q', ops = before ++ op :: after ∧ q.run before = .ok q' ∧ op.Late q' := by
  induction ops generalizing q with
  | nil => cases hr
  | cons op ops ih =>
    by_cases hlate : op.Late q
    · rw [TimerQueue.run, List.foldlM_cons, step_late hlate] at hr
      cases hr
      exact ⟨rfl, [], op, ops, q, rfl, rfl, hlate⟩
    · obtain ⟨q₁, hs, he⟩ := step_effect h hlate
      rw [TimerQueue.run, List.foldlM_cons, hs] at hr
      obtain ⟨heq, before, op', after, q', rfl, hbefore, hlate'⟩ := ih (h.effect he) hr
      exact ⟨heq, op :: before, op', after, q', rfl, Except.foldlM_cons_ok.2 ⟨q₁, hs, hbefore⟩, hlate'⟩

/-! ### When `addTimer` returns in time -/

def Op.isFunctor : Op → Bool
  | .functor _ => true
  | _ => false

/-- The functor that is called next is not one whose `addTimer` has not returned. -/
def Op.Fits (q : TimerQueue) (op : Op) : Prop :=
  op.isFunctor = true → ∀ id ∈ q.returning, q.pendingFunctors.head? ≠ some (.addTimerInLoop id.timer)

instance (q : TimerQueue) (op : Op) : Decidable (op.Fits q) := inferInstanceAs (Decidable (_ → _))

def OpsFit (q : TimerQueue) : List Op → Prop
  | [] => True
  | op :: ops => op.Fits q ∧ ∀ q', q.step op = .ok q' → q'.OpsFit ops

/-- What `addTimer` still has to read is there. -/
def Prompt (q : TimerQueue) : Prop :=
  ∀ id ∈ q.returning, id.timer ∈ q.pendingAdds ∧ (q.heap id.timer).map Timer.sequence = some id.sequence

theorem added_eq (q : TimerQueue) (p : Nat) (t : Timer) (clock : Int) :
    ∃ alarm readable, q.added p t clock = { q.put p t with alarm := alarm, readable := readable } := by
  unfold added armIf
  split
  · exact ⟨_, _, rfl⟩
  · exact ⟨_, _, rfl⟩

theorem Canceled.heap_of_notMem {q q' : TimerQueue} {id : TimerId} (hc : q.Canceled id q') {p : Nat}
    (hp : p ∉ q.addresses) : q'.heap p = q.heap p := by
  cases hc with
  | noted => rfl
  | missed => rfl
  | removed ht hseq he =>
    refine heap_store_of_ne ?_ _
    rintro rfl
    exact hp (List.mem_map_of_mem (f := Prod.snd) he)

/-- Nobody touches a timer that waits in a functor or is about to be called. -/
theorem Inv.heap_others {q q' : TimerQueue} {op : Op} (h : q.Inv []) (he : q.Effect op q') {p : Nat}
    (hp : p ∈ q.others) (hend : ∀ clock, op = .endRead clock → p ∉ q.batch.map Prod.snd) : q'.heap p = q.heap p := by
  have haddr : p ∉ q.addresses := fun hmem => List.disjoint_of_nodup_append h.holds.nodup hmem hp
  have hnew : ∀ {p'}, q.heap p' = none → p ≠ p' := by
    rintro p' hfree rfl
    exact h.heap_ne_none hp hfree
  cases he with
  | idle => rfl
  | addTimer hfree expiration interval clock =>
    obtain ⟨_, _, heq⟩ := added_eq (q.newTimer _ expiration interval) _ ⟨expiration, interval, q.numCreated + 1⟩ clock
    rw [heq]
    exact heap_store_of_ne (hnew hfree) _
  | addElsewhere hfree expiration interval => exact heap_store_of_ne (hnew hfree) _
  | returned id => rfl
  | canceled hc => exact hc.heap_of_notMem haddr
  | cancelElsewhere id => rfl
  | @addFunctor p' functors hf t ht clock =>
    obtain ⟨_, _, heq⟩ := added_eq { q with pendingFunctors := functors } p' t clock
    rw [heq]
    rfl
  | cancelFunctor hf hc clock => exact hc.heap_of_notMem haddr
  | alarm ha => rfl
  | beginRead hidle hactive => rfl
  | callback hh ht => rfl
  | @endRead now expired hh q₁ q' hsame hholds hheap clock hq' =>
    have hnot := hend clock rfl
    rw [batch, hh] at hnot
    have hreset := (hheap p).trans (if_neg hnot)
    rcases hq' with ⟨rfl, -⟩ | ⟨it, -, -, rfl⟩
    · exact hreset
    · exact hreset

theorem Inv.heap_pending {q q' : TimerQueue} {op : Op} (h : q.Inv []) (he : q.Effect op q') {p : Nat}
    (hp : p ∈ q.pendingAdds) : q'.heap p = q.heap p := by
  have hnodup : (q.batch.map Prod.snd ++ q.pendingAdds).Nodup := (List.nodup_append.1 h.holds.nodup).2.1
  exact h.heap_others he (mem_others_of_pending hp) fun _ _ hmem => List.disjoint_of_nodup_append hnodup hmem hp

theorem Canceled.same {q q' : TimerQueue} {id : TimerId} (hc : q.Canceled id q') :
    q'.returning = q.returning ∧ q'.pendingFunctors = q.pendingFunctors ∧ q'.handling = q.handling ∧
      q'.ran = q.ran ∧ q'.alarm = q.alarm ∧ q'.readable = q.readable ∧ q'.numCreated = q.numCreated := by
  cases hc <;> exact ⟨rfl, rfl, rfl, rfl, rfl, rfl, rfl⟩

theorem Prompt.effect {q q' : TimerQueue} {op : Op} (hp : q.Prompt) (h : q.Inv []) (hfit : op.Fits q)
    (he : q.Effect op q') : q'.Prompt := by
  -- what has not returned yet is in its functor still
  have hold : ∀ id ∈ q.returning, id.timer ∈ q'.pendingAdds →
      id.timer ∈ q'.pendingAdds ∧ (q'.heap id.timer).map Timer.sequence = some id.sequence := by
    intro id hid hmem
    rw [h.heap_pending he (hp id hid).1]
    exact ⟨hmem, (hp id hid).2⟩
  have hsame : q'.returning = q.returning → q'.pendingAdds = q.pendingAdds → q'.Prompt := by
    intro hret hadds id hid
    rw [hret] at hid
    exact hold id hid (hadds ▸ (hp id hid).1)
  cases he with
  | idle => exact hp
  | addTimer hfree expiration interval clock =>
    obtain ⟨_, _, heq⟩ := added_eq (q.newTimer _ expiration interval) _ ⟨expiration, interval, q.numCreated + 1⟩ clock
    rw [heq] at hsame ⊢
    exact hsame rfl rfl
  | @addElsewhere p hfree expiration interval =>
    have hadds : { q.newTimer p expiration interval with
        pendingFunctors := q.pendingFunctors ++ [TimerFunctor.addTimerInLoop p]
        returning := ⟨p, q.numCreated + 1⟩ :: q.returning }.pendingAdds = q.pendingAdds ++ [p] :=
      List.filterMap_append ..
    intro id hid
    rcases List.mem_cons.1 hid with rfl | hid
    · rw [hadds]
      exact ⟨List.mem_append_right _ (List.mem_singleton_self p), congrArg _ (heap_store ..)⟩
    · exact hold id hid (hadds ▸ List.mem_append_left _ (hp id hid).1)
  | returned id => exact fun id' hid' => hp id' (List.mem_of_mem_erase hid')
  | canceled hc =>
    refine hsame hc.same.1 ?_
    rw [pendingAdds, hc.same.2.1]
    rfl
  | cancelElsewhere id => exact hsame rfl (pendingAdds_cancel q id)
  | @addFunctor p functors hf t ht clock =>
    obtain ⟨_, _, heq⟩ := added_eq { q with pendingFunctors := functors } p t clock
    rw [heq] at hold ⊢
    intro id hid
    have hpending := (hp id hid).1
    rw [pendingAdds, hf] at hpending
    refine hold id hid ((List.mem_cons.1 hpending).resolve_left fun hid' => ?_)
    refine hfit rfl id hid ?_
    rw [hf, hid']
    rfl
  | cancelFunctor hf hc clock =>
    refine hsame hc.same.1 ?_
    rw [pendingAdds, hc.same.2.1, pendingAdds, hf]
    rfl
  | alarm ha => exact hp
  | beginRead hidle hactive => exact hp
  | callback hh ht => exact hp
  | endRead hh hreset hholds hheap clock hq' =>
    obtain ⟨_, _, _, rfl⟩ := hreset
    rcases hq' with ⟨rfl, -⟩ | ⟨it, -, -, rfl⟩
    · exact hsame rfl rfl
    · exact hsame rfl rfl

theorem Prompt.not_late {q : TimerQueue} (hp : q.Prompt) (op : Op) : ¬ op.Late q := by
  intro hlate
  cases op with
  | returnElsewhere id => exact hlate.2 (hp id hlate.1).2
  | _ => exact hlate.elim

theorem Prompt.run {q : TimerQueue} {ops : List Op} (hp : q.Prompt) (h : q.Inv []) (hfit : q.OpsFit ops) :
    ∃ q', q.run ops = .ok q' := by
  induction ops generalizing q with
  | nil => exact ⟨q, rfl⟩
  | cons op ops ih =>
    obtain ⟨q₁, hs, he⟩ := step_effect h (hp.not_late op)
    obtain ⟨q', hr⟩ := ih (hp.effect h hfit.1 he) (h.effect he) (hfit.2 q₁ hs)
    exact ⟨q', Except.foldlM_cons_ok.2 ⟨q₁, hs, hr⟩⟩

end TimerQueue

open TimerQueue in
/-- Whatever is added, canceled and called in whatever order, every timer that is not deleted has one owner.
The only fault there can be is that `addTimer` of another thread reads a timer that is deleted already, and
there is none if the loop does not get to its functor before it has returned. -/
theorem timers_are_safe (ops : List TimerQueue.Op) :
    (OpsFit {} ops → ∃ q, run {} ops = .ok q) ∧ (∀ q, run {} ops = .ok q → q.Holds q.others) ∧
      ∀ e, run {} ops = .error e →
        e = .useAfterFree ∧ ∃ before op after q, ops = before ++ op :: after ∧ run {} before = .ok q ∧ op.Late q := by
  refine ⟨fun hfit => ?_, fun q hr => (inv_init.run hr).holds, fun e hr => inv_init.run_error hr⟩
  exact Prompt.run (fun id hid => (List.not_mem_nil hid).elim) inv_init hfit

-- the timer runs once and is deleted before the thread that made it looks at it again
example : (TimerQueue.run {} [.addTimerElsewhere 7 10 none, .functor 1, .alarm, .beginRead 12, .callback,
    .endRead 13, .returnElsewhere ⟨7, 1⟩]).map TimerQueue.ran = .error .useAfterFree := by decide

end IMServer.Net
