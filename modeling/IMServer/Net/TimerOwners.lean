import IMServer.Net.TimerQueue

/-!
# Who owns a timer

Every timer that is not deleted is named in exactly one place: in `timers_`, in the vector of
`handleRead`, or in a functor that waits. `Holds q others` says so for `timers_` and whatever else there
is, and each operation moves a timer from one place to another, so that none of its assertions fails.
-/

namespace IMServer.Net

namespace TimerEntry

theorem le_total (e e' : TimerEntry) : e.le e' ∨ e'.le e := by
  unfold le
  omega

theorem le_trans {e e' e'' : TimerEntry} (h : e.le e') (h' : e'.le e'') : e.le e'' := by
  unfold le at *
  omega

instance : Std.Total TimerEntry.le := ⟨le_total⟩

instance : IsTrans TimerEntry TimerEntry.le := ⟨fun _ _ _ => le_trans⟩

end TimerEntry

namespace TimerQueue

def addresses (q : TimerQueue) : List Nat := q.timers.map Prod.snd

def sequenceAt (q : TimerQueue) (timer : Nat) : Nat := ((q.heap timer).map Timer.sequence).getD 0

def idOf (q : TimerQueue) (e : TimerEntry) : TimerId := ⟨e.2, q.sequenceAt e.2⟩

/-- `timers_` and `others` share the timers among them, and `activeTimers_` has those of `timers_`. -/
structure Holds (q : TimerQueue) (others : List Nat) : Prop where
  nodup : (q.addresses ++ others).Nodup
  live : ∀ p, (q.heap p).isSome = true ↔ p ∈ q.addresses ++ others
  entries : ∀ e ∈ q.timers, (q.heap e.2).map Timer.expiration = some e.1
  sorted : q.timers.Pairwise TimerEntry.le
  active : q.activeTimers.Perm (q.timers.map q.idOf)

namespace Holds

variable {q : TimerQueue} {others : List Nat} {p : Nat} {t : Timer}

theorem check (h : q.Holds others) : q.check = .ok () := by
  have hlen := h.active.length_eq
  rw [List.length_map] at hlen
  exact if_pos hlen.symm

theorem perm {others' : List Nat} (h : q.Holds others) (hp : others.Perm others') : q.Holds others' :=
  { h with
    nodup := (hp.append_left _).nodup_iff.1 h.nodup
    live := fun p => (h.live p).trans ((hp.append_left _).mem_iff) }

theorem notMem (h : q.Holds (p :: others)) : p ∉ q.addresses ∧ p ∉ others := by
  have hnodup := List.nodup_middle.1 h.nodup
  rw [List.nodup_cons, List.mem_append, not_or] at hnodup
  exact hnodup.1

theorem get (h : q.Holds (p :: others)) : ∃ t, q.heap p = some t :=
  Option.isSome_iff_exists.1 ((h.live p).2 (List.mem_append_right _ (List.mem_cons_self ..)))

end Holds

/-! ### Changes of the heap -/

/-- What is stored elsewhere changes nothing for the entries of `timers_`. -/
theorem heap_store_of_ne {q : TimerQueue} {p p' : Nat} (h : p' ≠ p) (t : Option Timer) :
    (q.store p t).heap p' = q.heap p' := Function.update_of_ne h _ _

@[simp] theorem heap_store (q : TimerQueue) (p : Nat) (t : Option Timer) : (q.store p t).heap p = t :=
  Function.update_self ..

theorem idOf_store {q : TimerQueue} {p : Nat} (h : p ∉ q.addresses) (t : Option Timer) :
    q.timers.map (q.store p t).idOf = q.timers.map q.idOf := by
  refine List.map_congr_left fun e he => ?_
  have hne : e.2 ≠ p := by
    rintro rfl
    exact h (List.mem_map_of_mem he)
  rw [idOf, idOf, sequenceAt, sequenceAt, heap_store_of_ne hne]

namespace Holds

variable {q : TimerQueue} {others : List Nat} {p : Nat}

/-- Something happens to a timer that `timers_` does not name. -/
theorem store (h : q.Holds others) (hp : p ∉ q.addresses) (t : Option Timer) {others' : List Nat}
    (hnodup : (q.addresses ++ others').Nodup)
    (hlive : ∀ p', ((q.store p t).heap p').isSome = true ↔ p' ∈ q.addresses ++ others') :
    (q.store p t).Holds others' where
  nodup := hnodup
  live := hlive
  entries := by
    intro e he
    have hne : e.2 ≠ p := by
      rintro rfl
      exact hp (List.mem_map_of_mem he)
    rw [heap_store_of_ne hne]
    exact h.entries e he
  sorted := h.sorted
  active := h.active.trans (List.Perm.of_eq (idOf_store hp t).symm)

/-- A new timer belongs to its creator, -/
theorem new (h : q.Holds others) (hfree : q.heap p = none) (t : Timer) : (q.store p (some t)).Holds (p :: others) := by
  have hp : p ∉ q.addresses ++ others := by
    intro hmem
    have := (h.live p).2 hmem
    rw [hfree] at this
    cases this
  refine h.store (fun hmem => hp (List.mem_append_left _ hmem)) _
    (List.nodup_middle.2 (List.nodup_cons.2 ⟨hp, h.nodup⟩)) fun p' => ?_
  rw [List.perm_middle.mem_iff, List.mem_cons]
  by_cases hp' : p' = p
  · subst hp'
    simp
  · rw [heap_store_of_ne hp', h.live p']
    exact ⟨.inr, fun h => h.resolve_left hp'⟩

/-- who may change it -/
theorem change (h : q.Holds (p :: others)) (t : Timer) : (q.store p (some t)).Holds (p :: others) := by
  refine h.store h.notMem.1 _ h.nodup fun p' => ?_
  by_cases hp' : p' = p
  · subst hp'
    simp
  · rw [heap_store_of_ne hp']
    exact h.live p'

/-- and delete it. -/
theorem delete (h : q.Holds (p :: others)) : (q.store p none).Holds others := by
  have hnodup := List.nodup_cons.1 (List.nodup_middle.1 h.nodup)
  refine h.store h.notMem.1 _ hnodup.2 fun p' => ?_
  by_cases hp' : p' = p
  · subst hp'
    rw [heap_store]
    exact iff_of_false (by simp) hnodup.1
  · rw [heap_store_of_ne hp', h.live p', List.perm_middle.mem_iff, List.mem_cons]
    exact ⟨fun h => h.resolve_left hp', .inr⟩

/-! ### Changes of the sets -/

theorem put (h : q.Holds (p :: others)) {t : Timer} (ht : q.heap p = some t) : (q.put p t).Holds others := by
  have hid : q.idOf (t.expiration, p) = ⟨p, t.sequence⟩ := by
    rw [idOf, sequenceAt, ht]
    rfl
  have hperm := List.perm_orderedInsert TimerEntry.le (t.expiration, p) q.timers
  have haddr : (q.put p t).addresses.Perm (p :: q.addresses) := hperm.map Prod.snd
  have hall : ((q.put p t).addresses ++ others).Perm (q.addresses ++ p :: others) :=
    (haddr.append_right others).trans List.perm_middle.symm
  refine ⟨hall.nodup_iff.2 h.nodup, fun p' => (h.live p').trans hall.mem_iff.symm, fun e he => ?_, ?_, ?_⟩
  · rcases List.mem_cons.1 (hperm.mem_iff.1 he) with rfl | he
    · exact congrArg (Option.map Timer.expiration) ht
    · exact h.entries e he
  · exact h.sorted.orderedInsert _ _
  · have hactive := (h.active.cons (q.idOf (t.expiration, p))).trans (hperm.map q.idOf).symm
    rwa [hid] at hactive

/-- `insert` takes the timer over from the caller. -/
theorem insert (h : q.Holds (p :: others)) {t : Timer} (ht : q.heap p = some t) :
    q.insert p = .ok (q.timers.head?.all fun it => decide (t.expiration < it.1), q.put p t) := by
  have hp := h.notMem
  have hentry : (t.expiration, p) ∉ q.timers := fun hmem => hp.1 (List.mem_map_of_mem (f := Prod.snd) hmem)
  have hactive : ⟨p, t.sequence⟩ ∉ q.activeTimers := by
    intro hmem
    obtain ⟨e, he, heq⟩ := List.mem_map.1 (h.active.mem_iff.1 hmem)
    exact hp.1 (List.mem_map.2 ⟨e, he, congrArg TimerId.timer heq⟩)
  rw [TimerQueue.insert, h.check, Except.ok_bind, deref, ht, Except.ok_bind, if_neg hentry, if_neg hactive,
    (h.put ht).check]
  rfl

/-- What is in `activeTimers_` is in `timers_`. -/
theorem of_active (h : q.Holds others) {id : TimerId} (hid : id ∈ q.activeTimers) :
    ∃ t, q.heap id.timer = some t ∧ t.sequence = id.sequence ∧ (t.expiration, id.timer) ∈ q.timers := by
  obtain ⟨e, he, rfl⟩ := List.mem_map.1 (h.active.mem_iff.1 hid)
  obtain ⟨t, ht, hexp⟩ := Option.map_eq_some_iff.1 (h.entries e he)
  refine ⟨t, ht, ?_, ?_⟩
  · rw [idOf, sequenceAt, ht]
    rfl
  · rw [hexp]
    exact he

/-- A timer is taken out of both sets. -/
theorem takeOut (h : q.Holds others) {e : TimerEntry} (he : e ∈ q.timers) :
    { q with timers := q.timers.erase e, activeTimers := q.activeTimers.erase (q.idOf e) }.Holds (e.2 :: others) := by
  have hperm := List.perm_cons_erase he
  have haddr : q.addresses.Perm (e.2 :: (q.timers.erase e).map Prod.snd) := hperm.map Prod.snd
  have hall : ((q.timers.erase e).map Prod.snd ++ e.2 :: others).Perm (q.addresses ++ others) :=
    List.perm_middle.trans (haddr.symm.append_right others)
  refine ⟨hall.nodup_iff.2 h.nodup, fun p' => (h.live p').trans hall.mem_iff.symm, fun e' he' => ?_, ?_, ?_⟩
  · exact h.entries e' (List.mem_of_mem_erase he')
  · exact h.sorted.sublist List.erase_sublist
  · have hmap := h.active.trans (hperm.map q.idOf)
    have hmem : q.idOf e ∈ q.activeTimers := h.active.mem_iff.2 (List.mem_map_of_mem he)
    exact List.Perm.cons_inv ((List.perm_cons_erase hmem).symm.trans hmap)

theorem remove (h : q.Holds others) {id : TimerId} {t : Timer} (ht : q.heap id.timer = some t)
    (hseq : t.sequence = id.sequence) (he : (t.expiration, id.timer) ∈ q.timers) : (q.remove id t).Holds others := by
  have hid : q.idOf (t.expiration, id.timer) = id := by
    rw [idOf, sequenceAt, ht]
    exact congrArg (TimerId.mk id.timer) hseq
  have hout := h.takeOut he
  rw [hid] at hout
  exact hout.delete

theorem cancelInLoop (h : q.Holds others) {id : TimerId} (hid : id ∈ q.activeTimers) :
    ∃ t, q.heap id.timer = some t ∧ t.sequence = id.sequence ∧ q.cancelInLoop id = .ok (q.remove id t) ∧
      (q.remove id t).Holds others := by
  obtain ⟨t, ht, hseq, he⟩ := h.of_active hid
  have hremove := h.remove ht hseq he
  refine ⟨t, ht, hseq, ?_, hremove⟩
  rw [TimerQueue.cancelInLoop, h.check, Except.ok_bind, if_pos hid, deref, ht, Except.ok_bind, if_pos he, hremove.check]
  rfl

/-! ### The timers that expired -/

theorem eraseActive {rest expired : List TimerEntry} (hlive : ∀ e ∈ expired, (q.heap e.2).isSome = true)
    (hactive : q.activeTimers.Perm ((expired ++ rest).map q.idOf)) :
    ∃ active, q.eraseActive expired = .ok { q with activeTimers := active } ∧ active.Perm (rest.map q.idOf) := by
  induction expired generalizing q with
  | nil => exact ⟨q.activeTimers, rfl, hactive⟩
  | cons e expired ih =>
    obtain ⟨t, ht⟩ := Option.isSome_iff_exists.1 (hlive e (List.mem_cons_self ..))
    have hid : q.idOf e = ⟨e.2, t.sequence⟩ := by
      rw [idOf, sequenceAt, ht]
      rfl
    have hmem : ⟨e.2, t.sequence⟩ ∈ q.activeTimers := by
      rw [← hid]
      exact hactive.mem_iff.2 (List.mem_cons_self ..)
    have hrest : (q.activeTimers.erase ⟨e.2, t.sequence⟩).Perm ((expired ++ rest).map q.idOf) := by
      refine List.Perm.cons_inv ((List.perm_cons_erase hmem).symm.trans ?_)
      rw [← hid]
      exact hactive
    obtain ⟨active, hrun, hperm⟩ := ih (q := { q with activeTimers := q.activeTimers.erase ⟨e.2, t.sequence⟩ })
      (fun e' he' => hlive e' (List.mem_cons_of_mem _ he')) hrest
    refine ⟨active, ?_, hperm⟩
    rw [TimerQueue.eraseActive, deref, ht, Except.ok_bind, if_pos hmem, hrun]

/-- The timers in front leave both sets. -/
theorem split (h : q.Holds others) {expired rest : List TimerEntry} (hsplit : expired ++ rest = q.timers)
    {active : List TimerId} (hactive : active.Perm (rest.map q.idOf)) :
    { q with timers := rest, activeTimers := active }.Holds (expired.map Prod.snd ++ others) := by
  have hall : (rest.map Prod.snd ++ (expired.map Prod.snd ++ others)).Perm (q.addresses ++ others) := by
    rw [← List.append_assoc]
    refine List.Perm.append_right others (List.perm_append_comm.trans ?_)
    rw [← List.map_append, hsplit]
    rfl
  refine ⟨hall.nodup_iff.2 h.nodup, fun p' => (h.live p').trans hall.mem_iff.symm, fun e he => ?_, ?_, hactive⟩
  · exact h.entries e (hsplit ▸ List.mem_append_right _ he)
  · exact (hsplit ▸ h.sorted).sublist (List.sublist_append_right _ _)

theorem getExpired (h : q.Holds others) (now : Int) :
    ∃ active, q.getExpired now = .ok (q.timers.takeWhile (TimerEntry.due now),
        { q with timers := q.timers.dropWhile (TimerEntry.due now), activeTimers := active }) ∧
      active.Perm ((q.timers.dropWhile (TimerEntry.due now)).map q.idOf) := by
  have hsplit : q.timers.takeWhile (TimerEntry.due now) ++ q.timers.dropWhile (TimerEntry.due now) = q.timers :=
    List.takeWhile_append_dropWhile
  generalize hexp : q.timers.takeWhile (TimerEntry.due now) = expired at hsplit ⊢
  generalize hrest : q.timers.dropWhile (TimerEntry.due now) = rest at hsplit ⊢
  have hlive : ∀ e ∈ expired, (q.heap e.2).isSome = true := fun e he =>
    (h.live e.2).2 (List.mem_append_left _ (List.mem_map_of_mem (hsplit ▸ List.mem_append_left _ he)))
  have hactive : q.activeTimers.Perm ((expired ++ rest).map q.idOf) := hsplit ▸ h.active
  obtain ⟨active, hrun, hperm⟩ := eraseActive (q := { q with timers := rest }) hlive hactive
  refine ⟨active, ?_, hperm⟩
  rw [TimerQueue.getExpired, h.check, Except.ok_bind, hexp, hrest]
  dsimp only at hrun ⊢
  rw [hrun, Except.ok_bind, (h.split hsplit hperm).check]
  rfl

end Holds

/-- What `reset` makes of a timer that expired: it starts again or is deleted. -/
def kept (q : TimerQueue) (now : Int) (p : Nat) : Option Timer :=
  (q.heap p).bind fun t =>
    if t.interval.isSome ∧ ⟨p, t.sequence⟩ ∉ q.cancelingTimers then some (t.restart now) else none

/-- `q'` is `q` with other timers. -/
def SameBut (q q' : TimerQueue) : Prop :=
  ∃ heap timers active, q' = { q with heap := heap, timers := timers, activeTimers := active }

theorem kept_congr {q q' : TimerQueue} {p : Nat} (hheap : q'.heap p = q.heap p)
    (hcancel : q'.cancelingTimers = q.cancelingTimers) (now : Int) : q'.kept now p = q.kept now p := by
  rw [kept, kept, hheap, hcancel]

theorem Holds.restartExpired {q : TimerQueue} {expired : List TimerEntry} {others : List Nat}
    (h : q.Holds (expired.map Prod.snd ++ others)) (now : Int) :
    ∃ q', q.restartExpired now expired = .ok q' ∧ q'.Holds others ∧ q.SameBut q' ∧
      ∀ p, q'.heap p = if p ∈ expired.map Prod.snd then q.kept now p else q.heap p := by
  induction expired generalizing q with
  | nil => exact ⟨q, rfl, h, ⟨_, _, _, rfl⟩, fun p => rfl⟩
  | cons e expired ih =>
    obtain ⟨t, ht⟩ := h.get
    -- one turn of the loop
    have hturn : ∃ q₁, q.restartExpired now (e :: expired) = q₁.restartExpired now expired ∧
        q₁.Holds (expired.map Prod.snd ++ others) ∧ q.SameBut q₁ ∧
        q₁.heap = Function.update q.heap e.2 (q.kept now e.2) := by
      have hkept : q.kept now e.2 = if t.interval.isSome ∧ ⟨e.2, t.sequence⟩ ∉ q.cancelingTimers then
          some (t.restart now) else none := by
        rw [kept, ht]
        rfl
      rw [TimerQueue.restartExpired, deref, ht, Except.ok_bind, hkept]
      split
      · have hchange := h.change (t.restart now)
        have hstored := heap_store q e.2 (some (t.restart now))
        refine ⟨_, ?_, hchange.put hstored, ⟨_, _, _, rfl⟩, rfl⟩
        rw [hchange.insert hstored]
        rfl
      · exact ⟨_, rfl, h.delete, ⟨_, _, _, rfl⟩, rfl⟩
    obtain ⟨q₁, hrun₁, hholds₁, hsame₁, hheap₁⟩ := hturn
    obtain ⟨q', hrun, hholds, hsame, hheap⟩ := ih hholds₁
    have hfresh : e.2 ∉ expired.map Prod.snd := fun hmem => h.notMem.2 (List.mem_append_left _ hmem)
    refine ⟨q', hrun₁.trans hrun, hholds, ?_, fun p => ?_⟩
    · obtain ⟨_, _, _, rfl⟩ := hsame₁
      obtain ⟨_, _, _, rfl⟩ := hsame
      exact ⟨_, _, _, rfl⟩
    · rw [hheap, hheap₁, List.map_cons]
      by_cases hp : p = e.2
      · subst hp
        rw [if_neg hfresh, if_pos (List.mem_cons_self ..), Function.update_self]
      · have hmem : p ∈ e.2 :: expired.map Prod.snd ↔ p ∈ expired.map Prod.snd := by
          rw [List.mem_cons, or_iff_right hp]
        have hcancel : q₁.cancelingTimers = q.cancelingTimers := by
          obtain ⟨_, _, _, rfl⟩ := hsame₁
          rfl
        have hsamep : q₁.heap p = q.heap p := by rw [hheap₁, Function.update_of_ne hp]
        simp only [hmem, kept_congr hsamep hcancel, Function.update_of_ne hp]

/-! ### What the operations come to -/

def armIf (q : TimerQueue) (b : Bool) (expiration clock : Int) : TimerQueue :=
  if b then q.resetTimerfd expiration clock else q

/-- A timer goes into the sets, and the alarm is set if it is the first one. -/
def added (q : TimerQueue) (p : Nat) (t : Timer) (clock : Int) : TimerQueue :=
  (q.put p t).armIf (q.timers.head?.all fun it => decide (t.expiration < it.1)) t.expiration clock

inductive Canceled (q : TimerQueue) (id : TimerId) : TimerQueue → Prop
  | removed {t : Timer} (ht : q.heap id.timer = some t) (hseq : t.sequence = id.sequence)
      (he : (t.expiration, id.timer) ∈ q.timers) : Canceled q id (q.remove id t)
  | noted (hid : id ∉ q.activeTimers) (hc : q.callingExpiredTimers = true) :
      Canceled q id { q with cancelingTimers := id :: q.cancelingTimers }
  | missed (hid : id ∉ q.activeTimers) (hc : q.callingExpiredTimers = false) : Canceled q id q

namespace Holds

variable {q : TimerQueue} {others : List Nat} {p : Nat} {t : Timer}

/-- Only the timers matter. -/
theorem congr (h : q.Holds others) {q' : TimerQueue} (hheap : q'.heap = q.heap) (htimers : q'.timers = q.timers)
    (hactive : q'.activeTimers = q.activeTimers) : q'.Holds others := by
  have haddr : q'.addresses = q.addresses := congrArg (List.map Prod.snd) htimers
  have hid : q'.idOf = q.idOf := by
    funext e
    rw [idOf, idOf, sequenceAt, sequenceAt, hheap]
  constructor
  · rw [haddr]
    exact h.nodup
  · rw [haddr, hheap]
    exact h.live
  · rw [htimers, hheap]
    exact h.entries
  · rw [htimers]
    exact h.sorted
  · rw [hactive, htimers, hid]
    exact h.active

theorem armIf (h : q.Holds others) (b : Bool) (expiration clock : Int) : (q.armIf b expiration clock).Holds others := by
  unfold TimerQueue.armIf
  split
  · exact h.congr rfl rfl rfl
  · exact h

theorem added (h : q.Holds (p :: others)) (ht : q.heap p = some t) (clock : Int) : (q.added p t clock).Holds others :=
  (h.put ht).armIf ..

theorem addTimerInLoop (h : q.Holds (p :: others)) (ht : q.heap p = some t) (clock : Int) :
    q.addTimerInLoop p clock = .ok (q.added p t clock) := by
  have hput : (q.put p t).deref p = .ok t := by
    rw [deref, show (q.put p t).heap p = some t from ht]
  rw [TimerQueue.addTimerInLoop, h.insert ht, Except.ok_bind, TimerQueue.added, TimerQueue.armIf]
  dsimp only
  split
  · rw [hput]
    rfl
  · rfl

theorem newTimer (h : q.Holds others) (hfree : q.heap p = none) (expiration : Int) (interval : Option Nat) :
    (q.newTimer p expiration interval).Holds (p :: others) :=
  (h.new hfree ⟨expiration, interval, q.numCreated + 1⟩).congr rfl rfl rfl

theorem canceled (h : q.Holds others) (id : TimerId) : ∃ q', q.cancelInLoop id = .ok q' ∧ q.Canceled id q' := by
  by_cases hid : id ∈ q.activeTimers
  · obtain ⟨t, ht, hseq, hrun, -⟩ := h.cancelInLoop hid
    obtain ⟨t', ht', -, he⟩ := h.of_active hid
    cases ht.symm.trans ht'
    exact ⟨_, hrun, .removed ht hseq he⟩
  · rw [TimerQueue.cancelInLoop, h.check, Except.ok_bind, if_neg hid]
    by_cases hc : q.callingExpiredTimers = true
    · rw [if_pos hc]
      exact ⟨_, rfl, .noted hid hc⟩
    · rw [if_neg hc]
      exact ⟨q, rfl, .missed hid (Bool.eq_false_of_not_eq_true hc)⟩

/-- `reset` leaves the alarm alone if the first timer expires at no valid time. -/
theorem reset {expired : List TimerEntry} (h : q.Holds (expired.map Prod.snd ++ others)) (now clock : Int) :
    ∃ q₁ q', q.reset expired now clock = .ok q' ∧ q₁.Holds others ∧ q.SameBut q₁ ∧
      (∀ p, q₁.heap p = if p ∈ expired.map Prod.snd then q.kept now p else q.heap p) ∧
      (q' = q₁ ∧ (∀ it ∈ q₁.timers.head?, it.1 ≤ 0) ∨
        ∃ it ∈ q₁.timers.head?, 0 < it.1 ∧ q' = q₁.resetTimerfd it.1 clock) := by
  obtain ⟨q₁, hrun, hholds, hsame, hheap⟩ := h.restartExpired now
  rw [TimerQueue.reset, hrun, Except.ok_bind]
  cases hhead : q₁.timers.head? with
  | none => exact ⟨q₁, q₁, rfl, hholds, hsame, hheap, .inl ⟨rfl, by simp [hhead]⟩⟩
  | some it =>
    have hit : it ∈ q₁.timers := List.mem_of_mem_head? (Option.mem_def.2 hhead)
    obtain ⟨t, ht, hexp⟩ := Option.map_eq_some_iff.1 (hholds.entries it hit)
    dsimp only
    rw [deref, ht, Except.ok_bind, hexp]
    by_cases hpos : 0 < it.1
    · rw [if_pos hpos]
      exact ⟨q₁, _, rfl, hholds, hsame, hheap, .inr ⟨it, Option.mem_def.2 hhead, hpos, rfl⟩⟩
    · rw [if_neg hpos]
      refine ⟨q₁, q₁, rfl, hholds, hsame, hheap, .inl ⟨rfl, fun it' hit' => ?_⟩⟩
      rw [hhead, Option.mem_def, Option.some.injEq] at hit'
      subst hit'
      omega

end Holds

end TimerQueue

end IMServer.Net
