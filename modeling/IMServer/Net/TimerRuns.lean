import IMServer.Net.TimerSafety

/-!
# When the timers run

As long as `handleRead` is not at work, the timerfd can be read or is set for the first timer
(`timers_stay_armed`). `handleRead` calls all timers that are due, in the order in which they expire
(`due_timers_are_called`), and no timer runs before its time. One that has run is due again an interval
after the `handleRead` that called it read the clock, however long its callback took
(`timers_run_in_time`). A timer that is canceled runs no more, except that one that expired together with
the timer whose callback cancels it is still called (`cancel_is_final`).
-/

namespace IMServer.Net

/-- At the latest when the first timer expires, or 100 microseconds after the alarm was set. -/
theorem Alarm.delay_le {a : Alarm} {expiration : Int} (h : a.expiration ≤ expiration) :
    a.set + a.delay ≤ max expiration (a.set + 100) := by
  unfold Alarm.delay
  split <;> omega

namespace TimerQueue

/-! ### The alarm -/

/-- A time after the epoch. -/
def Op.Clocked : Op → Prop
  | .beginRead now => 0 < now
  | _ => True

structure Awake (q : TimerQueue) : Prop where
  clock : ∀ h ∈ q.handling, 0 < h.now
  armed : ∀ e ∈ q.timers, q.handling = none ∨ e.1 ≤ 0 →
    q.readable = true ∨ ∃ a ∈ q.alarm, ∀ e' ∈ q.timers, a.expiration ≤ e'.1

theorem le_of_head {timers : List TimerEntry} (h : timers.Pairwise TimerEntry.le) {it : TimerEntry}
    (hit : it ∈ timers.head?) : ∀ e ∈ timers, it.1 ≤ e.1 := by
  cases timers with
  | nil => cases hit
  | cons it' timers =>
    cases hit
    intro e he
    rcases List.mem_cons.1 he with rfl | he
    · exact le_rfl
    · have := (List.pairwise_cons.1 h).1 e he
      unfold TimerEntry.le at this
      omega

/-- What is due stands in front. -/
theorem due_first {timers : List TimerEntry} (h : timers.Pairwise TimerEntry.le) (now : Int) :
    timers.takeWhile (TimerEntry.due now) = timers.filter (TimerEntry.due now) ∧
      ∀ e ∈ timers.dropWhile (TimerEntry.due now), now < e.1 := by
  induction timers with
  | nil => exact ⟨rfl, fun e he => (List.not_mem_nil he).elim⟩
  | cons it timers ih =>
    obtain ⟨ihtake, ihdrop⟩ := ih (List.pairwise_cons.1 h).2
    cases hdue : TimerEntry.due now it with
    | true =>
      rw [List.takeWhile_cons_of_pos hdue, List.filter_cons_of_pos hdue, List.dropWhile_cons_of_pos hdue, ihtake]
      exact ⟨rfl, ihdrop⟩
    | false =>
      have hlt : ∀ e ∈ it :: timers, now < e.1 := fun e he =>
        (not_le.1 (of_decide_eq_false hdue)).trans_le (le_of_head h (Option.mem_def.2 rfl) e he)
      have hnone : (it :: timers).filter (TimerEntry.due now) = [] := by
        rw [List.filter_eq_nil_iff]
        exact fun e he hle => (hlt e he).not_ge (of_decide_eq_true hle)
      rw [hnone, List.takeWhile_cons_of_neg (ne_true_of_eq_false hdue),
        List.dropWhile_cons_of_neg (ne_true_of_eq_false hdue)]
      exact ⟨rfl, hlt⟩

theorem Awake.added {q : TimerQueue} (h : q.Awake) (hsorted : q.timers.Pairwise TimerEntry.le) (p : Nat) (t : Timer)
    (clock : Int) : (q.added p t clock).Awake := by
  have hmem : ∀ e, e ∈ (q.put p t).timers ↔ e = (t.expiration, p) ∨ e ∈ q.timers := fun e =>
    List.mem_orderedInsert ..
  unfold TimerQueue.added armIf
  split
  · rename_i hfirst
    refine ⟨h.clock, fun e he hlate => .inr ⟨_, rfl, fun e' he' => ?_⟩⟩
    rcases (hmem e').1 he' with rfl | he'
    · exact le_rfl
    · cases hhead : q.timers.head? with
      | none =>
        rw [List.head?_eq_none_iff.1 hhead] at he'
        cases he'
      | some it =>
        rw [hhead] at hfirst
        exact (of_decide_eq_true hfirst).le.trans (le_of_head hsorted hhead e' he')
  · rename_i hfirst
    -- some timer is before the new one, and if the new one needs the alarm, so does that one
    obtain ⟨it, hhead, hit⟩ : ∃ it, q.timers.head? = some it ∧ it.1 ≤ t.expiration := by
      cases hhead : q.timers.head? with
      | none => exact absurd (by rw [hhead]; rfl) hfirst
      | some it =>
        rw [hhead] at hfirst
        exact ⟨it, rfl, not_lt.1 fun hlt => hfirst (decide_eq_true hlt)⟩
    have hits : it ∈ q.timers := List.mem_of_mem_head? (Option.mem_def.2 hhead)
    refine ⟨h.clock, fun e he hlate => ?_⟩
    have hfirst' : q.handling = none ∨ it.1 ≤ 0 := by
      refine hlate.imp_right fun hle => ?_
      rcases (hmem e).1 he with rfl | he
      · exact hit.trans hle
      · exact (le_of_head hsorted hhead e he).trans hle
    refine (h.armed it hits hfirst').imp_right fun ⟨a, ha, hall⟩ => ⟨a, ha, fun e' he' => ?_⟩
    rcases (hmem e').1 he' with rfl | he'
    · exact (hall it hits).trans hit
    · exact hall e' he'

theorem Awake.canceled {q q' : TimerQueue} {id : TimerId} (h : q.Awake) (hc : q.Canceled id q') : q'.Awake := by
  cases hc with
  | noted => exact ⟨h.clock, h.armed⟩
  | missed => exact h
  | removed ht hseq he =>
    refine ⟨h.clock, fun e he hlate => ?_⟩
    exact (h.armed e (List.mem_of_mem_erase he) hlate).imp_right fun ⟨a, ha, hall⟩ =>
      ⟨a, ha, fun e' he' => hall e' (List.mem_of_mem_erase he')⟩

/-- What is in `timers_` after `reset` was there before, or starts again. -/
theorem Inv.reset_entry {q q₁ : TimerQueue} (h : q.Inv []) {now : Int} {expired : List TimerEntry}
    (hh : q.handling = some ⟨now, expired, []⟩) (hholds : q₁.Holds q.pendingAdds)
    (hheap : ∀ p, q₁.heap p = if p ∈ expired.map Prod.snd then q.kept now p else q.heap p) {e : TimerEntry}
    (he : e ∈ q₁.timers) : e ∈ q.timers ∨ now ≤ e.1 := by
  obtain ⟨t, ht, hexp⟩ := Option.map_eq_some_iff.1 (hholds.entries e he)
  rw [hheap] at ht
  split at ht
  · obtain ⟨t₀, d, -, -, -, rfl⟩ := kept_eq_some ht
    dsimp only at hexp
    exact .inr (by omega)
  · rename_i hexpired
    have hpending : e.2 ∉ q.pendingAdds := fun hmem =>
      List.disjoint_of_nodup_append hholds.nodup (List.mem_map_of_mem he) hmem
    have hlive := (h.holds.live e.2).1 (by rw [ht]; rfl)
    rw [List.nil_append, others, batch, hh, List.mem_append, List.mem_append,
      or_iff_left (not_or.2 ⟨hexpired, hpending⟩)]
      at hlive
    obtain ⟨e', he', heq⟩ := List.mem_map.1 hlive
    have hexp' := h.holds.entries e' he'
    rw [heq, ht, Option.map_some, hexp, Option.some.injEq] at hexp'
    exact .inl (Prod.ext hexp' heq.symm ▸ he')

theorem Awake.effect {q q' : TimerQueue} {op : Op} (hop : op.Clocked) (h : q.Inv []) (hw : q.Awake)
    (he : q.Effect op q') : q'.Awake := by
  cases he with
  | idle => exact hw
  | @addTimer p hfree expiration interval clock =>
    have hnew : (q.newTimer p expiration interval).Awake := ⟨hw.clock, hw.armed⟩
    exact hnew.added h.holds.sorted _ _ clock
  | addElsewhere hfree expiration interval => exact ⟨hw.clock, hw.armed⟩
  | returned id => exact ⟨hw.clock, hw.armed⟩
  | canceled hc => exact hw.canceled hc
  | cancelElsewhere id => exact ⟨hw.clock, hw.armed⟩
  | @addFunctor p functors hf t ht clock =>
    have hnext : { q with pendingFunctors := functors }.Awake := ⟨hw.clock, hw.armed⟩
    exact hnext.added h.holds.sorted _ _ clock
  | @cancelFunctor _ _ functors hf hc clock =>
    have hnext : { q with pendingFunctors := functors }.Awake := ⟨hw.clock, hw.armed⟩
    exact hnext.canceled hc
  | alarm ha => exact ⟨hw.clock, fun _ _ _ => .inl rfl⟩
  | @beginRead now hidle active hactive =>
    refine ⟨?_, fun e he hlate => ?_⟩
    · rintro _ ⟨⟩
      exact hop
    · -- what is left expires after `now`
      have hlt := (due_first h.holds.sorted now).2 e he
      have hnow : 0 < now := hop
      rcases hlate with hnone | hle
      · cases hnone
      · omega
  | callback hh ht =>
    have hnow := hw.clock _ hh
    refine ⟨?_, fun e he hlate => hw.armed e he (.inr ?_)⟩
    · rintro _ ⟨⟩
      exact hnow
    · exact hlate.resolve_left (Option.some_ne_none _)
  | @endRead now expired hh q₁ q' hsame hholds hheap clock hq' =>
    have hq₁ : q₁.readable = q.readable ∧ q₁.alarm = q.alarm ∧ q₁.handling = none := by
      obtain ⟨_, _, _, rfl⟩ := hsame
      exact ⟨rfl, rfl, rfl⟩
    rcases hq' with ⟨rfl, hhead⟩ | ⟨it, hit, -, rfl⟩
    · have hnow : 0 < now := hw.clock _ hh
      refine ⟨by rw [hq₁.2.2]; rintro _ ⟨⟩, fun e he _ => ?_⟩
      obtain ⟨it, hit⟩ := Option.ne_none_iff_exists'.1 fun hnone =>
        List.ne_nil_of_mem he (List.head?_eq_none_iff.1 hnone)
      -- the first timer waited before, so the alarm is for it and all the others
      have hfirst := hhead it hit
      have hmem : it ∈ q.timers :=
        (h.reset_entry hh hholds hheap (List.mem_of_mem_head? hit)).resolve_right (by omega)
      rw [hq₁.1, hq₁.2.1]
      refine (hw.armed it hmem (.inr hfirst)).imp_right fun ⟨a, ha, hall⟩ => ⟨a, ha, fun e' he' => ?_⟩
      have hle := hall it hmem
      rcases h.reset_entry hh hholds hheap he' with he' | hle'
      · exact hall e' he'
      · omega
    · refine ⟨?_, fun e he _ => .inr ⟨_, rfl, fun e' he' => le_of_head hholds.sorted hit e' he'⟩⟩
      show ∀ h ∈ q₁.handling, 0 < h.now
      rw [hq₁.2.2]
      rintro _ ⟨⟩

end TimerQueue

namespace TimerQueue

/-! ### What a step leaves of the timers -/

/-- How a timer that is there after a step came there, if the step calls none. -/
inductive Origin (q q' : TimerQueue) (p : Nat) : Timer → Prop
  | same {t : Timer} (ht : q.heap p = some t) (hbatch : p ∈ q.batch.map Prod.snd →
      q'.handling = q.handling ∧ q.cancelingTimers ⊆ q'.cancelingTimers) : Origin q q' p t
  | new {t : Timer} (hseq : q.numCreated < t.sequence) : Origin q q' p t
  | restarted {now : Int} {expired : List TimerEntry} (hh : q.handling = some ⟨now, expired, []⟩)
      (hp : p ∈ expired.map Prod.snd) {t : Timer} (ht : q.heap p = some t) {d : Nat} (hd : t.interval = some d)
      (hc : ⟨p, t.sequence⟩ ∉ q.cancelingTimers) : Origin q q' p { t with expiration := now + d }

/-- A step calls one timer, or none. -/
inductive View (q : TimerQueue) : TimerQueue → Prop
  | callback {now : Int} {expired todo : List TimerEntry} {it : TimerEntry}
      (hh : q.handling = some ⟨now, expired, it :: todo⟩) {t : Timer} (ht : q.heap it.2 = some t) :
      View q { q with handling := some ⟨now, expired, todo⟩, ran := q.ran ++ [⟨t, now⟩] }
  | other {q' : TimerQueue} (hran : q'.ran = q.ran) (hnum : q.numCreated ≤ q'.numCreated)
      (horigin : ∀ p t, q'.heap p = some t → q.Origin q' p t) : View q q'

theorem View.of_heap {q q' : TimerQueue} (hran : q'.ran = q.ran) (hnum : q'.numCreated = q.numCreated)
    (hheap : ∀ p t, q'.heap p = some t → q.heap p = some t) (hhandling : q'.handling = q.handling)
    (hcancel : q.cancelingTimers ⊆ q'.cancelingTimers) : q.View q' :=
  .other hran hnum.ge fun p t ht => .same (hheap p t ht) fun _ => ⟨hhandling, hcancel⟩

theorem View.new {q q' : TimerQueue} {p : Nat} {t : Timer} (hran : q'.ran = q.ran)
    (hnum : q'.numCreated = q.numCreated + 1) (hheap : q'.heap = (q.store p (some t)).heap)
    (hseq : t.sequence = q.numCreated + 1) (hhandling : q'.handling = q.handling)
    (hcancel : q.cancelingTimers ⊆ q'.cancelingTimers) : q.View q' := by
  refine .other hran (by omega) fun p' t' ht' => ?_
  rw [hheap] at ht'
  by_cases hp : p' = p
  · subst hp
    cases (heap_store ..).symm.trans ht'
    exact .new (by omega)
  · exact .same ((heap_store_of_ne hp _).symm.trans ht') fun _ => ⟨hhandling, hcancel⟩

theorem Canceled.heap_of_some {q q' : TimerQueue} {id : TimerId} (hc : q.Canceled id q') {p : Nat} {t : Timer}
    (ht : q'.heap p = some t) : q.heap p = some t := by
  cases hc with
  | noted => exact ht
  | missed => exact ht
  | removed ht₀ hseq he =>
    by_cases hp : p = id.timer
    · subst hp
      cases (heap_store ..).symm.trans ht
    · exact (heap_store_of_ne hp _).symm.trans ht

theorem Canceled.view {q q₀ q' : TimerQueue} {id : TimerId} (hc : q.Canceled id q') (hran : q.ran = q₀.ran)
    (hnum : q.numCreated = q₀.numCreated) (hheap : q.heap = q₀.heap) (hhandling : q.handling = q₀.handling)
    (hcancel : q.cancelingTimers = q₀.cancelingTimers) : q₀.View q' := by
  have hcanceling : q₀.cancelingTimers ⊆ q'.cancelingTimers := by
    rw [← hcancel]
    cases hc with
    | noted => exact List.subset_cons_self ..
    | _ => exact List.Subset.refl _
  obtain ⟨-, -, hhandling', hran', -, -, hnum'⟩ := hc.same
  exact .of_heap (hran'.trans hran) (hnum'.trans hnum) (fun p t ht => hheap ▸ hc.heap_of_some ht)
    (hhandling'.trans hhandling) hcanceling

theorem Effect.view {q q' : TimerQueue} {op : Op} (he : q.Effect op q') : q.View q' := by
  have hrfl := List.Subset.refl q.cancelingTimers
  cases he with
  | idle => exact .of_heap rfl rfl (fun p t ht => ht) rfl hrfl
  | @addTimer p hfree expiration interval clock =>
    obtain ⟨_, _, heq⟩ := added_eq (q.newTimer p expiration interval) p ⟨expiration, interval, q.numCreated + 1⟩ clock
    rw [heq]
    exact .new (p := p) (t := ⟨expiration, interval, q.numCreated + 1⟩) rfl rfl rfl rfl rfl hrfl
  | addElsewhere hfree expiration interval => exact .new rfl rfl rfl rfl rfl hrfl
  | returned id => exact .of_heap rfl rfl (fun p t ht => ht) rfl hrfl
  | canceled hc => exact hc.view rfl rfl rfl rfl rfl
  | cancelElsewhere id => exact .of_heap rfl rfl (fun p t ht => ht) rfl hrfl
  | @addFunctor p functors hf t ht clock =>
    obtain ⟨_, _, heq⟩ := added_eq { q with pendingFunctors := functors } p t clock
    rw [heq]
    exact .of_heap rfl rfl (fun p t ht => ht) rfl hrfl
  | cancelFunctor hf hc clock => exact hc.view rfl rfl rfl rfl rfl
  | alarm ha => exact .of_heap rfl rfl (fun p t ht => ht) rfl hrfl
  | beginRead hidle hactive =>
    refine .other rfl le_rfl fun p t ht => .same ht fun hp => ?_
    rw [Inv.batch_eq_nil hidle] at hp
    cases hp
  | callback hh ht => exact .callback hh ht
  | @endRead now expired hh q₁ q' hsame hholds hheap clock hq' =>
    have hq : q'.heap = q₁.heap ∧ q'.ran = q.ran ∧ q'.numCreated = q.numCreated := by
      obtain ⟨_, _, _, rfl⟩ := hsame
      rcases hq' with ⟨rfl, -⟩ | ⟨it, -, -, rfl⟩
      · exact ⟨rfl, rfl, rfl⟩
      · exact ⟨rfl, rfl, rfl⟩
    refine .other hq.2.1 hq.2.2.ge fun p t ht => ?_
    rw [hq.1, hheap] at ht
    split at ht
    · rename_i hp
      obtain ⟨t₀, d, ht₀, hd, hc, rfl⟩ := kept_eq_some ht
      exact .restarted hh hp ht₀ hd hc
    · rename_i hp
      refine .same ht fun hmem => ?_
      rw [batch, hh] at hmem
      exact (hp hmem).elim

/-! ### No callback comes too early -/

/-- The timer was called by the `handleRead` that is at work. -/
def Called (q : TimerQueue) (r : Ran) (p : Nat) : Prop :=
  ∃ h, q.handling = some h ∧ r.now = h.now ∧ p ∈ h.expired.map Prod.snd ∧ p ∉ h.todo.map Prod.snd

/-- `t` is due no earlier than an interval after the `handleRead` that called `r` read the clock. -/
def Spaced (r : Ran) (t : Timer) : Prop := ∃ d : Nat, r.timer.interval = some d ∧ r.now + d ≤ t.expiration

structure InTime (q : TimerQueue) : Prop where
  early : ∀ r ∈ q.ran, r.timer.expiration ≤ r.now
  known : ∀ r ∈ q.ran, r.timer.sequence ≤ q.numCreated
  spaced : q.ran.Pairwise fun r r' => r.timer.sequence = r'.timer.sequence → Spaced r r'.timer
  next : ∀ r ∈ q.ran, ∀ p t, q.heap p = some t → t.sequence = r.timer.sequence →
    t.interval = r.timer.interval ∧ (Spaced r t ∨ q.Called r p)

theorem Inv.sequence_le {q : TimerQueue} (h : q.Inv []) {p : Nat} {t : Timer} (ht : q.heap p = some t) :
    t.sequence ≤ q.numCreated := h.created.2 _ (h.live p t ht)

/-- Of the timers that are not deleted, no two have the same sequence number. -/
theorem Inv.timer_eq {q : TimerQueue} (h : q.Inv []) {id id' : TimerId} (hid : id ∈ q.created) (hid' : id' ∈ q.created)
    (hseq : id.sequence = id'.sequence) : id = id' := List.inj_on_of_nodup_map h.created.1 hid hid' hseq

/-- The callback that comes next. -/
theorem Inv.next_callback {q : TimerQueue} (h : q.Inv []) {now : Int} {expired todo : List TimerEntry} {it : TimerEntry}
    (hh : q.handling = some ⟨now, expired, it :: todo⟩) {t : Timer} (ht : q.heap it.2 = some t) :
    t.expiration ≤ now ∧ it.2 ∈ expired.map Prod.snd ∧ it.2 ∉ todo.map Prod.snd := by
  have hbatch : q.batch = expired := by
    rw [batch, hh]
  obtain ⟨hsuffix, hdue⟩ := h.handling _ hh
  have hit : it ∈ expired := hsuffix.subset (List.mem_cons_self ..)
  have hexp := h.expired it (hbatch ▸ hit)
  rw [ht, Option.map_some, Option.some.injEq] at hexp
  refine ⟨hexp ▸ hdue it hit, List.mem_map_of_mem hit, ?_⟩
  have hnodup : (q.batch.map Prod.snd ++ q.pendingAdds).Nodup := (List.nodup_append.1 h.holds.nodup).2.1
  rw [hbatch] at hnodup
  have htodo := ((hsuffix.map Prod.snd).sublist.nodup (List.nodup_append.1 hnodup).1)
  exact (List.nodup_cons.1 htodo).1

theorem InTime.callback {q : TimerQueue} (hi : q.InTime) (h : q.Inv []) {now : Int} {expired todo : List TimerEntry}
    {it : TimerEntry} (hh : q.handling = some ⟨now, expired, it :: todo⟩) {t : Timer} (ht : q.heap it.2 = some t) :
    { q with handling := some (Handling.mk now expired todo), ran := q.ran ++ [Ran.mk t now] }.InTime := by
  obtain ⟨hdue, hbatch, hrest⟩ := h.next_callback hh ht
  -- it was not called by this `handleRead` before
  have hlast : ∀ r ∈ q.ran, r.timer.sequence = t.sequence → Spaced r t := by
    intro r hr hseq
    refine (hi.next r hr it.2 t ht hseq.symm).2.resolve_right ?_
    rintro ⟨_, hh', -, -, hnot⟩
    cases hh.symm.trans hh'
    exact hnot (List.mem_cons_self ..)
  refine ⟨fun r hr => ?_, fun r hr => ?_, ?_, fun r hr p t' ht' hseq => ?_⟩
  · rcases List.mem_append.1 hr with hr | hr
    · exact hi.early r hr
    · cases List.mem_singleton.1 hr
      exact hdue
  · rcases List.mem_append.1 hr with hr | hr
    · exact hi.known r hr
    · cases List.mem_singleton.1 hr
      exact h.sequence_le ht
  · refine List.pairwise_append.2 ⟨hi.spaced, List.pairwise_singleton _ _, fun r hr r' hr' hseq => ?_⟩
    cases List.mem_singleton.1 hr'
    exact hlast r hr hseq
  · rcases List.mem_append.1 hr with hr | hr
    · refine (hi.next r hr p t' ht' hseq).imp_right (Or.imp_right ?_)
      rintro ⟨_, hh', hnow, hp, hnot⟩
      cases hh.symm.trans hh'
      exact ⟨_, rfl, hnow, hp, fun hmem => hnot (List.mem_cons_of_mem _ hmem)⟩
    · cases List.mem_singleton.1 hr
      cases congrArg TimerId.timer (h.timer_eq (h.live p t' ht') (h.live it.2 t ht) hseq)
      cases ht.symm.trans ht'
      exact ⟨rfl, .inr ⟨_, rfl, rfl, hbatch, hrest⟩⟩

theorem InTime.view {q q' : TimerQueue} (hi : q.InTime) (h : q.Inv []) (hv : q.View q') : q'.InTime := by
  cases hv with
  | callback hh ht => exact hi.callback h hh ht
  | other hran hnum horigin =>
    refine ⟨hran ▸ hi.early, fun r hr => (hi.known r (hran ▸ hr)).trans hnum, hran ▸ hi.spaced, ?_⟩
    rw [hran]
    intro r hr p t ht hseq
    cases horigin p t ht with
    | same ht₀ hbatch =>
      refine (hi.next r hr p t ht₀ hseq).imp_right (Or.imp_right ?_)
      rintro ⟨h₁, hh, hnow, hp, hnot⟩
      have hmem : p ∈ q.batch.map Prod.snd := by
        rw [batch, hh]
        exact hp
      exact ⟨h₁, (hbatch hmem).1.trans hh, hnow, hp, hnot⟩
    | new hlt =>
      have := hi.known r hr
      omega
    | @restarted now expired hh hp t₀ ht₀ d hd hc =>
      obtain ⟨hint, hnext⟩ := hi.next r hr p t₀ ht₀ hseq
      refine ⟨hint, .inl ⟨d, hint ▸ hd, ?_⟩⟩
      show r.now + d ≤ now + d
      rcases hnext with ⟨d', hd', hle⟩ | ⟨_, hh', hnow, -⟩
      · -- it had expired by `now`, an interval after `r`
        have hbatch : q.batch = expired := by
          rw [batch, hh]
        obtain ⟨e, he, rfl⟩ := List.mem_map.1 hp
        have hexp := h.expired e (hbatch ▸ he)
        rw [ht₀, Option.map_some, Option.some.injEq] at hexp
        have hdue : e.1 ≤ now := (h.handling _ hh).2 e he
        omega
      · cases hh.symm.trans hh'
        dsimp only at hnow
        omega

end TimerQueue

namespace TimerQueue

/-! ### Every timer that is due is called -/

def Op.isEndRead : Op → Bool
  | .endRead _ => true
  | _ => false

/-- The timer that is called, and the time. -/
def call (r : Ran) : Option Timer × Int := (some r.timer, r.now)

def callAt (q : TimerQueue) (now : Int) (e : TimerEntry) : Option Timer × Int := (q.heap e.2, now)

/-- `handleRead` has called the first of the timers that were due in `q₀`. -/
def Calling (q₀ : TimerQueue) (now : Int) (q : TimerQueue) : Prop :=
  ∃ called todo, called ++ todo = q₀.timers.filter (TimerEntry.due now) ∧
    q.handling = some ⟨now, called ++ todo, todo⟩ ∧
    q.ran.map call = q₀.ran.map call ++ called.map (q₀.callAt now) ∧
    ∀ e ∈ called ++ todo, q.heap e.2 = q₀.heap e.2

theorem Calling.effect {q₀ q q' : TimerQueue} {now : Int} {op : Op} (hop : op.isEndRead = false) (h : q.Inv [])
    (hc : q₀.Calling now q) (he : q.Effect op q') : q₀.Calling now q' := by
  obtain ⟨called, todo, hdue, hh, hran, hheap⟩ := hc
  have hbatch : q.batch = called ++ todo := by
    rw [batch, hh]
  have hheap' : ∀ e ∈ called ++ todo, q'.heap e.2 = q₀.heap e.2 := by
    intro e hmem
    refine (h.heap_others he (Inv.mem_others_of_batch (hbatch ▸ hmem)) ?_).trans (hheap e hmem)
    rintro clock rfl
    cases hop
  have hsame : q'.handling = q.handling → q'.ran = q.ran → q₀.Calling now q' := fun hhandling hran' =>
    ⟨called, todo, hdue, hhandling.trans hh, hran' ▸ hran, hheap'⟩
  cases he with
  | idle => exact hsame rfl rfl
  | addTimer hfree expiration interval clock =>
    obtain ⟨_, _, heq⟩ := added_eq (q.newTimer _ expiration interval) _ ⟨expiration, interval, q.numCreated + 1⟩ clock
    rw [heq] at hsame ⊢
    exact hsame rfl rfl
  | addElsewhere hfree expiration interval => exact hsame rfl rfl
  | returned id => exact hsame rfl rfl
  | canceled hc => exact hsame hc.same.2.2.1 hc.same.2.2.2.1
  | cancelElsewhere id => exact hsame rfl rfl
  | @addFunctor p functors hf t ht clock =>
    obtain ⟨_, _, heq⟩ := added_eq { q with pendingFunctors := functors } p t clock
    rw [heq] at hsame ⊢
    exact hsame rfl rfl
  | cancelFunctor hf hc clock => exact hsame hc.same.2.2.1 hc.same.2.2.2.1
  | alarm ha => exact hsame rfl rfl
  | beginRead hidle hactive => cases hidle.symm.trans hh
  | @callback now' expired todo' it hh' t ht =>
    cases hh.symm.trans hh'
    have happend : called ++ it :: todo' = called ++ [it] ++ todo' := (List.append_cons ..)
    refine ⟨called ++ [it], todo', happend ▸ hdue, by rw [happend], ?_, happend ▸ hheap'⟩
    have hit := hheap it (List.mem_append_right _ (List.mem_cons_self ..))
    rw [ht] at hit
    rw [List.map_append, hran, List.map_append, List.append_assoc, List.map_singleton, List.map_singleton, callAt,
      ← hit]
    rfl
  | endRead => cases hop

end TimerQueue

open TimerQueue in
/-- By the time `handleRead` has called what it has to call, that is all timers that were due when it began, in the
order in which they expired, each of them as it was then, whatever was added and canceled in between. -/
theorem due_timers_are_called (before during : List TimerQueue.Op) {q q' : TimerQueue} {now : Int}
    {expired : List TimerEntry} (hq : run {} before = .ok q) (hidle : q.handling = none)
    (hduring : ∀ op ∈ during, op.isEndRead = false) (hr : q.run (.beginRead now :: during) = .ok q')
    (hdone : q'.handling = some ⟨now, expired, []⟩) :
    q'.ran.map call = q.ran.map call ++ (q.timers.filter (TimerEntry.due now)).map (q.callAt now) := by
  have hinv := inv_init.run hq
  obtain ⟨q₁, hs, hr⟩ := Except.foldlM_cons_ok.1 hr
  have hbegin : q.Calling now q₁ := by
    have htake := (due_first hinv.holds.sorted now).1
    have hread : { q with readable := false }.Holds q.others := hinv.holds.congr rfl rfl rfl
    obtain ⟨active, hrun, -⟩ := hread.getExpired now
    rw [step, hidle] at hs
    dsimp only [Option.isSome_none] at hs
    rw [if_neg Bool.false_ne_true, beginRead, hrun] at hs
    cases hs
    exact ⟨[], _, htake, rfl, (List.append_nil _).symm, fun e _ => rfl⟩
  obtain ⟨-, called, todo, hdue, hh, hran, -⟩ :=
    run_keeps Calling.effect hduring (hinv.effect (effect_of_step hinv hs)) hbegin hr
  cases hdone.symm.trans hh
  rw [hran, ← hdue, List.append_nil]

open TimerQueue in
theorem due_timers_are_called_in_order :
    ∃ q, run {} [.addTimer 7 20 none 10, .addTimer 8 15 (some 5) 10, .addTimer 9 90 none 10] = .ok q ∧
      ∃ q', q.run [.beginRead 30, .callback, .addTimer 6 25 none 31, .cancel ⟨7, 1⟩, .callback] = .ok q' ∧
        q'.ran = [⟨⟨15, some 5, 2⟩, 30⟩, ⟨⟨20, none, 1⟩, 30⟩] ∧
        q'.ran.map call = q.ran.map call ++ (q.timers.filter (TimerEntry.due 30)).map (q.callAt 30) :=
  ⟨_, rfl, _, rfl, rfl, due_timers_are_called [.addTimer 7 20 none 10, .addTimer 8 15 (some 5) 10, .addTimer 9 90 none 10]
    [.callback, .addTimer 6 25 none 31, .cancel ⟨7, 1⟩, .callback] rfl rfl (by decide) rfl rfl⟩

namespace TimerQueue

/-! ### Canceling -/

def todo (q : TimerQueue) : List TimerEntry :=
  match q.handling with
  | none => []
  | some h => h.todo

/-- How often the timer with this sequence number was called. -/
def runs (q : TimerQueue) (sequence : Nat) : Nat := q.ran.countP fun r => decide (r.timer.sequence = sequence)

/-- The step calls `cancelInLoop`. -/
def Cancels (q : TimerQueue) (id : TimerId) : Op → Prop
  | .cancel id' => id' = id
  | .functor _ => q.pendingFunctors.head? = some (.cancelInLoop id)
  | _ => False

/-- The timer is not in `timers_` yet. -/
def Waits (q : TimerQueue) (id : TimerId) : Prop :=
  id.timer ∈ q.pendingAdds ∧ (q.heap id.timer).map Timer.sequence = some id.sequence

/-- If the timer with this sequence number is there at all, then `reset` is going to delete it. -/
structure Gone (sequence : Nat) (q : TimerQueue) : Prop where
  old : sequence ≤ q.numCreated
  doomed : ∀ p t, q.heap p = some t → t.sequence = sequence →
    p ∈ q.batch.map Prod.snd ∧ (t.interval = none ∨ ⟨p, sequence⟩ ∈ q.cancelingTimers)

/-- It is not one of those that `handleRead` has yet to call. -/
def Over (sequence : Nat) (q : TimerQueue) : Prop :=
  ∀ p t, q.heap p = some t → t.sequence = sequence → p ∉ q.todo.map Prod.snd

/-- A timer that is gone stays where it is until it is deleted. -/
theorem Gone.same {sequence : Nat} {q q' : TimerQueue} (hg : Gone sequence q) {p : Nat} {t : Timer}
    (ho : q.Origin q' p t) (hseq : t.sequence = sequence) :
    q.heap p = some t ∧ q'.handling = q.handling ∧ q.cancelingTimers ⊆ q'.cancelingTimers := by
  cases ho with
  | same ht hbatch => exact ⟨ht, hbatch (hg.doomed p t ht hseq).1⟩
  | new hlt =>
    have := hg.old
    omega
  | restarted hh hp ht hd hc =>
    rcases (hg.doomed p _ ht hseq).2 with hnone | hcanceled
    · cases hd.symm.trans hnone
    · exact (hc (hseq ▸ hcanceled)).elim

theorem Gone.view {sequence : Nat} {q q' : TimerQueue} (hg : Gone sequence q) (hv : q.View q') : Gone sequence q' := by
  cases hv with
  | callback hh ht =>
    refine ⟨hg.old, fun p t' ht' hseq => ?_⟩
    have hdoomed := hg.doomed p t' ht' hseq
    rw [batch, hh] at hdoomed
    exact hdoomed
  | other hran hnum horigin =>
    refine ⟨hg.old.trans hnum, fun p t ht hseq => ?_⟩
    obtain ⟨ht₀, hhandling, hcancel⟩ := hg.same (horigin p t ht) hseq
    obtain ⟨hbatch, hdoomed⟩ := hg.doomed p t ht₀ hseq
    rw [batch, hhandling]
    exact ⟨hbatch, hdoomed.imp_right fun hmem => hcancel hmem⟩

theorem Gone.runs_view {sequence : Nat} {q q' : TimerQueue} (hg : Gone sequence q) (h : q.Inv []) (hv : q.View q') :
    q'.runs sequence = q.runs sequence ∧ (Over sequence q → Over sequence q') ∨
      q'.runs sequence = q.runs sequence + 1 ∧ ¬ Over sequence q ∧ Over sequence q' := by
  cases hv with
  | @callback now expired todo it hh t ht =>
    have htodo : q.todo = it :: todo := by
      rw [TimerQueue.todo, hh]
    rw [runs, runs, List.countP_append, List.countP_singleton]
    by_cases hseq : t.sequence = sequence
    · refine .inr ⟨by rw [if_pos (decide_eq_true hseq)], fun hover => ?_, fun p t' ht' hseq' => ?_⟩
      · refine hover it.2 t ht hseq ?_
        rw [htodo]
        exact List.mem_cons_self ..
      · cases congrArg TimerId.timer (h.timer_eq (h.live p t' ht') (h.live it.2 t ht) (hseq'.trans hseq.symm))
        exact (h.next_callback hh ht).2.2
    · refine .inl ⟨by rw [if_neg (by simpa using hseq)]; rfl, fun hover p t' ht' hseq' hmem => ?_⟩
      refine hover p t' ht' hseq' ?_
      rw [htodo]
      exact List.mem_cons_of_mem _ hmem
  | other hran hnum horigin =>
    refine .inl ⟨by rw [runs, runs, hran], fun hover p t ht hseq => ?_⟩
    obtain ⟨ht₀, hhandling, -⟩ := hg.same (horigin p t ht) hseq
    rw [TimerQueue.todo, hhandling]
    exact hover p t ht₀ hseq

/-- Once gone, it is called once more at most, -/
theorem Gone.runs_le {sequence : Nat} {q q' : TimerQueue} (hg : Gone sequence q) (h : q.Inv []) {ops : List Op}
    (hr : q.run ops = .ok q') : q'.runs sequence ≤ q.runs sequence + 1 := by
  have hstep : ∀ {q₁ op q₂}, True → q₁.Inv [] →
      Gone sequence q₁ ∧ (q₁.runs sequence ≤ q.runs sequence ∨
        q₁.runs sequence ≤ q.runs sequence + 1 ∧ Over sequence q₁) → q₁.Effect op q₂ →
      Gone sequence q₂ ∧ (q₂.runs sequence ≤ q.runs sequence ∨
        q₂.runs sequence ≤ q.runs sequence + 1 ∧ Over sequence q₂) := by
    rintro q₁ op q₂ - h₁ ⟨hg₁, hle⟩ he
    refine ⟨hg₁.view he.view, ?_⟩
    rcases hg₁.runs_view h₁ he.view with ⟨heq, hover⟩ | ⟨heq, hnot, hover⟩
    · rw [heq]
      exact hle.imp_right (And.imp_right hover)
    · have hle := hle.resolve_right fun hle => hnot hle.2
      exact .inr ⟨by omega, hover⟩
  obtain ⟨-, -, hle⟩ := run_keeps hstep (fun _ _ => trivial) h ⟨hg, .inl le_rfl⟩ hr
  omega

/-- and not at all if it is not in the way of `handleRead`. -/
theorem Gone.runs_eq {sequence : Nat} {q q' : TimerQueue} (hg : Gone sequence q) (hover : Over sequence q)
    (h : q.Inv []) {ops : List Op} (hr : q.run ops = .ok q') : q'.runs sequence = q.runs sequence := by
  have hstep : ∀ {q₁ op q₂}, True → q₁.Inv [] →
      Gone sequence q₁ ∧ q₁.runs sequence = q.runs sequence ∧ Over sequence q₁ → q₁.Effect op q₂ →
      Gone sequence q₂ ∧ q₂.runs sequence = q.runs sequence ∧ Over sequence q₂ := by
    rintro q₁ op q₂ - h₁ ⟨hg₁, heq₁, hover₁⟩ he
    refine ⟨hg₁.view he.view, ?_⟩
    rcases hg₁.runs_view h₁ he.view with ⟨heq, hover₂⟩ | ⟨-, hnot, -⟩
    · exact ⟨heq.trans heq₁, hover₂ hover₁⟩
    · exact (hnot hover₁).elim
  exact (run_keeps hstep (fun _ _ => trivial) h ⟨hg, rfl, hover⟩ hr).2.2.1

/-- Only the timer itself can be what is left of it. -/
theorem Gone.of_canceled {q q' : TimerQueue} {id : TimerId} (h : q.Inv []) (hid : id ∈ q.created) (hw : ¬ q.Waits id)
    (hc : q.Canceled id q') : Gone id.sequence q' := by
  have hlive : ∀ {p t}, q.heap p = some t → t.sequence = id.sequence → p = id.timer := fun ht hseq =>
    congrArg TimerId.timer (h.timer_eq (h.live _ _ ht) hid hseq)
  -- the places where it can be if it is not in `activeTimers_`
  have hbatch : id ∉ q.activeTimers → ∀ {p t}, q.heap p = some t → t.sequence = id.sequence →
      p ∈ q.batch.map Prod.snd := by
    intro hactive p t ht hseq
    obtain rfl := hlive ht hseq
    have hmem := (h.holds.live id.timer).1 (by rw [ht]; rfl)
    rcases List.mem_append.1 hmem with haddr | hother
    · obtain ⟨e, he, heq⟩ := List.mem_map.1 haddr
      have hidOf : q.idOf e = id := by
        rw [idOf, sequenceAt, heq, ht]
        exact congrArg (TimerId.mk id.timer) hseq
      exact (hactive (h.holds.active.mem_iff.2 (hidOf ▸ List.mem_map_of_mem he))).elim
    · have hother : id.timer ∈ q.batch.map Prod.snd ++ q.pendingAdds := hother
      refine (List.mem_append.1 hother).resolve_right fun hpending => hw ⟨hpending, ?_⟩
      rw [ht, Option.map_some, hseq]
  have hle := h.created.2 id hid
  cases hc with
  | removed ht hseq he =>
    refine ⟨hle, fun p t ht' hseq' => ?_⟩
    by_cases hp : p = id.timer
    · subst hp
      cases (heap_store ..).symm.trans ht'
    · exact (hp (hlive ((heap_store_of_ne hp _).symm.trans ht') hseq')).elim
  | noted hactive hcalling =>
    refine ⟨hle, fun p t ht hseq => ⟨hbatch hactive ht hseq, .inr ?_⟩⟩
    rw [hlive ht hseq]
    exact List.mem_cons_self ..
  | missed hactive hcalling =>
    refine ⟨hle, fun p t ht hseq => ?_⟩
    have hmem := hbatch hactive ht hseq
    have hidle := h.calling
    rw [hcalling, eq_comm, Option.isSome_eq_false_iff, Option.isNone_iff_eq_none] at hidle
    rw [Inv.batch_eq_nil hidle] at hmem
    cases hmem

theorem canceled_of_step {q q' : TimerQueue} {id : TimerId} {op : Op} (h : q.Inv []) (hop : q.Cancels id op)
    (hs : q.step op = .ok q') :
    ∃ functors, q.pendingAdds = { q with pendingFunctors := functors }.pendingAdds ∧
      { q with pendingFunctors := functors }.Inv [] ∧ { q with pendingFunctors := functors }.Canceled id q' := by
  cases op with
  | cancel id' =>
    cases hop
    obtain ⟨q₁, hrun, hc⟩ := h.holds.canceled id
    cases Except.ok_unique hrun hs
    exact ⟨q.pendingFunctors, rfl, h, hc⟩
  | functor clock =>
    obtain ⟨functors, hf⟩ := List.head?_eq_some_iff.1 hop
    have hnext := h.takeCancel hf
    obtain ⟨q₁, hrun, hc⟩ := hnext.holds.canceled id
    rw [step, hf] at hs
    cases Except.ok_unique hrun hs
    refine ⟨functors, ?_, hnext, hc⟩
    rw [pendingAdds, hf]
    rfl
  | _ => exact hop.elim

end TimerQueue

open TimerQueue in
/-- Whoever cancels a timer that `addTimerInLoop` has put into the sets, it does not run any more; only if it expired
and its turn is still to come in the same `handleRead`, it runs this once. -/
theorem cancel_is_final (before after : List TimerQueue.Op) (op : TimerQueue.Op) (id : TimerId) {q q₁ q₂ : TimerQueue}
    (hq : run {} before = .ok q) (hid : id ∈ q.created) (hw : ¬ q.Waits id) (hop : q.Cancels id op)
    (hs : q.step op = .ok q₁) (hr : q₁.run after = .ok q₂) :
    q₂.runs id.sequence ≤ q.runs id.sequence + if id ∈ q.todo.map q.idOf then 1 else 0 := by
  have hinv := inv_init.run hq
  obtain ⟨functors, hadds, hnext, hc⟩ := canceled_of_step hinv hop hs
  have hg : Gone id.sequence q₁ := Gone.of_canceled hnext hid (fun hwaits => hw ⟨hadds ▸ hwaits.1, hwaits.2⟩) hc
  have hinv₁ := hnext.canceled hc
  have hran : q₁.runs id.sequence = q.runs id.sequence := by
    rw [runs, hc.same.2.2.2.1]
    rfl
  rw [← hran]
  split
  · exact hg.runs_le hinv₁ hr
  · rename_i hnot
    refine (hg.runs_eq (fun p t ht hseq hmem => hnot ?_) hinv₁ hr).le
    have ht₀ : q.heap p = some t := hc.heap_of_some ht
    obtain rfl : p = id.timer := congrArg TimerId.timer (hinv.timer_eq (hinv.live p t ht₀) hid hseq)
    have htodo : q₁.todo = q.todo := by
      rw [todo, hc.same.2.2.1]
      rfl
    obtain ⟨e, he, heq⟩ := List.mem_map.1 hmem
    refine List.mem_map.2 ⟨e, htodo ▸ he, ?_⟩
    rw [idOf, sequenceAt, heq, ht₀]
    exact congrArg (TimerId.mk id.timer) hseq

open TimerQueue in
theorem cancel_is_final_repeated :
    ∃ q q₁ q₂, run {} [.addTimer 7 20 (some 5) 10, .addTimer 8 20 (some 5) 10, .beginRead 30, .callback] = .ok q ∧
      q.step (.cancel ⟨8, 2⟩) = .ok q₁ ∧
      q₁.run [.callback, .endRead 31, .beginRead 40, .callback, .callback, .endRead 41] = .ok q₂ ∧
      q₂.ran.length = 3 ∧ q₂.runs 2 ≤ q.runs 2 + if (⟨8, 2⟩ : TimerId) ∈ q.todo.map q.idOf then 1 else 0 :=
  ⟨_, _, _, rfl, rfl, rfl, rfl, cancel_is_final
    [.addTimer 7 20 (some 5) 10, .addTimer 8 20 (some 5) 10, .beginRead 30, .callback]
    [.callback, .endRead 31, .beginRead 40, .callback, .callback, .endRead 41] (.cancel ⟨8, 2⟩) ⟨8, 2⟩ rfl
    (.head _) (fun h => List.not_mem_nil h.1) rfl rfl rfl⟩

-- a timer that is canceled in the loop before its functor was called runs all the same
example : (TimerQueue.run {} [.addTimerElsewhere 7 20 none, .returnElsewhere ⟨7, 1⟩, .cancel ⟨7, 1⟩, .functor 10,
    .beginRead 30, .callback]).map (TimerQueue.runs · 1) = .ok 1 := by decide

end IMServer.Net
