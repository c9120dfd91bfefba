import IMServer.Net.PollFds

/-!
# Polling

The loop asks its poller what happened, between the requests of its channels. `PollPoller` looks at all its
entries. `EPollPoller` hands on what `epoll_wait` has put into an array, and that may be less than there is:
the array has room for sixteen entries at first, and grows when it was full.
-/

namespace IMServer.Net

variable {ι : Type} [DecidableEq ι] {fd : ι → Nat} {m : Interest ι}

namespace EPollPoller
variable {p p' : EPollPoller ι}

/-- A request leaves the kernel's list in the order of the descriptors, and the array as large as it is. -/
def Keeps (p p' : EPollPoller ι) : Prop :=
  (AssocMap.Sorted p.epoll → AssocMap.Sorted p'.epoll) ∧ p'.room = p.room

omit [DecidableEq ι] in
theorem update_keeps {o : EpollCtl} {c : ι} (h : p.update fd o c = .ok p') : Keeps p p' := by
  unfold EPollPoller.update at h
  split at h <;> cases h
  · exact ⟨fun hs => AssocMap.sorted_insert hs _ _, rfl⟩
  · exact ⟨fun hs => AssocMap.sorted_insert hs _ _, rfl⟩
  · exact ⟨fun hs => hs.filter _, rfl⟩

theorem updateChannel_keeps {c : ι} (h : p.updateChannel fd c = .ok p') : Keeps p p' := by
  unfold updateChannel at h
  split at h
  · split at h
    · exact (update_keeps h :)
    · cases h
  · split at h
    · exact (update_keeps h :)
    · cases h
  · split at h
    · split at h
      · obtain ⟨p₁, h₁, heq⟩ := Except.bind_eq_ok.1 h
        cases heq
        exact (update_keeps h₁ :)
      · exact update_keeps h
    · cases h

theorem removeChannel_keeps {c : ι} (h : p.removeChannel fd c = .ok p') : Keeps p p' := by
  unfold removeChannel at h
  split at h
  · dsimp only at h
    split at h
    · cases h
    · obtain ⟨p₁, h₁, heq⟩ := Except.bind_eq_ok.1 h
      cases heq
      exact (update_keeps h₁ :)
    · cases h
      exact ⟨id, rfl⟩
  · cases h

theorem step_keeps {op : PollOp ι} (h : p.step fd op = .ok p') : Keeps p p' := by
  cases op with
  | update c e => exact (updateChannel_keeps h :)
  | remove c => exact removeChannel_keeps h

/-- What holds of the poller of a loop. -/
structure Inv (fd : ι → Nat) (m : Interest ι) (p : EPollPoller ι) : Prop extends Rel fd m p where
  trim : p.Trim
  sorted : AssocMap.Sorted p.epoll
  room : kInitEventListSize ≤ p.room

namespace Inv
variable {ready : Nat → Nat} {reported : List (ι × Nat)}

theorem step (hi : Inv fd m p) {op : PollOp ι} (ha : m.Accepts fd op) (hproper : m.Proper op) :
    ∃ p', p.step fd op = .ok p' ∧ Inv fd (m.next op) p' := by
  obtain ⟨p', h, hr, ht⟩ := hi.toRel.trim hi.trim ha hproper
  obtain ⟨hsorted, hroom⟩ := step_keeps h
  exact ⟨p', h, hr, ht, hsorted hi.sorted, hroom.symm ▸ hi.room⟩

omit [DecidableEq ι] in
theorem mem_readyList (hi : Inv fd m p) {c : ι} {r : Nat} :
    (c, r) ∈ p.readyList ready ↔ (∃ e, AssocMap.find p.epoll (fd c) = some (e, c)) ∧ r = ready (fd c) ∧ 0 < r := by
  rw [readyList, List.mem_filter, List.mem_map]
  constructor
  · rintro ⟨⟨⟨f, e, c'⟩, hmem, heq⟩, hpos⟩
    obtain ⟨rfl, rfl⟩ := Prod.mk.inj heq
    have hfind := AssocMap.find_of_mem (AssocMap.nodup_of_sorted hi.sorted) hmem
    obtain ⟨rfl, -⟩ := (hi.epoll _ _ _).1 hfind
    exact ⟨⟨e, hfind⟩, rfl, by simpa using hpos⟩
  · rintro ⟨⟨e, hfind⟩, rfl, hpos⟩
    exact ⟨⟨_, AssocMap.mem_of_find hfind, rfl⟩, by simpa using hpos⟩

omit [DecidableEq ι] in
/-- No channel is ready twice. -/
theorem nodup_readyList (hi : Inv fd m p) : (p.readyList ready).Nodup := by
  refine List.Nodup.filter _ (List.pairwise_map.2 (hi.sorted.imp_of_mem ?_))
  rintro ⟨f, e, c⟩ ⟨f', e', c'⟩ hmem hmem' hlt heq
  obtain ⟨rfl, -⟩ := Prod.mk.inj heq
  have hnodup := AssocMap.nodup_of_sorted hi.sorted
  obtain ⟨rfl, -⟩ := (hi.epoll _ _ _).1 (AssocMap.find_of_mem hnodup hmem)
  obtain ⟨rfl, -⟩ := (hi.epoll _ _ _).1 (AssocMap.find_of_mem hnodup hmem')
  exact absurd hlt (Nat.lt_irrefl _)

/-- All that is reported is handed on. -/
theorem poll (hi : Inv fd m p) (hw : p.EpollWait ready reported) :
    p.poll fd reported =
      .ok (reported, if reported.length = p.room then { p with room := p.room * 2 } else p) := by
  have hroom := hi.room
  obtain ⟨hsub, hlen⟩ := hw
  have hchecked : ∀ x ∈ reported, (if AssocMap.find p.channels (fd x.1) = some x.1 then .ok x else .error .assertion :
      Except Fault (ι × Nat)) = .ok x := by
    rintro ⟨c, r⟩ hx
    obtain ⟨⟨e, hfind⟩, -⟩ := hi.mem_readyList.1 (hsub.subset hx)
    obtain ⟨-, hadd, -⟩ := (hi.epoll _ _ _).1 hfind
    obtain ⟨e', he'⟩ := hi.watched_of (c := c) (by simp [hadd])
    exact if_pos ((hi.channels _ _).2 ⟨rfl, e', he'⟩)
  unfold EPollPoller.poll
  split
  · rw [fillActiveChannels, if_pos (by omega), Except.mapM_eq_ok hchecked, List.map_id']
    rfl
  · next hnone =>
    obtain rfl := List.eq_nil_of_length_eq_zero (Nat.eq_zero_of_not_pos hnone)
    unfold kInitEventListSize at hroom
    rw [if_neg]
    show 0 ≠ p.room
    omega

omit [DecidableEq ι] in
/-- A larger array changes nothing else. -/
theorem grown (hi : Inv fd m p) (n : Nat) (h : p.room ≤ n) : Inv fd m { p with room := n } where
  toRel := ⟨hi.channels, hi.events, hi.new, hi.deleted, hi.epoll⟩
  trim := hi.trim
  sorted := hi.sorted
  room := hi.room.trans h

theorem polled (hi : Inv fd m p) (hw : p.EpollWait ready reported) :
    ∃ p', p.poll fd reported = .ok (reported, p') ∧ Inv fd m p' := by
  refine ⟨_, hi.poll hw, ?_⟩
  split
  · exact hi.grown _ (by omega)
  · exact hi

theorem calls {cs : List (PollCall ι)} (hi : Inv fd m p) (h : m.AllAccepted fd (PollCall.requests cs))
    (hproper : m.AllProper (PollCall.requests cs)) (hk : KernelReports fd p cs) :
    ∃ p', p.calls fd cs = .ok p' ∧ Inv fd (m.run (PollCall.requests cs)) p' := by
  unfold EPollPoller.calls
  induction cs generalizing m p with
  | nil => exact ⟨p, rfl, hi⟩
  | cons c cs ih =>
    cases c with
    | request op =>
      obtain ⟨p₁, h₁, hi₁⟩ := hi.step h.1 hproper.1
      obtain ⟨p', h', hi'⟩ := ih hi₁ h.2 hproper.2 (hk p₁ h₁)
      exact ⟨p', Except.foldlM_cons_ok.2 ⟨p₁, h₁, h'⟩, hi'⟩
    | poll ready reported =>
      obtain ⟨p₁, h₁, hi₁⟩ := hi.polled hk.1
      obtain ⟨p', h', hi'⟩ := ih hi₁ h hproper (hk.2 _ p₁ h₁)
      refine ⟨p', Except.foldlM_cons_ok.2 ⟨p₁, ?_, h'⟩, hi'⟩
      rw [call, h₁]
      rfl

theorem of_calls {cs : List (PollCall ι)} (hi : Inv fd m p) (hproper : m.AllProper (PollCall.requests cs))
    (hk : KernelReports fd p cs) (h : p.calls fd cs = .ok p') : m.AllAccepted fd (PollCall.requests cs) := by
  unfold EPollPoller.calls at h
  induction cs generalizing m p with
  | nil => trivial
  | cons c cs ih =>
    obtain ⟨p₁, h₁, h⟩ := Except.foldlM_cons_ok.1 h
    cases c with
    | request op =>
      have ha : m.Accepts fd op := by
        by_contra ha
        rw [call, hi.refuses ha] at h₁
        cases h₁
      obtain ⟨p₂, h₂, hi₂⟩ := hi.step ha hproper.1
      obtain rfl := Except.ok_unique h₂ h₁
      exact ⟨ha, ih hi₂ hproper.2 (hk _ h₂) h⟩
    | poll ready reported =>
      obtain ⟨p₂, h₂, hi₂⟩ := hi.polled hk.1
      rw [call, h₂] at h₁
      cases h₁
      exact ih hi₂ hproper (hk.2 _ _ h₂) h

omit [DecidableEq ι] in
theorem find_epoll (hi : Inv fd m p) {c : ι} :
    (∃ e, AssocMap.find p.epoll (fd c) = some (e, c)) ↔ ∃ e, m c = .watched e ∧ e ≠ kNoneEvent := by
  constructor
  · rintro ⟨e, hfind⟩
    obtain ⟨-, hadd, -⟩ := (hi.epoll _ _ _).1 hfind
    obtain ⟨e', he'⟩ := hi.watched_of (c := c) (by simp [hadd])
    refine ⟨e', he', ?_⟩
    rw [← hi.events c e' he']
    exact hi.trim c hadd
  · rintro ⟨e, he, hne⟩
    exact ⟨e, (hi.epoll _ _ _).2 ⟨rfl, hi.added he hne, hi.events c e he⟩⟩

omit [DecidableEq ι] in
theorem watches_iff (hi : Inv fd m p) {f : Nat} {e : Events} :
    p.Watches f e ↔ ∃ c, fd c = f ∧ m c = .watched e ∧ e ≠ kNoneEvent := by
  constructor
  · intro h
    obtain ⟨c, hfd, he, hadd⟩ := hi.of_watches h
    refine ⟨c, hfd, he, ?_⟩
    rw [← hi.events c e he]
    exact hi.trim c hadd
  · rintro ⟨c, rfl, he, hne⟩
    exact hi.watches he hne

end Inv

omit [DecidableEq ι] in
theorem inv_new : Inv fd (fun _ => .fresh) ({} : EPollPoller ι) where
  toRel := rel_new
  trim c h := by cases h
  sorted := List.Pairwise.nil
  room := Nat.le_refl _

end EPollPoller

namespace PollPoller
variable {p p' : PollPoller ι}

theorem Rel.calls {cs : List (PollCall ι)} (hr : Rel fd m p) (h : m.AllAccepted fd (PollCall.requests cs))
    (hproper : m.AllProper (PollCall.requests cs)) :
    ∃ p', p.calls fd cs = .ok p' ∧ Rel fd (m.run (PollCall.requests cs)) p' := by
  unfold PollPoller.calls
  induction cs generalizing m p with
  | nil => exact ⟨p, rfl, hr⟩
  | cons c cs ih =>
    cases c with
    | request op =>
      obtain ⟨p₁, h₁, hr₁⟩ := hr.step h.1 hproper.1
      obtain ⟨p', h', hr'⟩ := ih hr₁ h.2 hproper.2
      exact ⟨p', Except.foldlM_cons_ok.2 ⟨p₁, h₁, h'⟩, hr'⟩
    | poll ready reported =>
      obtain ⟨l, hl, -⟩ := hr.poll ready
      obtain ⟨p', h', hr'⟩ := ih hr h hproper
      refine ⟨p', Except.foldlM_cons_ok.2 ⟨p, ?_, h'⟩, hr'⟩
      rw [call, hl]
      rfl

theorem Rel.of_calls {cs : List (PollCall ι)} (hr : Rel fd m p) (hproper : m.AllProper (PollCall.requests cs))
    (h : p.calls fd cs = .ok p') : m.AllAccepted fd (PollCall.requests cs) := by
  unfold PollPoller.calls at h
  induction cs generalizing m p with
  | nil => trivial
  | cons c cs ih =>
    obtain ⟨p₁, h₁, h⟩ := Except.foldlM_cons_ok.1 h
    cases c with
    | request op =>
      have ha : m.Accepts fd op := by
        by_contra ha
        rw [call, hr.refuses ha hproper.1] at h₁
        cases h₁
      obtain ⟨p₂, h₂, hr₂⟩ := hr.step ha hproper.1
      obtain rfl := Except.ok_unique h₂ h₁
      exact ⟨ha, ih hr₂ hproper.2 h⟩
    | poll ready reported =>
      obtain ⟨l, hl, -⟩ := hr.poll ready
      rw [call, hl] at h₁
      cases h₁
      exact ih hr hproper h

end PollPoller

/-- Seventeen channels, and a call that finds them all ready and can report only sixteen. -/
def seventeenReady : List (PollCall Nat) :=
  (List.range 17).map (fun c => .request (.update c ⟨true, false⟩)) ++
    [.poll (fun _ => 1) ((List.range 16).map fun c => (c, 1))]

-- the first call handed on less than `PollPoller` does
example : ((({} : EPollPoller Nat).calls id (seventeenReady.take 17)).bind fun p =>
      p.poll id ((List.range 16).map fun c => (c, 1))).toOption.map (·.1.length) = some 16 ∧
    ((({} : PollPoller Nat).calls id (seventeenReady.take 17)).bind fun q =>
      q.poll id fun _ => 1).toOption.map List.length = some 17 := by decide +kernel

-- a channel that wants nothing from the start cannot be removed from the array
example : (({} : EPollPoller Nat).calls id [.request (.update 4 kNoneEvent), .request (.remove 4)]).isOk = true ∧
    (({} : PollPoller Nat).calls id [.request (.update 4 kNoneEvent), .request (.remove 4)]).isOk = false := by decide

-- nor can one be used again that was removed, since its index is never reset
example : (({} : EPollPoller Nat).calls id [.request (.update 4 ⟨true, false⟩), .request (.update 4 kNoneEvent),
      .request (.remove 4), .request (.update 4 ⟨true, false⟩)]).isOk = true ∧
    (({} : PollPoller Nat).calls id [.request (.update 4 ⟨true, false⟩), .request (.update 4 kNoneEvent),
      .request (.remove 4), .request (.update 4 ⟨true, false⟩)]).isOk = false := by decide

end IMServer.Net
