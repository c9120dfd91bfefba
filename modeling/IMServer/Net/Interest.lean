import IMServer.Net.Poller

/-!
# What the pollers are for

A poller holds what each channel wants to be told about. Both pollers do that: after the same requests
they have taken them or both refused, and the kernel waits for the same events on the same descriptors
(`pollers_agree`). They differ where nothing is wanted from the start and where a channel is used again
after it was removed.
-/

namespace IMServer.Net

inductive Status
  | fresh
  | watched (events : Events)
  | removed
deriving DecidableEq

abbrev Interest (ι : Type) := ι → Status

namespace Interest
variable {ι : Type} [DecidableEq ι] {fd : ι → Nat} {m : Interest ι} {c : ι}

/-- A channel that is not watched yet shares its descriptor with none that is, and one that is removed wants
nothing any more. -/
def Accepts (fd : ι → Nat) (m : Interest ι) : PollOp ι → Prop
  | .update c _ => (∃ e, m c = .watched e) ∨ ∀ c' e, m c' = .watched e → fd c' ≠ fd c
  | .remove c => m c = .watched kNoneEvent

def next (m : Interest ι) : PollOp ι → Interest ι
  | .update c events => Function.update m c (.watched events)
  | .remove c => Function.update m c .removed

/-- A channel starts with wanting something, stops wanting it only once, and is not used again after it was
removed. -/
def Proper (m : Interest ι) : PollOp ι → Prop
  | .update c events => m c ≠ .removed ∧ (events = kNoneEvent → ∃ e, m c = .watched e ∧ e ≠ kNoneEvent)
  | .remove _ => True

instance (m : Interest ι) : DecidablePred m.Proper
  | .update c events =>
    have : Decidable (∃ e, m c = .watched e ∧ e ≠ kNoneEvent) :=
      match m c with
      | .watched e => decidable_of_iff (e ≠ kNoneEvent) (by simp)
      | .fresh => isFalse (by simp)
      | .removed => isFalse (by simp)
    inferInstanceAs (Decidable (_ ∧ (_ → _)))
  | .remove _ => isTrue trivial

theorem next_update_self {e : Events} : next m (.update c e) c = .watched e := Function.update_self _ _ _

theorem next_update_of_ne {c' : ι} {e : Events} (h : c' ≠ c) : next m (.update c e) c' = m c' :=
  Function.update_of_ne h _ _

theorem next_remove_self : next m (.remove c) c = .removed := Function.update_self _ _ _

theorem next_remove_of_ne {c' : ι} (h : c' ≠ c) : next m (.remove c) c' = m c' := Function.update_of_ne h _ _

end Interest

namespace EPollPoller
variable {ι : Type} [DecidableEq ι] {fd : ι → Nat} {m : Interest ι} {p p' : EPollPoller ι}

/-- The kernel has the channels that are `kAdded`, with what they want. -/
structure Rel (fd : ι → Nat) (m : Interest ι) (p : EPollPoller ι) : Prop where
  channels : ∀ f c, AssocMap.find p.channels f = some c ↔ f = fd c ∧ ∃ e, m c = .watched e
  events : ∀ c e, m c = .watched e → p.events c = e
  new : ∀ c, p.index c = .kNew ↔ ∀ e, m c ≠ .watched e
  deleted : ∀ c, p.index c = .kDeleted → p.events c = kNoneEvent
  epoll : ∀ f e c, AssocMap.find p.epoll f = some (e, c) ↔ f = fd c ∧ p.index c = .kAdded ∧ p.events c = e

namespace Rel

omit [DecidableEq ι] in
theorem watched_of (hr : Rel fd m p) {c : ι} (h : p.index c ≠ .kNew) : ∃ e, m c = .watched e := by
  by_contra hno
  exact h ((hr.new c).2 fun e he => hno ⟨e, he⟩)

omit [DecidableEq ι] in
/-- No two channels have one descriptor. -/
theorem unique (hr : Rel fd m p) {c c' : ι} {e e' : Events} (h : m c = .watched e) (h' : m c' = .watched e')
    (hfd : fd c = fd c') : c = c' := by
  have hc := (hr.channels (fd c) c).2 ⟨rfl, e, h⟩
  have hc' := (hr.channels (fd c) c').2 ⟨hfd, e', h'⟩
  exact Option.some.inj (hc.symm.trans hc')

omit [DecidableEq ι] in
/-- The kernel has nothing for a descriptor that belongs to no other channel than one it does not have. -/
theorem epoll_none (hr : Rel fd m p) {c : ι} (hc : p.index c ≠ .kAdded)
    (halone : ∀ c' e, m c' = .watched e → fd c' = fd c → c' = c) : AssocMap.find p.epoll (fd c) = none := by
  rcases hfind : AssocMap.find p.epoll (fd c) with _ | ⟨e, c'⟩
  · rfl
  · obtain ⟨hfd, hadd, -⟩ := (hr.epoll _ _ _).1 hfind
    obtain ⟨e', he'⟩ := hr.watched_of (c := c') (by simp [hadd])
    rw [halone c' e' he' hfd.symm] at hadd
    exact absurd hadd hc

omit [DecidableEq ι] in
/-- Nobody else has the descriptor of a channel that may be updated. -/
theorem alone (hr : Rel fd m p) {c : ι} {e : Events} (ha : Interest.Accepts fd m (.update c e)) (c' : ι) (e' : Events)
    (h' : m c' = .watched e') (hfd : fd c' = fd c) : c' = c := by
  rcases ha with ⟨e₁, h⟩ | hfree
  · exact hr.unique h' h hfd
  · exact absurd hfd (hfree c' e' h')

/-- The poller after an update: the channel is there, and the kernel has it unless it is `kDeleted`. -/
theorem updated (hr : Rel fd m p) {c : ι} {e : Events} {i : Index} (ha : Interest.Accepts fd m (.update c e))
    (hi : i = .kAdded ∨ i = .kDeleted ∧ e = kNoneEvent)
    (hch : ∀ f, AssocMap.find p'.channels f = if fd c = f then some c else AssocMap.find p.channels f)
    (hev : p'.events = Function.update p.events c e) (hidx : p'.index = Function.update p.index c i)
    (hep : ∀ f, AssocMap.find p'.epoll f =
      if fd c = f then (if i = .kAdded then some (e, c) else none) else AssocMap.find p.epoll f) :
    Rel fd (Interest.next m (.update c e)) p' where
  channels f c' := by
    rw [hch]
    by_cases hc : c' = c
    · subst hc
      by_cases hf : fd c' = f
      · simp [hf, Interest.next]
      · simp only [hf, if_false, hr.channels, Ne.symm hf, false_and]
    · rw [Interest.next_update_of_ne hc]
      split
      · next hf =>
        refine ⟨fun h => absurd (Option.some.inj h).symm hc, ?_⟩
        rintro ⟨rfl, e', he'⟩
        exact absurd (hr.alone ha c' e' he' hf.symm) hc
      · exact hr.channels f c'
  events c' e' h := by
    rw [hev]
    by_cases hc : c' = c
    · subst hc
      rw [Interest.next_update_self] at h
      rw [Function.update_self]
      exact Status.watched.inj h
    · rw [Interest.next_update_of_ne hc] at h
      rw [Function.update_of_ne hc]
      exact hr.events c' e' h
  new c' := by
    rw [hidx]
    by_cases hc : c' = c
    · subst hc
      rw [Function.update_self, Interest.next_update_self]
      rcases hi with rfl | ⟨rfl, -⟩ <;> simp
    · rw [Function.update_of_ne hc, Interest.next_update_of_ne hc]
      exact hr.new c'
  deleted c' h := by
    rw [hidx] at h
    rw [hev]
    by_cases hc : c' = c
    · subst hc
      rw [Function.update_self] at h ⊢
      rcases hi with rfl | ⟨-, he⟩
      · cases h
      · exact he
    · rw [Function.update_of_ne hc] at h ⊢
      exact hr.deleted c' h
  epoll f e' c' := by
    rw [hep, hidx, hev]
    by_cases hc : c' = c
    · subst hc
      rw [Function.update_self, Function.update_self]
      by_cases hf : fd c' = f
      · rw [if_pos hf]
        split
        · next hadd => simp [hf, hadd]
        · next hadd => simp [hadd]
      · rw [if_neg hf, hr.epoll]
        simp [Ne.symm hf]
    · rw [Function.update_of_ne hc, Function.update_of_ne hc]
      split
      · next hf =>
        constructor
        · intro h
          split at h
          · exact absurd (Prod.mk.inj (Option.some.inj h)).2.symm hc
          · cases h
        · rintro ⟨rfl, hadd, -⟩
          obtain ⟨e₁, he₁⟩ := hr.watched_of (c := c') (by simp [hadd])
          exact absurd (hr.alone ha c' e₁ he₁ hf.symm) hc
      · exact hr.epoll f e' c'

theorem update (hr : Rel fd m p) {c : ι} {e : Events} (ha : Interest.Accepts fd m (.update c e)) :
    ∃ p', p.step fd (.update c e) = .ok p' ∧ Rel fd (Interest.next m (.update c e)) p' ∧
      ∃ i, p'.index = Function.update p.index c i ∧ (i = .kAdded → e = kNoneEvent → p.index c ≠ .kAdded) := by
  rw [step, updateChannel]
  dsimp only
  cases hidx : p.index c with
  | kNew =>
    have hfresh := (hr.new c).1 hidx
    have hnone : AssocMap.find p.channels (fd c) = none := by
      rcases hfind : AssocMap.find p.channels (fd c) with _ | c'
      · rfl
      · obtain ⟨hfd, e', he'⟩ := (hr.channels _ _).1 hfind
        rw [hr.alone ha c' e' he' hfd.symm] at he'
        exact absurd he' (hfresh e')
    have hkernel := hr.epoll_none (c := c) (by simp [hidx]) (hr.alone ha)
    dsimp only
    rw [if_pos hnone]
    unfold EPollPoller.update
    simp only [setIndex, hkernel]
    refine ⟨_, rfl, hr.updated (i := .kAdded) ha (.inl rfl) ?_ rfl rfl ?_, .kAdded, rfl, by simp⟩
    · intro f
      rw [AssocMap.find_insert]
    · intro f
      rw [AssocMap.find_insert, Function.update_self]
      rfl
  | kAdded =>
    obtain ⟨e₀, he₀⟩ := hr.watched_of (c := c) (by simp [hidx])
    have hfind : AssocMap.find p.channels (fd c) = some c := (hr.channels _ _).2 ⟨rfl, e₀, he₀⟩
    have hkernel : AssocMap.find p.epoll (fd c) = some (p.events c, c) := (hr.epoll _ _ _).2 ⟨rfl, hidx, rfl⟩
    have hch : ∀ f, AssocMap.find p.channels f = if fd c = f then some c else AssocMap.find p.channels f := by
      intro f
      split
      · next hf => rw [← hf, hfind]
      · rfl
    dsimp only
    rw [if_pos hfind]
    unfold EPollPoller.update
    split
    · next he =>
      rw [Function.update_self] at he
      simp only [Except.ok_bind]
      refine ⟨_, rfl, hr.updated (i := .kDeleted) ha (.inr ⟨rfl, he⟩) hch rfl rfl ?_, .kDeleted, rfl, by simp⟩
      intro f
      rw [setIndex, AssocMap.find_erase]
      simp
    · next he =>
      rw [Function.update_self] at he
      have hsame : p.index = Function.update p.index c .kAdded := by rw [← hidx, Function.update_eq_self]
      simp only [hkernel]
      refine ⟨_, rfl, hr.updated (i := .kAdded) ha (.inl rfl) hch rfl hsame ?_, .kAdded, hsame, fun _ h => absurd h he⟩
      · intro f
        rw [AssocMap.find_insert, Function.update_self]
        rfl
  | kDeleted =>
    obtain ⟨e₀, he₀⟩ := hr.watched_of (c := c) (by simp [hidx])
    have hfind : AssocMap.find p.channels (fd c) = some c := (hr.channels _ _).2 ⟨rfl, e₀, he₀⟩
    have hkernel := hr.epoll_none (c := c) (by simp [hidx]) (hr.alone ha)
    dsimp only
    rw [if_pos hfind]
    unfold EPollPoller.update
    simp only [setIndex, hkernel]
    refine ⟨_, rfl, hr.updated (i := .kAdded) ha (.inl rfl) ?_ rfl rfl ?_, .kAdded, rfl, by simp⟩
    · intro f
      split
      · next hf => rw [← hf, hfind]
      · rfl
    · intro f
      rw [AssocMap.find_insert, Function.update_self]
      rfl

/-- The poller after a removal. -/
theorem removed (hr : Rel fd m p) {c : ι} {e : Events} (hw : m c = .watched e)
    (hch : ∀ f, AssocMap.find p'.channels f = if fd c = f then none else AssocMap.find p.channels f)
    (hev : p'.events = p.events) (hidx : p'.index = Function.update p.index c .kNew)
    (hep : ∀ f, AssocMap.find p'.epoll f = if fd c = f then none else AssocMap.find p.epoll f) :
    Rel fd (Interest.next m (.remove c)) p' where
  channels f c' := by
    rw [hch]
    by_cases hc : c' = c
    · subst hc
      rw [Interest.next_remove_self]
      split
      · simp
      · next hf => simp [hr.channels, Ne.symm hf]
    · rw [Interest.next_remove_of_ne hc]
      split
      · next hf =>
        refine ⟨fun h => (by cases h), ?_⟩
        rintro ⟨rfl, e', he'⟩
        exact absurd (hr.unique he' hw hf.symm) hc
      · exact hr.channels f c'
  events c' e' h := by
    rw [hev]
    by_cases hc : c' = c
    · subst hc
      rw [Interest.next_remove_self] at h
      cases h
    · rw [Interest.next_remove_of_ne hc] at h
      exact hr.events c' e' h
  new c' := by
    rw [hidx]
    by_cases hc : c' = c
    · subst hc
      simp [Interest.next_remove_self]
    · rw [Function.update_of_ne hc, Interest.next_remove_of_ne hc]
      exact hr.new c'
  deleted c' h := by
    rw [hidx] at h
    rw [hev]
    by_cases hc : c' = c
    · subst hc
      rw [Function.update_self] at h
      cases h
    · rw [Function.update_of_ne hc] at h
      exact hr.deleted c' h
  epoll f e' c' := by
    rw [hep, hidx, hev]
    by_cases hc : c' = c
    · subst hc
      rw [Function.update_self]
      split
      · simp
      · next hf => simp [hr.epoll, Ne.symm hf]
    · rw [Function.update_of_ne hc]
      split
      · next hf =>
        refine ⟨fun h => (by cases h), ?_⟩
        rintro ⟨rfl, hadd, -⟩
        obtain ⟨e₁, he₁⟩ := hr.watched_of (c := c') (by simp [hadd])
        exact absurd (hr.unique he₁ hw hf.symm) hc
      · exact hr.epoll f e' c'

theorem remove (hr : Rel fd m p) {c : ι} (hw : m c = .watched kNoneEvent) :
    ∃ p', p.step fd (.remove c) = .ok p' ∧ Rel fd (Interest.next m (.remove c)) p' ∧
      p'.index = Function.update p.index c .kNew := by
  have hfind : AssocMap.find p.channels (fd c) = some c := (hr.channels _ _).2 ⟨rfl, _, hw⟩
  have hev := hr.events c _ hw
  rw [step, removeChannel, if_pos ⟨hfind, hev⟩]
  dsimp only
  cases hidx : p.index c with
  | kNew => exact absurd hw ((hr.new c).1 hidx _)
  | kAdded =>
    unfold EPollPoller.update
    simp only [Except.ok_bind]
    refine ⟨_, rfl, hr.removed hw ?_ rfl rfl ?_, rfl⟩
    · exact fun f => AssocMap.find_erase _ _ _
    · exact fun f => AssocMap.find_erase _ _ _
  | kDeleted =>
    refine ⟨_, rfl, hr.removed hw ?_ rfl rfl ?_, rfl⟩
    · exact fun f => AssocMap.find_erase _ _ _
    · -- the kernel has forgotten it already
      intro f
      split
      · next hf =>
        subst hf
        exact hr.epoll_none (c := c) (by simp [hidx]) fun c' e' he' hfd => hr.unique he' hw hfd
      · rfl

/-- What is not accepted fails an assertion. -/
theorem refuses (hr : Rel fd m p) {op : PollOp ι} (ha : ¬ Interest.Accepts fd m op) :
    p.step fd op = .error .assertion := by
  cases op with
  | update c e =>
    obtain ⟨hfresh, htaken⟩ := not_or.1 ha
    have hidx : p.index c = .kNew := (hr.new c).2 fun e he => hfresh ⟨e, he⟩
    push Not at htaken
    obtain ⟨c', e', he', hfd⟩ := htaken
    have hfind : AssocMap.find p.channels (fd c) = some c' := (hr.channels _ _).2 ⟨hfd.symm, e', he'⟩
    rw [step, updateChannel]
    dsimp only
    rw [hidx]
    dsimp only
    rw [if_neg (by simp [hfind])]
  | remove c =>
    rw [step, removeChannel, if_neg]
    rintro ⟨hfind, hev⟩
    obtain ⟨-, e, he⟩ := (hr.channels _ _).1 hfind
    rw [hr.events c e he] at hev
    exact ha (by rw [Interest.Accepts, he, hev])

theorem step (hr : Rel fd m p) {op : PollOp ι} (ha : Interest.Accepts fd m op) :
    ∃ p', p.step fd op = .ok p' ∧ Rel fd (Interest.next m op) p' := by
  cases op with
  | update c e =>
    obtain ⟨p', h, hr', -⟩ := hr.update ha
    exact ⟨p', h, hr'⟩
  | remove c =>
    obtain ⟨p', h, hr', -⟩ := hr.remove ha
    exact ⟨p', h, hr'⟩

end Rel

/-- The kernel has no channel that wants nothing. -/
def Trim (p : EPollPoller ι) : Prop := ∀ c, p.index c = .kAdded → p.events c ≠ kNoneEvent

theorem Rel.trim (hr : Rel fd m p) (ht : p.Trim) {op : PollOp ι} (ha : Interest.Accepts fd m op)
    (hproper : Interest.Proper m op) :
    ∃ p', p.step fd op = .ok p' ∧ Rel fd (Interest.next m op) p' ∧ p'.Trim := by
  have hother : ∀ {p' c' c i}, Rel fd (Interest.next m op) p' → p'.index = Function.update p.index c i → c' ≠ c →
      Interest.next m op c' = m c' → p'.index c' = .kAdded → p'.events c' ≠ kNoneEvent := by
    intro p' c' c i hr' hidx hc hnext hadd
    rw [hidx, Function.update_of_ne hc] at hadd
    obtain ⟨e, he⟩ := hr.watched_of (c := c') (by simp [hadd])
    rw [hr'.events c' e (hnext.trans he), ← hr.events c' e he]
    exact ht c' hadd
  cases op with
  | update c e =>
    obtain ⟨p', h, hr', i, hidx, hi⟩ := hr.update ha
    refine ⟨p', h, hr', fun c' hadd => ?_⟩
    by_cases hc : c' = c
    · subst hc
      rw [hr'.events c' e Interest.next_update_self]
      intro he
      obtain ⟨e', he', hne⟩ := hproper.2 he
      rw [hidx, Function.update_self] at hadd
      -- it was in the kernel before, since it wanted something
      refine hi hadd he ?_
      cases hold : p.index c' with
      | kAdded => rfl
      | kNew => exact absurd he' ((hr.new c').1 hold e')
      | kDeleted => exact absurd ((hr.events c' e' he').symm.trans (hr.deleted c' hold)) hne
    · exact hother hr' hidx hc (Interest.next_update_of_ne hc) hadd
  | remove c =>
    obtain ⟨p', h, hr', hidx⟩ := hr.remove ha
    refine ⟨p', h, hr', fun c' hadd => ?_⟩
    by_cases hc : c' = c
    · subst hc
      rw [hidx, Function.update_self] at hadd
      cases hadd
    · exact hother hr' hidx hc (Interest.next_remove_of_ne hc) hadd

omit [DecidableEq ι] in
/-- A channel that wants something is in the kernel. -/
theorem Rel.added (hr : Rel fd m p) {c : ι} {e : Events} (h : m c = .watched e) (hne : e ≠ kNoneEvent) :
    p.index c = .kAdded := by
  cases hidx : p.index c with
  | kAdded => rfl
  | kNew => exact absurd h ((hr.new c).1 hidx e)
  | kDeleted => exact absurd ((hr.events c e h).symm.trans (hr.deleted c hidx)) hne

omit [DecidableEq ι] in
theorem Rel.watches (hr : Rel fd m p) {c : ι} {e : Events} (h : m c = .watched e) (hne : e ≠ kNoneEvent) :
    p.Watches (fd c) e := ⟨c, (hr.epoll _ _ _).2 ⟨rfl, hr.added h hne, hr.events c e h⟩⟩

omit [DecidableEq ι] in
theorem Rel.of_watches (hr : Rel fd m p) {f : Nat} {e : Events} (h : p.Watches f e) :
    ∃ c, fd c = f ∧ m c = .watched e ∧ p.index c = .kAdded := by
  obtain ⟨c, hfind⟩ := h
  obtain ⟨hfd, hadd, hev⟩ := (hr.epoll _ _ _).1 hfind
  obtain ⟨e', he'⟩ := hr.watched_of (c := c) (by simp [hadd])
  rw [hr.events c e' he'] at hev
  exact ⟨c, hfd.symm, hev ▸ he', hadd⟩

theorem Rel.hasChannel (hr : Rel fd m p) (c : ι) : p.hasChannel fd c = true ↔ ∃ e, m c = .watched e := by
  simp [EPollPoller.hasChannel, hr.channels]

omit [DecidableEq ι] in
theorem rel_new : Rel fd (fun _ => .fresh) ({} : EPollPoller ι) where
  channels f c := by simp [AssocMap.find]
  events c e h := by cases h
  new c := by simp
  deleted c h := by cases h
  epoll f e c := by simp [AssocMap.find]

end EPollPoller

namespace Interest
variable {ι : Type} [DecidableEq ι] {fd : ι → Nat} {m : Interest ι}

def run (m : Interest ι) (ops : List (PollOp ι)) : Interest ι := ops.foldl next m

def AllAccepted (fd : ι → Nat) : Interest ι → List (PollOp ι) → Prop
  | _, [] => True
  | m, op :: ops => m.Accepts fd op ∧ AllAccepted fd (m.next op) ops

def AllProper : Interest ι → List (PollOp ι) → Prop
  | _, [] => True
  | m, op :: ops => m.Proper op ∧ AllProper (m.next op) ops

instance AllProper.decidable : ∀ (m : Interest ι) (ops : List (PollOp ι)), Decidable (AllProper m ops)
  | _, [] => isTrue trivial
  | m, op :: ops =>
    have := AllProper.decidable (m.next op) ops
    inferInstanceAs (Decidable (_ ∧ _))

end Interest

namespace EPollPoller
variable {ι : Type} [DecidableEq ι] {fd : ι → Nat} {m : Interest ι} {p p' : EPollPoller ι} {ops : List (PollOp ι)}

theorem Rel.run (hr : Rel fd m p) (h : Interest.AllAccepted fd m ops) :
    ∃ p', p.run fd ops = .ok p' ∧ Rel fd (m.run ops) p' := by
  unfold EPollPoller.run
  induction ops generalizing m p with
  | nil => exact ⟨p, rfl, hr⟩
  | cons op ops ih =>
    obtain ⟨p₁, h₁, hr₁⟩ := hr.step h.1
    obtain ⟨p', h', hr'⟩ := ih hr₁ h.2
    exact ⟨p', Except.foldlM_cons_ok.2 ⟨p₁, h₁, h'⟩, hr'⟩

theorem Rel.of_run (hr : Rel fd m p) {p' : EPollPoller ι} (h : p.run fd ops = .ok p') :
    Interest.AllAccepted fd m ops := by
  unfold EPollPoller.run at h
  induction ops generalizing m p with
  | nil => trivial
  | cons op ops ih =>
    obtain ⟨p₁, h₁, h⟩ := Except.foldlM_cons_ok.1 h
    have ha : Interest.Accepts fd m op := by
      by_contra ha
      rw [hr.refuses ha] at h₁
      cases h₁
    obtain ⟨p₂, h₂, hr₂⟩ := hr.step ha
    obtain rfl := Except.ok_unique h₂ h₁
    exact ⟨ha, ih hr₂ h⟩

end EPollPoller

/-- `EPollPoller` takes a run of requests exactly if each is accepted. Then it has the channels that are
watched, the kernel waits for what any of them wants, and for nothing else: what it waits for is what the
channel of that descriptor wants. -/
theorem epoll_keeps_interest {ι : Type} [DecidableEq ι] (fd : ι → Nat) (ops : List (PollOp ι)) :
    ((∃ p, ({} : EPollPoller ι).run fd ops = .ok p) ↔ Interest.AllAccepted fd (fun _ => .fresh) ops) ∧
      ∀ p, ({} : EPollPoller ι).run fd ops = .ok p →
        (∀ c, p.hasChannel fd c = true ↔ ∃ e, Interest.run (fun _ => .fresh) ops c = .watched e) ∧
        (∀ c e, Interest.run (fun _ => .fresh) ops c = .watched e → e ≠ kNoneEvent → p.Watches (fd c) e) ∧
        ∀ f e, p.Watches f e → ∃ c, fd c = f ∧ Interest.run (fun _ => .fresh) ops c = .watched e := by
  have hr : EPollPoller.Rel fd (fun _ => .fresh) ({} : EPollPoller ι) := EPollPoller.rel_new
  refine ⟨⟨fun ⟨p, h⟩ => hr.of_run h, fun h => ?_⟩, fun p h => ?_⟩
  · obtain ⟨p, hp, -⟩ := hr.run h
    exact ⟨p, hp⟩
  · obtain ⟨p', h', hr'⟩ := hr.run (hr.of_run h)
    obtain rfl := Except.ok_unique h' h
    refine ⟨hr'.hasChannel, fun c e => hr'.watches, fun f e hw => ?_⟩
    obtain ⟨c, hfd, he, -⟩ := hr'.of_watches hw
    exact ⟨c, hfd, he⟩

end IMServer.Net
