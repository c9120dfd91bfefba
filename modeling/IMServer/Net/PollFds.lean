import IMServer.Net.Interest

/-!
# The array of `PollPoller`

Each watched channel has one entry of `pollfds_`, at its index, and each entry has its channel. Removing
a channel moves the last entry into its place and tells the channel of that entry, which is found by the
descriptor in it, muted or not.
-/

namespace IMServer.Net

namespace PollPoller
variable {ι : Type} [DecidableEq ι] {fd : ι → Nat} {m : Interest ι} {p : PollPoller ι}

/-- The descriptor in the entry of a channel. -/
def slot (f : Nat) (e : Events) : Int := if e = kNoneEvent then muted f else f

/-- The channel of an entry is found by its descriptor. -/
theorem decode_slot (f : Nat) (e : Events) : (if slot f e < 0 then -slot f e - 1 else slot f e).toNat = f := by
  unfold slot muted
  split
  · rw [if_pos (by omega)]
    omega
  · rw [if_neg (by omega)]
    omega

theorem slot_inj {f f' : Nat} {e : Events} (h : slot f e = slot f' e) : f = f' := by
  rw [← decode_slot f e, h, decode_slot]

structure Rel (fd : ι → Nat) (m : Interest ι) (p : PollPoller ι) : Prop where
  channels : ∀ f c, AssocMap.find p.channels f = some c ↔ f = fd c ∧ ∃ e, m c = .watched e
  events : ∀ c e, m c = .watched e → p.events c = e
  fresh : ∀ c, m c = .fresh → p.index c < 0
  entry : ∀ c e, m c = .watched e → ∃ i : Nat, p.index c = i ∧ p.pollfds[i]? = some (slot (fd c) e, e)
  owner : ∀ i, i < p.pollfds.length → ∃ c e, m c = .watched e ∧ p.index c = i

namespace Rel

omit [DecidableEq ι] in
theorem unique (hr : Rel fd m p) {c c' : ι} {e e' : Events} (h : m c = .watched e) (h' : m c' = .watched e')
    (hfd : fd c = fd c') : c = c' := by
  have hc := (hr.channels (fd c) c).2 ⟨rfl, e, h⟩
  have hc' := (hr.channels (fd c) c').2 ⟨hfd, e', h'⟩
  exact Option.some.inj (hc.symm.trans hc')

omit [DecidableEq ι] in
/-- No two channels share an entry. -/
theorem index_inj (hr : Rel fd m p) {c c' : ι} {e e' : Events} (h : m c = .watched e) (h' : m c' = .watched e')
    (hidx : p.index c = p.index c') : c = c' := by
  obtain ⟨i, hi, hentry⟩ := hr.entry c e h
  obtain ⟨j, hj, hentry'⟩ := hr.entry c' e' h'
  obtain rfl : i = j := by omega
  obtain ⟨hslot, rfl⟩ := Prod.mk.inj (Option.some.inj (hentry.symm.trans hentry'))
  exact hr.unique h h' (slot_inj hslot)

/-- The poller after an update: the channel has its entry, and the others keep theirs. -/
theorem updated (hr : Rel fd m p) {p' : PollPoller ι} {c : ι} {e : Events} {i : Nat}
    (halone : ∀ c' e', m c' = .watched e' → fd c' = fd c → c' = c)
    (hch : ∀ f, AssocMap.find p'.channels f = if fd c = f then some c else AssocMap.find p.channels f)
    (hev : p'.events = Function.update p.events c e) (hidx : p'.index = Function.update p.index c i)
    (hentry : p'.pollfds[i]? = some (slot (fd c) e, e))
    (hkeep : ∀ c' e' (j : Nat), m c' = .watched e' → c' ≠ c → p.index c' = j → p'.pollfds[j]? = p.pollfds[j]?)
    (howner : ∀ j, j < p'.pollfds.length → j = i ∨ j < p.pollfds.length ∧ p.index c ≠ j) :
    Rel fd (m.next (.update c e)) p' where
  channels f c' := by
    rw [hch]
    by_cases hc : c' = c
    · subst hc
      by_cases hf : fd c' = f
      · simp [hf, Interest.next]
      · simp only [hf, if_false, hr.channels, Ne.symm hf, false_and]
    · rw [Interest.next_update_of_ne hc]
      split
      · next hf =>
        refine ⟨fun h => absurd (Option.some.inj h).symm hc, ?_⟩
        rintro ⟨rfl, e', he'⟩
        exact absurd (halone c' e' he' hf.symm) hc
      · exact hr.channels f c'
  events c' e' h := by
    rw [hev]
    by_cases hc : c' = c
    · subst hc
      rw [Interest.next_update_self] at h
      rw [Function.update_self]
      exact Status.watched.inj h
    · rw [Interest.next_update_of_ne hc] at h
      rw [Function.update_of_ne hc]
      exact hr.events c' e' h
  fresh c' h := by
    rw [hidx]
    by_cases hc : c' = c
    · subst hc
      rw [Interest.next_update_self] at h
      cases h
    · rw [Interest.next_update_of_ne hc] at h
      rw [Function.update_of_ne hc]
      exact hr.fresh c' h
  entry c' e' h := by
    rw [hidx]
    by_cases hc : c' = c
    · subst hc
      rw [Interest.next_update_self] at h
      obtain rfl := Status.watched.inj h
      exact ⟨i, Function.update_self _ _ _, hentry⟩
    · rw [Interest.next_update_of_ne hc] at h
      obtain ⟨j, hj, hold⟩ := hr.entry c' e' h
      rw [Function.update_of_ne hc]
      exact ⟨j, hj, (hkeep c' e' j h hc hj).trans hold⟩
  owner j hj := by
    rw [hidx]
    rcases howner j hj with rfl | ⟨hlt, hne⟩
    · exact ⟨c, e, Interest.next_update_self, Function.update_self _ _ _⟩
    · obtain ⟨c', e', he', hj'⟩ := hr.owner j hlt
      have hc : c' ≠ c := by
        rintro rfl
        exact hne hj'
      exact ⟨c', e', (Interest.next_update_of_ne hc).trans he', (Function.update_of_ne hc _ _).trans hj'⟩

omit [DecidableEq ι] in
theorem index_lt (hr : Rel fd m p) {c : ι} {e : Events} {i : Nat} (h : m c = .watched e) (hi : p.index c = i) :
    i < p.pollfds.length := by
  obtain ⟨j, hj, hentry⟩ := hr.entry c e h
  obtain rfl : i = j := by omega
  exact (List.getElem?_eq_some_iff.1 hentry).1

theorem update_fresh (hr : Rel fd m p) {c : ι} {e : Events} (hfresh : m c = .fresh) (he : e ≠ kNoneEvent)
    (hfree : ∀ c' e', m c' = .watched e' → fd c' ≠ fd c) :
    ∃ p', p.step fd (.update c e) = .ok p' ∧ Rel fd (m.next (.update c e)) p' := by
  have hnone : AssocMap.find p.channels (fd c) = none := by
    rcases hfind : AssocMap.find p.channels (fd c) with _ | c'
    · rfl
    · obtain ⟨hfd, e', he'⟩ := (hr.channels _ _).1 hfind
      exact absurd hfd.symm (hfree c' e' he')
  rw [step, updateChannel, if_pos (hr.fresh c hfresh), if_pos hnone]
  refine ⟨_, rfl, hr.updated (i := p.pollfds.length) (fun c' e' h hfd => absurd hfd (hfree c' e' h)) ?_ rfl rfl ?_ ?_ ?_⟩
  · intro f
    rw [setIndex, AssocMap.find_insert]
  · simp [setIndex, slot, he]
  · intro c' e' j h _ hj
    exact List.getElem?_append_left (hr.index_lt h hj)
  · intro j hj
    have hneg := hr.fresh c hfresh
    have hlen : j < p.pollfds.length + 1 := by simpa [setIndex] using hj
    omega

theorem update_watched (hr : Rel fd m p) {c : ι} {e e₀ : Events} (hw : m c = .watched e₀) :
    ∃ p', p.step fd (.update c e) = .ok p' ∧ Rel fd (m.next (.update c e)) p' := by
  obtain ⟨i, hi, hentry⟩ := hr.entry c e₀ hw
  have hlt := hr.index_lt hw hi
  have hfind : AssocMap.find p.channels (fd c) = some c := (hr.channels _ _).2 ⟨rfl, e₀, hw⟩
  have hslot : slot (fd c) e₀ = fd c ∨ slot (fd c) e₀ = muted (fd c) := by
    unfold slot
    split
    · exact .inr rfl
    · exact .inl rfl
  have hch : ∀ f, AssocMap.find p.channels f = if fd c = f then some c else AssocMap.find p.channels f := by
    intro f
    split
    · next hf => rw [← hf, hfind]
    · rfl
  have hnat : (p.index c).toNat = i := by omega
  rw [step, updateChannel, if_neg (by dsimp only; omega), if_pos hfind]
  dsimp only
  rw [hnat, hentry]
  dsimp only
  rw [if_pos hslot]
  refine ⟨_, rfl, hr.updated (i := i) (fun c' e' h hfd => hr.unique h hw hfd) hch rfl ?_ ?_ ?_ ?_⟩
  · rw [← hi, Function.update_eq_self]
  · simp only [Function.update_self, List.getElem?_set_self hlt]
    rfl
  · intro c' e' j h hc hj
    refine List.getElem?_set_ne ?_
    rintro rfl
    exact hc (hr.index_inj h hw (hj.trans hi.symm))
  · intro j hj
    rw [List.length_set] at hj
    by_cases hji : j = i
    · exact .inl hji
    · exact .inr ⟨hj, by omega⟩

/-- The poller after a removal: the other channels have the entries they had, if in another place. -/
theorem removed (hr : Rel fd m p) {p' : PollPoller ι} {c : ι} {e : Events} (hw : m c = .watched e)
    (hch : ∀ f, AssocMap.find p'.channels f = if fd c = f then none else AssocMap.find p.channels f)
    (hev : p'.events = p.events) (hfresh : ∀ c', m c' = .fresh → p'.index c' = p.index c')
    (hmove : ∀ c' e' (j : Nat), m c' = .watched e' → c' ≠ c → p.index c' = j →
      ∃ j' : Nat, p'.index c' = j' ∧ p'.pollfds[j']? = p.pollfds[j]?)
    (howner : ∀ j, j < p'.pollfds.length → ∃ c' e', m c' = .watched e' ∧ c' ≠ c ∧ p'.index c' = j) :
    Rel fd (m.next (.remove c)) p' where
  channels f c' := by
    rw [hch]
    by_cases hc : c' = c
    · subst hc
      rw [Interest.next_remove_self]
      split
      · simp
      · next hf => simp [hr.channels, Ne.symm hf]
    · rw [Interest.next_remove_of_ne hc]
      split
      · next hf =>
        refine ⟨fun h => (by cases h), ?_⟩
        rintro ⟨rfl, e', he'⟩
        exact absurd (hr.unique he' hw hf.symm) hc
      · exact hr.channels f c'
  events c' e' h := by
    rw [hev]
    by_cases hc : c' = c
    · subst hc
      rw [Interest.next_remove_self] at h
      cases h
    · rw [Interest.next_remove_of_ne hc] at h
      exact hr.events c' e' h
  fresh c' h := by
    by_cases hc : c' = c
    · subst hc
      rw [Interest.next_remove_self] at h
      cases h
    · rw [Interest.next_remove_of_ne hc] at h
      rw [hfresh c' h]
      exact hr.fresh c' h
  entry c' e' h := by
    by_cases hc : c' = c
    · subst hc
      rw [Interest.next_remove_self] at h
      cases h
    · rw [Interest.next_remove_of_ne hc] at h
      obtain ⟨j, hj, hold⟩ := hr.entry c' e' h
      obtain ⟨j', hj', hnew⟩ := hmove c' e' j h hc hj
      exact ⟨j', hj', hnew.trans hold⟩
  owner j hj := by
    obtain ⟨c', e', he', hc, hj'⟩ := howner j hj
    exact ⟨c', e', (Interest.next_remove_of_ne hc).trans he', hj'⟩

/-- The last entry is dropped. -/
theorem removed_last (hr : Rel fd m p) {c : ι} {e : Events} (hw : m c = .watched e)
    (hi : p.index c = (p.pollfds.length - 1 : Nat)) :
    Rel fd (m.next (.remove c))
      { p with channels := AssocMap.erase p.channels (fd c), pollfds := p.pollfds.dropLast } := by
  refine hr.removed hw (fun f => AssocMap.find_erase _ _ _) rfl (fun _ _ => rfl) ?_ ?_
  · intro c' e' j h hc hj
    refine ⟨j, hj, ?_⟩
    have hlt := hr.index_lt h hj
    have hne : j ≠ p.pollfds.length - 1 := by
      rintro rfl
      exact hc (hr.index_inj h hw (hj.trans hi.symm))
    rw [List.getElem?_dropLast, if_pos (by omega)]
  · intro j hj
    rw [List.length_dropLast] at hj
    obtain ⟨c', e', he', hj'⟩ := hr.owner j (by omega)
    refine ⟨c', e', he', ?_, hj'⟩
    rintro rfl
    omega

/-- The last entry, which is that of `c₁`, takes the place of the one that goes. -/
theorem removed_moved (hr : Rel fd m p) {c c₁ : ι} {e e₁ : Events} {i : Nat} {last : Int × Events}
    (hw : m c = .watched e) (hi : p.index c = i) (hne : i ≠ p.pollfds.length - 1) (hw₁ : m c₁ = .watched e₁)
    (hi₁ : p.index c₁ = (p.pollfds.length - 1 : Nat)) (hlast : p.pollfds[p.pollfds.length - 1]? = some last) :
    Rel fd (m.next (.remove c)) ({ p with
      channels := AssocMap.erase p.channels (fd c)
      pollfds := (p.pollfds.set i last).dropLast }.setIndex c₁ i) := by
  have hlt := hr.index_lt hw hi
  have hc₁ : c₁ ≠ c := by
    rintro rfl
    omega
  refine hr.removed hw (fun f => AssocMap.find_erase _ _ _) rfl ?_ ?_ ?_
  · intro c' h
    refine Function.update_of_ne ?_ _ _
    rintro rfl
    rw [hw₁] at h
    cases h
  · intro c' e' j h hc hj
    have hltj := hr.index_lt h hj
    by_cases hcc : c' = c₁
    · subst hcc
      obtain rfl : j = p.pollfds.length - 1 := by omega
      refine ⟨i, Function.update_self _ _ _, ?_⟩
      show (p.pollfds.set i last).dropLast[i]? = _
      rw [List.getElem?_dropLast, List.length_set, if_pos (by omega), List.getElem?_set_self hlt, hlast]
    · have hji : j ≠ i := by
        rintro rfl
        exact hc (hr.index_inj h hw (hj.trans hi.symm))
      have hjn : j ≠ p.pollfds.length - 1 := by
        rintro rfl
        exact hcc (hr.index_inj h hw₁ (hj.trans hi₁.symm))
      refine ⟨j, (Function.update_of_ne hcc _ _).trans hj, ?_⟩
      show (p.pollfds.set i last).dropLast[j]? = _
      rw [List.getElem?_dropLast, List.length_set, if_pos (by omega), List.getElem?_set_ne (Ne.symm hji)]
  · intro j hj
    have hj : j < p.pollfds.length - 1 := by simpa [setIndex] using hj
    by_cases hji : j = i
    · subst hji
      exact ⟨c₁, e₁, hw₁, hc₁, Function.update_self _ _ _⟩
    · obtain ⟨c', e', he', hj'⟩ := hr.owner j (by omega)
      refine ⟨c', e', he', ?_, ?_⟩
      · rintro rfl
        omega
      · refine (Function.update_of_ne ?_ _ _).trans hj'
        rintro rfl
        omega

theorem remove (hr : Rel fd m p) {c : ι} (hw : m c = .watched kNoneEvent) :
    ∃ p', p.step fd (.remove c) = .ok p' ∧ Rel fd (m.next (.remove c)) p' := by
  obtain ⟨i, hi, hentry⟩ := hr.entry c _ hw
  have hlt := hr.index_lt hw hi
  have hfind : AssocMap.find p.channels (fd c) = some c := (hr.channels _ _).2 ⟨rfl, _, hw⟩
  have hev := hr.events c _ hw
  have hnat : (p.index c).toNat = i := by omega
  have hslot : (slot (fd c) kNoneEvent, kNoneEvent) = (muted (fd c), p.events c) := by rw [hev]; rfl
  rw [step, removeChannel, if_pos ⟨hfind, hev, by omega⟩]
  dsimp only
  rw [hnat, hentry]
  dsimp only
  rw [if_pos hslot]
  split
  · next hlast => exact ⟨_, rfl, hr.removed_last hw (by rw [hi, hlast])⟩
  · next hne =>
    -- the entry at the end has a channel, and its descriptor leads to it
    obtain ⟨c₁, e₁, hw₁, hi₁⟩ := hr.owner (p.pollfds.length - 1) (by omega)
    obtain ⟨j, hj, hlast⟩ := hr.entry c₁ e₁ hw₁
    obtain rfl : j = p.pollfds.length - 1 := by omega
    have hfd₁ : fd c ≠ fd c₁ := by
      intro hfd
      rw [hr.unique hw hw₁ hfd] at hi
      omega
    have hfind₁ : AssocMap.find (AssocMap.erase p.channels (fd c)) (fd c₁) = some c₁ := by
      rw [AssocMap.find_erase, if_neg hfd₁]
      exact (hr.channels _ _).2 ⟨rfl, e₁, hw₁⟩
    rw [List.getLast?_eq_getElem?, hlast]
    dsimp only
    rw [decode_slot, hfind₁]
    exact ⟨_, rfl, hr.removed_moved hw hi hne hw₁ hi₁ hlast⟩

theorem step (hr : Rel fd m p) {op : PollOp ι} (ha : Interest.Accepts fd m op) (hproper : m.Proper op) :
    ∃ p', p.step fd op = .ok p' ∧ Rel fd (m.next op) p' := by
  cases op with
  | update c e =>
    obtain ⟨hnot, hnone⟩ := hproper
    cases hs : m c with
    | removed => exact absurd hs hnot
    | watched e₀ => exact hr.update_watched hs
    | fresh =>
      refine hr.update_fresh hs ?_ ?_
      · intro he
        obtain ⟨e', he', -⟩ := hnone he
        rw [hs] at he'
        cases he'
      · rcases ha with ⟨e', he'⟩ | hfree
        · rw [hs] at he'
          cases he'
        · exact hfree
  | remove c => exact hr.remove ha

theorem refuses (hr : Rel fd m p) {op : PollOp ι} (ha : ¬ Interest.Accepts fd m op) (hproper : m.Proper op) :
    p.step fd op = .error .assertion := by
  cases op with
  | update c e =>
    obtain ⟨hno, htaken⟩ := not_or.1 ha
    have hfresh : m c = .fresh := by
      cases hs : m c with
      | fresh => rfl
      | watched e₀ => exact absurd ⟨e₀, hs⟩ hno
      | removed => exact absurd hs hproper.1
    push Not at htaken
    obtain ⟨c', e', he', hfd⟩ := htaken
    have hfind : AssocMap.find p.channels (fd c) = some c' := (hr.channels _ _).2 ⟨hfd.symm, e', he'⟩
    rw [PollPoller.step, updateChannel, if_pos (hr.fresh c hfresh), if_neg (by simp [hfind])]
  | remove c =>
    rw [PollPoller.step, removeChannel, if_neg]
    rintro ⟨hfind, hev, -⟩
    obtain ⟨-, e, he⟩ := (hr.channels _ _).1 hfind
    rw [hr.events c e he] at hev
    exact ha (by rw [Interest.Accepts, he, hev])

/-! ### What is watched -/

omit [DecidableEq ι] in
theorem watches_iff (hr : Rel fd m p) {f : Nat} {e : Events} :
    p.Watches f e ↔ ∃ c, fd c = f ∧ m c = .watched e ∧ e ≠ kNoneEvent := by
  constructor
  · intro h
    obtain ⟨i, hlt, hget⟩ := List.getElem_of_mem h
    obtain ⟨c, e', he', hi⟩ := hr.owner i hlt
    obtain ⟨j, hj, hentry⟩ := hr.entry c e' he'
    obtain rfl : i = j := by omega
    rw [List.getElem?_eq_getElem hlt, hget] at hentry
    obtain ⟨hslot, rfl⟩ := Prod.mk.inj (Option.some.inj hentry)
    unfold slot muted at hslot
    split at hslot
    · omega
    · next hne => exact ⟨c, by omega, he', hne⟩
  · rintro ⟨c, rfl, he, hne⟩
    obtain ⟨i, -, hentry⟩ := hr.entry c e he
    have hmem := List.mem_of_getElem? hentry
    rwa [slot, if_neg hne] at hmem

theorem hasChannel (hr : Rel fd m p) (c : ι) : p.hasChannel fd c = true ↔ ∃ e, m c = .watched e := by
  simp [PollPoller.hasChannel, hr.channels]

omit [DecidableEq ι] in
/-- No two entries have one descriptor. -/
theorem pollfds_distinct (hr : Rel fd m p) : p.pollfds.Pairwise fun x y => x.1 ≠ y.1 := by
  rw [List.pairwise_iff_getElem]
  intro i j hi hj hij heq
  obtain ⟨c, e, he, hci⟩ := hr.owner i hi
  obtain ⟨c', e', he', hcj⟩ := hr.owner j hj
  obtain ⟨i', hi', hentry⟩ := hr.entry c e he
  obtain ⟨j', hj', hentry'⟩ := hr.entry c' e' he'
  obtain rfl : i = i' := by omega
  obtain rfl : j = j' := by omega
  rw [List.getElem?_eq_getElem hi] at hentry
  rw [List.getElem?_eq_getElem hj] at hentry'
  rw [Option.some.inj hentry, Option.some.inj hentry'] at heq
  have hfd : fd c = fd c' := by
    rw [← decode_slot (fd c) e, ← decode_slot (fd c') e']
    exact congrArg (fun f : Int => (if f < 0 then -f - 1 else f).toNat) heq
  rw [hr.unique he he' hfd] at hci
  omega

end Rel

theorem revents_pos {ready : Nat → Nat} {f : Int} (h : 0 < revents ready f) :
    0 ≤ f ∧ revents ready f = ready f.toNat := by
  unfold revents at h ⊢
  split at h
  · omega
  · next hf => exact ⟨by omega, if_neg hf⟩

/-- The channel of an entry on which something happened. -/
def activeChannel (p : PollPoller ι) (ready : Nat → Nat) (pfd : Int × Events) : Option (ι × Nat) :=
  if 0 < revents ready pfd.1 then (AssocMap.find p.channels pfd.1.toNat).map fun c => (c, revents ready pfd.1)
  else none

omit [DecidableEq ι] in
theorem fillActiveChannels_zero (l : List (Int × Nat)) : p.fillActiveChannels fd l 0 = .ok [] := by cases l <;> rfl

omit [DecidableEq ι] in
/-- The loop over the entries stops early, but not before it has found all. -/
theorem fillActiveChannels_eq (ready : Nat → Nat) (pfds : List (Int × Events))
    (hres : ∀ pfd ∈ pfds, 0 ≤ pfd.1 → ∃ c, AssocMap.find p.channels pfd.1.toNat = some c ∧ (fd c : Int) = pfd.1) :
    p.fillActiveChannels fd (pfds.map fun pfd => (pfd.1, revents ready pfd.1))
      (pfds.countP fun pfd => 0 < revents ready pfd.1) = .ok (pfds.filterMap (p.activeChannel ready)) := by
  induction pfds with
  | nil => rfl
  | cons pfd pfds ih =>
    obtain ⟨hpfd, hpfds⟩ := List.forall_mem_cons.1 hres
    have ih := ih hpfds
    rw [List.map_cons, List.countP_cons]
    by_cases hactive : 0 < revents ready pfd.1
    · obtain ⟨c, hfind, hfd⟩ := hpfd (revents_pos hactive).1
      have hch : p.activeChannel ready pfd = some (c, revents ready pfd.1) := by
        rw [activeChannel, if_pos hactive, hfind]
        rfl
      rw [if_pos (decide_eq_true hactive), List.filterMap_cons_some hch, fillActiveChannels, if_pos hactive,
        if_neg (Int.not_lt.2 (revents_pos hactive).1), hfind]
      dsimp only
      rw [if_pos hfd, ih]
      rfl
    · have hch : p.activeChannel ready pfd = none := if_neg hactive
      rw [if_neg (by simpa using hactive), List.filterMap_cons_none hch, Nat.add_zero]
      generalize (pfds.countP fun pfd => 0 < revents ready pfd.1) = n at ih ⊢
      cases n with
      | zero =>
        rw [fillActiveChannels_zero] at ih ⊢
        exact ih
      | succ n => rw [fillActiveChannels, if_neg hactive, ih]

omit [DecidableEq ι] in
theorem Rel.resolves (hr : Rel fd m p) (pfd : Int × Events) (hmem : pfd ∈ p.pollfds) (hpos : 0 ≤ pfd.1) :
    ∃ c, AssocMap.find p.channels pfd.1.toNat = some c ∧ (fd c : Int) = pfd.1 := by
  obtain ⟨f, hf⟩ := Int.eq_ofNat_of_zero_le hpos
  have hw : p.Watches f pfd.2 := by
    show ((f : Int), pfd.2) ∈ p.pollfds
    rw [← hf]
    exact hmem
  obtain ⟨c, rfl, he, -⟩ := hr.watches_iff.1 hw
  refine ⟨c, ?_, hf.symm⟩
  rw [hf]
  exact (hr.channels _ _).2 ⟨rfl, _, he⟩

omit [DecidableEq ι] in
theorem Rel.activeChannel_some (hr : Rel fd m p) {ready : Nat → Nat} {pfd : Int × Events} {c : ι} {r : Nat}
    (h : p.activeChannel ready pfd = some (c, r)) :
    pfd.1 = fd c ∧ (∃ e, m c = .watched e) ∧ r = ready (fd c) ∧ 0 < r := by
  unfold activeChannel at h
  split at h
  · next hactive =>
    obtain ⟨hpos, hready⟩ := revents_pos hactive
    obtain ⟨c', hfind, heq⟩ := Option.map_eq_some_iff.1 h
    obtain ⟨rfl, rfl⟩ := Prod.mk.inj heq
    obtain ⟨hfd, hw⟩ := (hr.channels _ _).1 hfind
    exact ⟨by omega, hw, by rw [hready, hfd], hactive⟩
  · cases h

omit [DecidableEq ι] in
/-- The channels that are handed on are those on which something happened and that wanted something, each
of them once. -/
theorem Rel.poll (hr : Rel fd m p) (ready : Nat → Nat) :
    ∃ l, p.poll fd ready = .ok l ∧ (l.map Prod.fst).Nodup ∧
      ∀ c r, (c, r) ∈ l ↔ (∃ e, m c = .watched e ∧ e ≠ kNoneEvent) ∧ r = ready (fd c) ∧ 0 < r := by
  have hcount : (p.polled ready).countP (fun x => 0 < x.2) = p.pollfds.countP fun pfd => 0 < revents ready pfd.1 := by
    rw [polled, List.countP_map]
    rfl
  refine ⟨_, by rw [PollPoller.poll, hcount]; exact fillActiveChannels_eq ready _ hr.resolves, ?_, fun c r => ?_⟩
  · rw [List.Nodup, List.pairwise_map, List.pairwise_filterMap]
    refine hr.pollfds_distinct.imp ?_
    rintro x y hne ⟨c, r⟩ hx ⟨c', r'⟩ hy rfl
    exact hne ((hr.activeChannel_some hx).1.trans (hr.activeChannel_some hy).1.symm)
  · rw [List.mem_filterMap]
    constructor
    · rintro ⟨pfd, hmem, hact⟩
      obtain ⟨hfd, ⟨e, he⟩, hready, hpos⟩ := hr.activeChannel_some hact
      have hw : p.Watches (fd c) pfd.2 := by
        show ((fd c : Int), pfd.2) ∈ p.pollfds
        rw [← hfd]
        exact hmem
      obtain ⟨c₁, hfd₁, he₁, hne⟩ := hr.watches_iff.1 hw
      rw [hr.unique he₁ he hfd₁] at he₁
      exact ⟨⟨pfd.2, he₁, hne⟩, hready, hpos⟩
    · rintro ⟨⟨e, he, hne⟩, rfl, hpos⟩
      refine ⟨((fd c : Int), e), hr.watches_iff.2 ⟨c, rfl, he, hne⟩, ?_⟩
      have hrev : revents ready (fd c : Int) = ready (fd c) := if_neg (by omega)
      have hfind : AssocMap.find p.channels (fd c) = some c := (hr.channels _ _).2 ⟨rfl, e, he⟩
      simp [activeChannel, hrev, hpos, hfind]

omit [DecidableEq ι] in
theorem rel_new : Rel fd (fun _ => .fresh) ({} : PollPoller ι) where
  channels f c := by simp [AssocMap.find]
  events c e h := by cases h
  fresh c _ := by simp
  entry c e h := by cases h
  owner i h := by cases h

end PollPoller

end IMServer.Net
