import IMServer.Net.Connection

/-!
# What a connection delivers

A connection refines a pipe: each of its steps is some steps of the pipe whose queue is the output
buffer (`step_goes`). The channel is armed for writing exactly while the queue is not empty, as long as
the connection is not down. So whatever the kernel answers and in whatever order events, functors and
calls of other threads come, the kernel has received a prefix of what was taken.
-/

namespace IMServer.Net

def StateE.phase : StateE → Pipe.Phase
  | kConnecting => .opening
  | kConnected => .up
  | kDisconnecting => .closing
  | kDisconnected => .down

@[simp] theorem StateE.phase_eq_down {s : StateE} : s.phase = .down ↔ s = .kDisconnected := by cases s <;> simp [phase]

@[simp] theorem StateE.phase_eq_up {s : StateE} : s.phase = .up ↔ s = .kConnected := by cases s <;> simp [phase]

@[simp] theorem StateE.phase_eq_closing {s : StateE} : s.phase = .closing ↔ s = .kDisconnecting := by
  cases s <;> simp [phase]

namespace Connection
variable {late : Prop} {c c₁ c' : Connection}

def pipe (c : Connection) : Pipe UInt8 Note := ⟨c.state.phase, c.outputBuffer.content, c.log⟩

/-- The channel is armed for writing while something is queued. `late` messages are those another thread
has left to the loop. -/
structure Armed (late : Prop) (c : Connection) : Prop where
  writing : c.state ≠ .kDisconnected → (c.isWriting = true ↔ c.outputBuffer.content ≠ [])
  down : c.state = .kDisconnected → c.isWriting = false
  shutdown : .shutdownInLoop ∈ c.pendingFunctors → c.state = .kDisconnecting ∨ c.state = .kDisconnected
  early : ¬ late → ∀ message, .sendInLoop message ∉ c.pendingFunctors

/-- Once nothing is left the end is sent, or will be, unless the connection is to be closed anyway. -/
structure Inv (late : Prop) (c : Connection) : Prop extends Armed late c where
  closing : c.state = .kDisconnecting → c.outputBuffer.content = [] →
    .fin ∈ c.log ∨ .note .forceClose ∈ c.log ∨ .shutdownInLoop ∈ c.pendingFunctors

def Goes (late : Prop) (c c' : Connection) : Prop := Inv late c → Pipe.Steps late c.pipe c'.pipe ∧ Inv late c'

/-- A longer log is as good. -/
theorem Inv.logged {log : List Log} (hi : Inv late c) (hlog : c.log ⊆ log) : Inv late { c with log := log } where
  writing := hi.writing
  down := hi.down
  shutdown := hi.shutdown
  early := hi.early
  closing hs hempty := (hi.closing hs hempty).imp (fun h => hlog h) (Or.imp_left fun h => hlog h)

theorem Inv.record (hi : Inv late c) (l : Log) : Inv late (c.record l) := hi.logged (List.subset_append_left _ _)

namespace Goes

theorem refl (c : Connection) : Goes late c c := fun hi => ⟨.refl, hi⟩

theorem trans (h₁ : Goes late c c₁) (h₂ : Goes late c₁ c') : Goes late c c' := by
  intro hi
  obtain ⟨hs₁, hi₁⟩ := h₁ hi
  obtain ⟨hs₂, hi₂⟩ := h₂ hi₁
  exact ⟨hs₁.trans hs₂, hi₂⟩

/-- What the pipe does not see. -/
theorem of_same (hs : c'.state = c.state) (hw : c'.isWriting = c.isWriting) (ho : c'.outputBuffer = c.outputBuffer)
    (hl : c'.log = c.log) (hf : ∀ f ∈ c'.pendingFunctors, f ∈ c.pendingFunctors ∨
      f ≠ .shutdownInLoop ∧ ∀ message, f ≠ .sendInLoop message)
    (hf' : .shutdownInLoop ∈ c.pendingFunctors → .shutdownInLoop ∈ c'.pendingFunctors) : Goes late c c' := by
  intro hi
  refine ⟨?_, ⟨⟨?_, ?_, ?_, ?_⟩, ?_⟩⟩
  · have hpipe : c'.pipe = c.pipe := by rw [pipe, pipe, hs, ho, hl]
    rw [hpipe]
  · rw [hs, hw, ho]
    exact hi.writing
  · rw [hs, hw]
    exact hi.down
  · intro hmem
    rw [hs]
    rcases hf _ hmem with hmem | ⟨hne, -⟩
    · exact hi.shutdown hmem
    · exact absurd rfl hne
  · intro hl' message hmem
    rcases hf _ hmem with hmem | ⟨-, hne⟩
    · exact hi.early hl' message hmem
    · exact hne message rfl
  · rw [hs, ho, hl]
    intro hs hempty
    exact (hi.closing hs hempty).imp_right (Or.imp_right hf')

theorem record (n : Note) : Goes late c (c.record (.note n)) := by
  intro hi
  exact ⟨.single (.note n), hi.record _⟩

theorem queueInLoop {f : Functor} (hf : f ≠ .shutdownInLoop) (hf' : ∀ message, f ≠ .sendInLoop message) :
    Goes late c (c.queueInLoop f) := by
  refine of_same rfl rfl rfl rfl ?_ (List.mem_append_left _)
  intro g hg
  rcases List.mem_append.1 hg with hg | hg
  · exact .inl hg
  · rw [List.mem_singleton.1 hg]
    exact .inr ⟨hf, hf'⟩

/-- The functor that is called next. -/
theorem pop {f : Functor} {fs : List Functor} (h : c.pendingFunctors = f :: fs) (hf : f ≠ .shutdownInLoop) :
    Goes late c (c.setPendingFunctors fs) := by
  refine of_same rfl rfl rfl rfl (fun _ hg => .inl (h ▸ .tail _ hg)) ?_
  rw [h]
  exact fun hmem => (List.mem_cons.1 hmem).resolve_left (Ne.symm hf)

end Goes

/-! ### Sending -/

/-- The bytes that are left go to the end of the output buffer, and the channel is armed. -/
theorem keep_spec (c : Connection) (remaining : Bytes) :
    ∃ buf fs, c.keep remaining = .ok { c with
        outputBuffer := buf
        isWriting := true
        inPoller := c.inPoller || !c.isWriting
        pendingFunctors := c.pendingFunctors ++ fs } ∧
      buf.content = c.outputBuffer.content ++ remaining ∧ ∀ f ∈ fs, ∃ len, f = .highWaterMarkCallback len := by
  obtain ⟨buf, hb, hc, -⟩ := c.outputBuffer.append_spec remaining
  have harm : ∀ c₁ : Connection, (if c₁.isWriting then c₁ else c₁.enableWriting) =
      { c₁ with isWriting := true, inPoller := c₁.inPoller || !c₁.isWriting } := by
    intro c₁
    by_cases hw : c₁.isWriting
    · cases c₁
      subst hw
      simp
    · simp [enableWriting, hw]
  unfold keep
  dsimp only
  split
  · refine ⟨buf, [.highWaterMarkCallback (c.outputBuffer.readableBytes + remaining.length)], ?_, hc,
      fun f hf => ⟨_, List.mem_singleton.1 hf⟩⟩
    simp only [queueInLoop, hb, Except.ok_bind]
    exact congrArg Except.ok (harm ((c.queueInLoop _).setOutputBuffer buf))
  · refine ⟨buf, [], ?_, hc, by simp⟩
    simp only [hb, Except.ok_bind, List.append_nil]
    exact congrArg Except.ok (harm (c.setOutputBuffer buf))

theorem Inv.kept {fs : List Functor} {buf : Buffer} {log : List Log} {isIn : Bool} (hi : Inv late c)
    (hs : c.state ≠ .kDisconnected) (hne : buf.content ≠ []) (hfs : ∀ f ∈ fs, ∃ len, f = .highWaterMarkCallback len) :
    Inv late { c with
      outputBuffer := buf
      isWriting := true
      inPoller := isIn
      pendingFunctors := c.pendingFunctors ++ fs
      log := log } where
  writing _ := by simp [hne]
  down hd := absurd hd hs
  shutdown hmem := by
    rcases List.mem_append.1 hmem with hmem | hmem
    · exact hi.shutdown hmem
    · obtain ⟨len, hf⟩ := hfs _ hmem
      cases hf
  early hl message hmem := by
    rcases List.mem_append.1 hmem with hmem | hmem
    · exact hi.early hl message hmem
    · obtain ⟨len, hf⟩ := hfs _ hmem
      cases hf
  closing _ hempty := absurd hempty hne

/-- A message that is kept whole. -/
theorem keep_goes {message : Bytes} (hs : c.state ≠ .kDisconnected) (ht : c.pipe.Takes late) (hne : message ≠ [])
    (h : (c.record (.taken message)).keep message = .ok c') : Goes late c c' := by
  intro hi
  obtain ⟨buf, fs, hk, hc, hfs⟩ := (c.record (.taken message)).keep_spec message
  obtain rfl := Except.ok_unique hk h
  refine ⟨?_, hi.kept hs (by simp [hc, hne]) hfs⟩
  have hstep := Pipe.Step.enqueue message ht
  refine .single ?_
  simp only [pipe, record] at hc hstep ⊢
  rwa [hc]

theorem Goes.taken_nil (ht : c.pipe.Takes late) : Goes late c (c.record (.taken [])) := by
  intro hi
  have hstep := Pipe.Step.enqueue [] ht
  rw [List.append_nil] at hstep
  exact ⟨.single hstep, hi.record _⟩

theorem sendInLoop_goes {message : Bytes} {w : Wrote} (ht : c.state ≠ .kDisconnected → c.pipe.Takes late)
    (h : c.sendInLoop message w = .ok c') : Goes late c c' := by
  unfold sendInLoop at h
  split at h
  · obtain rfl := Except.ok.inj h
    exact .record _
  next hs =>
  have ht := ht hs
  have hkeep : (if message = [] then .ok (c.record (.taken message)) else (c.record (.taken message)).keep message) =
      .ok c' → Goes late c c' := by
    intro h
    split at h
    · next hnil =>
      obtain rfl := Except.ok.inj h
      subst hnil
      exact .taken_nil ht
    · next hne => exact keep_goes hs ht hne h
  split at h
  · next hidle =>
    -- nothing is queued, so the kernel is asked first
    have hempty : c.outputBuffer.content = [] :=
      List.eq_nil_of_length_eq_zero (by rw [Buffer.length_content]; exact hidle.2)
    cases w with
    | bytes n =>
      have hstep : Pipe.Step late c.pipe _ := .pass message n ht hempty
      dsimp only at h
      split at h
      · next hle =>
        intro hi
        have hrest : message.drop n = [] := List.drop_eq_nil_of_le hle
        have hpass : Goes late c ((c.record (.taken message)).record (.wrote (message.take n))) := by
          intro hi
          refine ⟨.single ?_, (hi.record _).record _⟩
          rw [hrest] at hstep
          simpa [pipe, record, hempty] using hstep
        refine hpass.trans ?_ hi
        obtain rfl := Except.ok.inj h
        split
        · exact .queueInLoop (by simp) (by simp)
        · exact .refl _
      · next hlt =>
        intro hi
        obtain ⟨buf, fs, hk, hc, hfs⟩ :=
          ((c.record (.taken message)).record (.wrote (message.take n))).keep_spec (message.drop n)
        obtain rfl := Except.ok_unique hk h
        have hbuf : buf.content = message.drop n := by simpa [record, hempty] using hc
        have hne : buf.content ≠ [] := by
          rw [hbuf, Ne, List.drop_eq_nil_iff]
          exact hlt
        refine ⟨.single ?_, hi.kept hs hne hfs⟩
        simpa [pipe, record, hbuf] using hstep
    | reset =>
      obtain rfl := Except.ok.inj h
      exact .record _
    | wouldBlock => exact hkeep h
    | failed => exact hkeep h
  · exact hkeep h

/-! ### Writing -/

/-- The end is sent, or there is still something to be sent before it. -/
theorem Armed.shutdownInLoop (ha : Armed late c) (hs : c.state = .kDisconnecting ∨ c.state = .kDisconnected) :
    Pipe.Steps late c.pipe c.shutdownInLoop.pipe ∧ Inv late c.shutdownInLoop := by
  unfold Connection.shutdownInLoop
  split
  · next hw =>
    refine ⟨.refl, ⟨ha, fun hc hempty => ?_⟩⟩
    exact absurd hempty ((ha.writing (by simp [hc])).1 hw)
  · next hw =>
    refine ⟨.single (.fin ?_), ⟨⟨ha.writing, ha.down, ha.shutdown, ha.early⟩, fun _ _ => ?_⟩⟩
    · rcases hs with hs | hs
      · refine .inl ⟨by simp [pipe, hs], ?_⟩
        by_contra hne
        exact hw ((ha.writing (by simp [hs])).2 hne)
      · exact .inr (by simp [pipe, hs])
    · exact .inl (List.mem_append_right _ (.head _))

/-- With the last byte written the channel is disarmed, and the end follows if it was asked for. -/
theorem Armed.drained (ha : Armed late c.disableWriting) :
    Pipe.Steps late c.pipe c.drained.pipe ∧ Inv late c.drained := by
  unfold Connection.drained
  dsimp only
  have hqueue : Armed late (if c.disableWriting.writeCompleteCallback then
        c.disableWriting.queueInLoop .writeCompleteCallback else c.disableWriting) ∧
      (if c.disableWriting.writeCompleteCallback then
        c.disableWriting.queueInLoop .writeCompleteCallback else c.disableWriting).pipe = c.pipe := by
    split
    · refine ⟨⟨ha.writing, ha.down, fun hmem => ha.shutdown ?_, fun hl message hmem => ha.early hl message ?_⟩, rfl⟩
      · simpa [Connection.queueInLoop] using hmem
      · simpa [Connection.queueInLoop] using hmem
    · exact ⟨ha, rfl⟩
  generalize (if c.disableWriting.writeCompleteCallback then
    c.disableWriting.queueInLoop .writeCompleteCallback else c.disableWriting) = c₁ at hqueue
  obtain ⟨ha₁, hpipe⟩ := hqueue
  rw [← hpipe]
  split
  · next hs => exact ha₁.shutdownInLoop (.inl hs)
  · next hs => exact ⟨.refl, ⟨ha₁, fun hc => absurd hc hs⟩⟩

/-- The connection with the first `n` bytes of its output written, of which `buf` is the rest. -/
def flushed (c : Connection) (n : Nat) (buf : Buffer) : Connection :=
  (c.record (.wrote (c.outputBuffer.content.take n))).setOutputBuffer buf

theorem handleWrite_cases {w : Wrote} (h : c.handleWrite w = .ok c') :
    c' = c ∧ (c.isWriting → 0 < c.outputBuffer.readableBytes → ∀ n, w = .bytes n → n = 0) ∨
    c.isWriting ∧ ∃ n buf, 0 < n ∧ n ≤ c.outputBuffer.readableBytes ∧
      buf.content = c.outputBuffer.content.drop n ∧
      (buf.content = [] ∧ c' = (c.flushed n buf).drained ∨ buf.content ≠ [] ∧ c' = c.flushed n buf) := by
  unfold handleWrite at h
  split at h
  · next hw =>
    cases w with
    | bytes n =>
      dsimp only at h
      split at h
      · next hpos =>
        obtain ⟨buf, hb, hc, -⟩ := Buffer.retrieve_spec (Nat.min_le_right n c.outputBuffer.readableBytes)
        rw [hb, Except.ok_bind] at h
        obtain rfl := Except.ok.inj h
        refine .inr ⟨hw, _, buf, hpos, Nat.min_le_right _ _, hc, ?_⟩
        have hiff : buf.readableBytes = 0 ↔ buf.content = [] := by rw [← Buffer.length_content, List.length_eq_zero_iff]
        by_cases hempty : buf.content = []
        · exact .inl ⟨hempty, if_pos (hiff.2 hempty)⟩
        · exact .inr ⟨hempty, if_neg (mt hiff.1 hempty)⟩
      · next hzero =>
        refine .inl ⟨(Except.ok.inj h).symm, fun _ hpos k hk => ?_⟩
        cases hk
        omega
    | _ => exact .inl ⟨(Except.ok.inj h).symm, fun _ _ _ hk => by cases hk⟩
  · next hw => exact .inl ⟨(Except.ok.inj h).symm, fun hw' => absurd hw' hw⟩

theorem handleWrite_goes {w : Wrote} (h : c.handleWrite w = .ok c') : Goes late c c' := by
  intro hi
  rcases handleWrite_cases h with ⟨rfl, -⟩ | ⟨hw, n, buf, -, -, hc, hout⟩
  · exact Goes.refl _ hi
  have hs : c.state ≠ .kDisconnected := by
    intro hs
    rw [hi.down hs] at hw
    cases hw
  have hstep : Pipe.Step late c.pipe _ := .write n (by simpa [pipe] using hs) ((hi.writing hs).1 hw)
  simp only [pipe, ← hc] at hstep
  rcases hout with ⟨hempty, rfl⟩ | ⟨hne, rfl⟩
  · -- the channel is disarmed with the last byte
    have ha : Armed late (c.flushed n buf).disableWriting :=
      ⟨fun _ => by simp [flushed, hempty], fun _ => rfl, hi.shutdown, hi.early⟩
    exact And.imp_left (fun hsteps => hsteps.head hstep) ha.drained
  · refine ⟨.single hstep, ⟨⟨fun _ => ?_, fun hd => absurd hd hs, hi.shutdown, hi.early⟩, fun _ hnil => ?_⟩⟩
    · exact ⟨fun _ => hne, fun _ => hw⟩
    · exact absurd hnil hne

/-! ### Everything else -/

theorem startReadInLoop_goes : Goes late c c.startReadInLoop := by
  unfold startReadInLoop
  split
  · exact .of_same rfl rfl rfl rfl (fun _ hf => .inl hf) id
  · exact .refl _

theorem stopReadInLoop_goes : Goes late c c.stopReadInLoop := by
  unfold stopReadInLoop
  split
  · exact .of_same rfl rfl rfl rfl (fun _ hf => .inl hf) id
  · exact .refl _

theorem Armed.disconnecting (ha : Armed late c) (hs : c.state = .kConnected ∨ c.state = .kDisconnecting) :
    Armed late (c.setState .kDisconnecting) where
  writing _ := by
    refine ha.writing ?_
    rcases hs with hs | hs <;> simp [hs]
  down hd := by cases hd
  shutdown _ := .inl rfl
  early := ha.early

theorem close_steps (hs : c.state = .kConnected ∨ c.state = .kDisconnecting) :
    Pipe.Steps late c.pipe (c.setState .kDisconnecting).pipe := .single (.close (by simpa [pipe] using hs))

theorem forceClose_goes (hs : c.state = .kConnected ∨ c.state = .kDisconnecting) :
    Goes late c ((c.record (.note .forceClose)).setState .kDisconnecting) := by
  refine (Goes.record .forceClose).trans ?_
  intro hi
  refine ⟨close_steps hs, ⟨hi.toArmed.disconnecting hs, fun _ _ => ?_⟩⟩
  exact .inr (.inl (List.mem_append_right _ (.head _)))

theorem shutdown_goes (hs : c.state = .kConnected) :
    Goes late c (c.setState .kDisconnecting).shutdownInLoop := by
  intro hi
  obtain ⟨hsteps, hi'⟩ := (hi.toArmed.disconnecting (.inl hs)).shutdownInLoop (.inl rfl)
  exact ⟨(close_steps (.inl hs)).trans hsteps, hi'⟩

theorem act_goes {a : Act} (h : c.act a = .ok c') : Goes late c c' := by
  cases a with
  | send message w =>
    rw [act] at h
    split at h
    · next hs => exact (Goes.record _).trans (sendInLoop_goes (fun _ => .inl (by simpa [pipe, record] using hs)) h)
    · obtain rfl := Except.ok.inj h
      exact (Goes.record _).trans (.record _)
  | sendBuffer w =>
    rw [act] at h
    split at h
    · next hs =>
      obtain ⟨c₁, h₁, h⟩ := Except.bind_eq_ok.1 h
      obtain rfl := Except.ok.inj h
      have hsend : Goes late _ c₁ := sendInLoop_goes (fun _ => .inl (by simpa [pipe, record] using hs)) h₁
      exact ((Goes.record _).trans hsend).trans (.of_same rfl rfl rfl rfl (fun _ hf => .inl hf) id)
    · obtain rfl := Except.ok.inj h
      exact (Goes.record _).trans (.record _)
  | shutdown =>
    obtain rfl := Except.ok.inj h
    split
    · next hs => exact shutdown_goes hs
    · exact .refl _
  | forceClose =>
    obtain rfl := Except.ok.inj h
    split
    · next hs => exact (forceClose_goes hs).trans (.queueInLoop (by simp) (by simp))
    · exact .refl _
  | forceCloseWithDelay =>
    obtain rfl := Except.ok.inj h
    split
    · next hs => exact forceClose_goes hs
    · exact .refl _
  | startRead =>
    obtain rfl := Except.ok.inj h
    exact startReadInLoop_goes
  | stopRead =>
    obtain rfl := Except.ok.inj h
    exact stopReadInLoop_goes
  | retrieve len =>
    obtain ⟨buf, -, h⟩ := Except.bind_eq_ok.1 h
    obtain rfl := Except.ok.inj h
    exact .of_same rfl rfl rfl rfl (fun _ hf => .inl hf) id

theorem acts_goes {as : List Act} (h : c.acts as = .ok c') : Goes late c c' := by
  unfold acts at h
  induction as generalizing c with
  | nil =>
    obtain rfl := Except.ok.inj h
    exact .refl _
  | cons a as ih =>
    obtain ⟨c₁, h₁, h⟩ := Except.foldlM_cons_ok.1 h
    exact (act_goes h₁).trans (ih h)

theorem connectEstablished_goes {as : List Act} (h : c.connectEstablished as = .ok c') : Goes late c c' := by
  unfold connectEstablished at h
  split at h
  · next hs =>
    refine Goes.trans ?_ (acts_goes h)
    intro hi
    refine ⟨.single (.opened Note.up (by simp [pipe, hs, StateE.phase])), 
      ⟨⟨fun _ => hi.writing (by simp [hs]), fun hd => (by cases hd), ?_, hi.early⟩, fun hc => (by cases hc)⟩⟩
    intro hmem
    have := hi.shutdown hmem
    simp [hs] at this
  · cases h

theorem Goes.down (hs : c.state = .kConnected ∨ c.state = .kDisconnecting) :
    Goes late c c.closed := by
  intro hi
  exact ⟨.single (.down (by simpa [pipe] using hs)), 
    ⟨⟨fun hd => absurd rfl hd, fun _ => rfl, fun _ => .inr rfl, hi.early⟩, fun hc => (by cases hc)⟩⟩

theorem removeConnection_goes (h : c.removeConnection = .ok c') : Goes late c c' := by
  unfold removeConnection at h
  split at h
  · obtain rfl := Except.ok.inj h
    have hsame : Goes late c c.unregister := .of_same rfl rfl rfl rfl (fun _ hf => .inl hf) id
    exact hsame.trans (.queueInLoop (by simp) (by simp))
  · cases h

theorem handleClose_goes {as : List Act} (h : c.handleClose as = .ok c') : Goes late c c' := by
  unfold handleClose at h
  split at h
  · next hs =>
    obtain ⟨c₁, h₁, h⟩ := Except.bind_eq_ok.1 h
    exact ((Goes.down hs).trans (acts_goes h₁)).trans (removeConnection_goes h)
  · cases h

theorem removeChannel_goes (h : c.removeChannel = .ok c') : Goes late c c' := by
  unfold removeChannel at h
  split at h
  · obtain rfl := Except.ok.inj h
    exact .of_same rfl rfl rfl rfl (fun _ hf => .inl hf) id
  · cases h

theorem connectDestroyed_goes {as : List Act} (h : c.connectDestroyed as = .ok c') : Goes late c c' := by
  unfold connectDestroyed at h
  split at h
  · next hs =>
    obtain ⟨c₁, h₁, h⟩ := Except.bind_eq_ok.1 h
    exact ((Goes.down (.inl hs)).trans (acts_goes h₁)).trans (removeChannel_goes h)
  · exact removeChannel_goes h

theorem handleRead_goes {r : Option Bytes} {as : List Act} (h : c.handleRead r as = .ok c') : Goes late c c' := by
  match r with
  | none =>
    obtain rfl := Except.ok.inj h
    exact .refl _
  | some [] => exact handleClose_goes h
  | some (b :: chunk) =>
    obtain ⟨⟨data, buf⟩, -, h⟩ := Except.bind_eq_ok.1 h
    have hread : Goes late c (c.setInputBuffer buf) := .of_same rfl rfl rfl rfl (fun _ hf => .inl hf) id
    exact (hread.trans (.record _)).trans (acts_goes h)

/-- A callback that is called for some events. -/
theorem Goes.guard {b : Bool} {x : Except Fault Connection} (hx : x = .ok c' → Goes late c c')
    (h : (if b then x else .ok c) = .ok c') : Goes late c c' := by
  split at h
  · exact hx h
  · obtain rfl := Except.ok.inj h
    exact .refl _

theorem handleEvent_goes {revents : Revents} {r : Option Bytes} {w : Wrote} {onClose onRead : List Act}
    (h : c.handleEvent revents r w onClose onRead = .ok c') : Goes late c c' := by
  obtain ⟨c₁, h₁, h⟩ := Except.bind_eq_ok.1 h
  obtain ⟨c₂, h₂, h⟩ := Except.bind_eq_ok.1 h
  exact ((Goes.guard handleClose_goes h₁).trans (.guard handleRead_goes h₂)).trans (.guard handleWrite_goes h)

theorem functor_goes {w : Wrote} {as : List Act} {f : Functor} {fs : List Functor} (hf : c.pendingFunctors = f :: fs)
    (h : (c.setPendingFunctors fs).runFunctor w as f = .ok c') : Goes late c c' := by
  intro hi
  have hmem : f ∈ c.pendingFunctors := hf ▸ .head _
  cases f with
  | sendInLoop message =>
    -- it was queued by another thread, so `late` is the case
    have hlate : late := by
      by_contra hl
      exact hi.early hl message hmem
    exact (Goes.pop hf (by simp)).trans (sendInLoop_goes (fun hs => .inr ⟨hlate, by simpa [pipe] using hs⟩) h) hi
  | shutdownInLoop =>
    obtain rfl := Except.ok.inj h
    have hfs : ∀ g ∈ fs, g ∈ c.pendingFunctors := fun g hg => hf ▸ .tail _ hg
    have ha : Armed late (c.setPendingFunctors fs) :=
      ⟨hi.writing, hi.down, fun hg => hi.shutdown (hfs _ hg), fun hl message hg => hi.early hl message (hfs _ hg)⟩
    exact ha.shutdownInLoop (hi.shutdown hmem)
  | forceCloseInLoop =>
    refine (Goes.pop hf (by simp)).trans ?_ hi
    rw [runFunctor, forceCloseInLoop] at h
    split at h
    · exact handleClose_goes h
    · obtain rfl := Except.ok.inj h
      exact .refl _
  | startReadInLoop =>
    obtain rfl := Except.ok.inj h
    exact (Goes.pop hf (by simp)).trans startReadInLoop_goes hi
  | stopReadInLoop =>
    obtain rfl := Except.ok.inj h
    exact (Goes.pop hf (by simp)).trans stopReadInLoop_goes hi
  | connectDestroyed => exact (Goes.pop hf (by simp)).trans (connectDestroyed_goes h) hi
  | writeCompleteCallback => exact (Goes.pop hf (by simp)).trans ((Goes.record _).trans (acts_goes h)) hi
  | highWaterMarkCallback len => exact (Goes.pop hf (by simp)).trans ((Goes.record _).trans (acts_goes h)) hi

/-- Only a message of another thread is ever late. -/
def Op.Late : Op → Prop
  | .sendElsewhere _ => True
  | _ => False

theorem step_goes {op : Op} (hlate : op.Late → late) (h : c.step op = .ok c') : Goes late c c' := by
  cases op with
  | connectEstablished as => exact connectEstablished_goes h
  | handleEvent revents r w onClose onRead => exact handleEvent_goes h
  | functor w as =>
    rw [step] at h
    split at h
    · obtain rfl := Except.ok.inj h
      exact .refl _
    · next f fs hf => exact functor_goes hf h
  | act a => exact act_goes h
  | connectDestroyed as => exact connectDestroyed_goes h
  | sendElsewhere message =>
    obtain rfl := Except.ok.inj h
    split
    · refine (Goes.record (.called message)).trans ?_
      intro hi
      refine ⟨.refl, ⟨⟨hi.writing, hi.down, fun hmem => hi.shutdown ?_, fun hl => absurd (hlate trivial) hl⟩, ?_⟩⟩
      · simpa [Connection.queueInLoop] using hmem
      · exact fun hs hempty => (hi.closing hs hempty).imp_right (Or.imp_right (List.mem_append_left _))
    · exact (Goes.record _).trans (.record _)
  | shutdownElsewhere =>
    obtain rfl := Except.ok.inj h
    split
    · next hs =>
      intro hi
      have ha := hi.toArmed.disconnecting (.inl hs)
      refine ⟨close_steps (.inl hs), ⟨⟨ha.writing, ha.down, fun _ => .inl rfl, fun hl message hmem => ?_⟩, ?_⟩⟩
      · exact hi.early hl message (by simpa [Connection.queueInLoop] using hmem)
      · exact fun _ _ => .inr (.inr (List.mem_append_right _ (.head _)))
    · exact .refl _
  | startReadElsewhere =>
    obtain rfl := Except.ok.inj h
    exact .queueInLoop (by simp) (by simp)
  | stopReadElsewhere =>
    obtain rfl := Except.ok.inj h
    exact .queueInLoop (by simp) (by simp)
  | nameErased =>
    obtain rfl := Except.ok.inj h
    exact .of_same rfl rfl rfl rfl (fun _ hf => .inl hf) id

theorem run_goes {ops : List Op} (hlate : ∀ op ∈ ops, op.Late → late) (h : c.run ops = .ok c') : Goes late c c' := by
  unfold run at h
  induction ops generalizing c with
  | nil =>
    obtain rfl := Except.ok.inj h
    exact .refl _
  | cons op ops ih =>
    obtain ⟨c₁, h₁, h⟩ := Except.foldlM_cons_ok.1 h
    obtain ⟨hop, hops⟩ := List.forall_mem_cons.1 hlate
    exact (step_goes hop h₁).trans (ih hops h)

/-! ### Whole runs -/

variable {mark : Nat} {onWrite onHigh : Bool} {ops : List Op}

theorem inv_new : Inv late (new mark onWrite onHigh) where
  writing _ := by simp [new]
  down hd := by cases hd
  shutdown hmem := by cases hmem
  early _ _ hmem := by cases hmem
  closing hs := by cases hs

theorem pipe_new : (new mark onWrite onHigh).pipe = {} := by simp [pipe, new, StateE.phase]

/-- A run of a connection is a run of the pipe, from one with nothing in it. -/
theorem run_pipe (late : Prop) (hlate : ∀ op ∈ ops, op.Late → late) (h : (new mark onWrite onHigh).run ops = .ok c) :
    Pipe.Steps late {} c.pipe ∧ Inv late c := by
  rw [← pipe_new]
  exact run_goes hlate h inv_new

end Connection

open Connection

namespace Connection
variable {late : Prop} {c c₁ c' : Connection}

/-- The kernel has room, and takes something. -/
def Op.flushes : Op → Bool
  | .handleEvent revents _ (.bytes n) _ _ => revents.out && 0 < n
  | _ => false

theorem log_drained (c : Connection) : c.drained.log = c.log ∨ c.drained.log = c.log ++ [.fin] := by
  unfold drained shutdownInLoop
  dsimp only
  split <;> split <;> simp [disableWriting, Connection.queueInLoop, Connection.record]

theorem handleWrite_progress {n : Nat} (hi : Inv late c) (hs : c.state ≠ .kDisconnected) (hn : 0 < n)
    (h : c.handleWrite (.bytes n) = .ok c') :
    c.outputBuffer.content = [] ∨ (Pipe.wrote c.log).length < (Pipe.wrote c'.log).length := by
  by_cases hempty : c.outputBuffer.content = []
  · exact .inl hempty
  right
  have hpos : 0 < c.outputBuffer.readableBytes := by
    rw [← Buffer.length_content]
    exact List.length_pos_of_ne_nil hempty
  rcases handleWrite_cases h with ⟨-, hzero⟩ | ⟨-, k, buf, hk, hle, -, hout⟩
  · have := hzero ((hi.writing hs).2 hempty) hpos n rfl
    omega
  have hlen : (c.outputBuffer.content.take k).length = k := by
    rw [List.length_take, Buffer.length_content]
    omega
  rcases hout with ⟨-, rfl⟩ | ⟨-, rfl⟩
  · rcases log_drained (c.flushed k buf) with hl | hl
    · rw [hl]
      simp [flushed, hlen, hk]
    · rw [hl]
      simp [flushed, hlen, hk]
  · simp [flushed, hlen, hk]

/-- An event with room in the kernel moves the stream on, or finds it all written. -/
theorem step_progress {op : Op} (hflush : op.flushes) (h : c.step op = .ok c') (hi : Inv True c)
    (hexact : c.pipe.Exact) (hup : c'.state ≠ .kDisconnected) :
    (Pipe.taken c.log).length ≤ (Pipe.wrote c'.log).length ∨
      (Pipe.wrote c.log).length < (Pipe.wrote c'.log).length := by
  match op, hflush with
  | .handleEvent revents r (.bytes n) onClose onRead, hflush =>
    have hflush : revents.out = true ∧ 0 < n := by simpa [Op.flushes] using hflush
    rw [step, handleEvent] at h
    obtain ⟨c₁, h₁, h⟩ := Except.bind_eq_ok.1 h
    obtain ⟨c₂, h₂, h⟩ := Except.bind_eq_ok.1 h
    rw [if_pos hflush.1] at h
    obtain ⟨hsteps₂, hi₂⟩ := ((Goes.guard handleClose_goes h₁).trans (.guard handleRead_goes h₂)) hi
    obtain ⟨hsteps, -⟩ := handleWrite_goes h hi₂
    have hup₂ : c₂.state ≠ .kDisconnected := by
      intro hd
      have hdown := hsteps.stays_down (by simpa [pipe] using hd)
      exact hup (by simpa [pipe] using hdown)
    have hgrow₂ : (Pipe.wrote c.log).length ≤ (Pipe.wrote c₂.log).length := hsteps₂.wrote_grows.length_le
    rcases handleWrite_progress hi₂ hup₂ hflush.2 h with hempty | hlt
    · left
      have hexact₂ : Pipe.wrote c₂.log ++ c₂.outputBuffer.content = Pipe.taken c₂.log := hsteps₂.exact hexact
      rw [hempty, List.append_nil] at hexact₂
      have htaken : (Pipe.taken c.log).length ≤ (Pipe.taken c₂.log).length := hsteps₂.taken_grows.length_le
      have hwrote : (Pipe.wrote c₂.log).length ≤ (Pipe.wrote c'.log).length := hsteps.wrote_grows.length_le
      rw [hexact₂] at hwrote
      omega
    · right
      omega

theorem run_progress {ops : List Op} (h : c.run ops = .ok c') (hi : Inv True c) (hexact : c.pipe.Exact)
    (hup : c'.state ≠ .kDisconnected) :
    (Pipe.taken c.log).length ≤ (Pipe.wrote c'.log).length ∨
      (Pipe.wrote c.log).length + ops.countP Op.flushes ≤ (Pipe.wrote c'.log).length := by
  induction ops generalizing c with
  | nil =>
    obtain rfl := Except.ok.inj h
    exact .inr (by simp)
  | cons op ops ih =>
    obtain ⟨c₁, h₁, h⟩ := Except.foldlM_cons_ok.1 h
    obtain ⟨hsteps₁, hi₁⟩ := step_goes (fun _ => trivial) h₁ hi
    obtain ⟨hsteps, -⟩ := run_goes (fun _ _ _ => trivial) h hi₁
    have hup₁ : c₁.state ≠ .kDisconnected := by
      intro hd
      have hdown := hsteps.stays_down (by simpa [pipe] using hd)
      exact hup (by simpa [pipe] using hdown)
    have htaken : (Pipe.taken c.log).length ≤ (Pipe.taken c₁.log).length := hsteps₁.taken_grows.length_le
    have hwrote₁ : (Pipe.wrote c.log).length ≤ (Pipe.wrote c₁.log).length := hsteps₁.wrote_grows.length_le
    have hwrote : (Pipe.wrote c₁.log).length ≤ (Pipe.wrote c'.log).length := hsteps.wrote_grows.length_le
    rcases ih h hi₁ (hsteps₁.exact hexact) with hall | hmore
    · left
      omega
    · rw [List.countP_cons]
      split
      · next hflush =>
        rcases step_progress hflush h₁ hi hexact hup₁ with hall | hlt
        · left
          omega
        · right
          omega
      · right
        omega

end Connection

/-- After as many events with room in the kernel as there are bytes queued, all that had been taken is
out, whatever else happens in between, unless the connection goes down. -/
theorem connection_makes_progress (mark : Nat) (onWrite onHigh : Bool) (ops₀ ops : List Op) (c c' : Connection)
    (h₀ : (Connection.new mark onWrite onHigh).run ops₀ = .ok c) (h : c.run ops = .ok c')
    (hup : c'.state ≠ .kDisconnected) (hroom : c.outputBuffer.readableBytes ≤ ops.countP Op.flushes) :
    Pipe.taken c.log <+: Pipe.wrote c'.log := by
  obtain ⟨hsteps₀, hi⟩ := run_pipe True (fun _ _ _ => trivial) h₀
  obtain ⟨hsteps, -⟩ := run_goes (fun _ _ _ => trivial) h hi
  have hexact : c.pipe.Exact := hsteps₀.exact rfl
  have hexact' : Pipe.wrote c'.log ++ c'.outputBuffer.content = Pipe.taken c'.log := hsteps.exact hexact
  have hout : Pipe.wrote c'.log <+: Pipe.taken c'.log := hexact' ▸ List.prefix_append _ _
  refine List.prefix_of_prefix_length_le hsteps.taken_grows hout ?_
  have hlen : (Pipe.taken c.log).length = (Pipe.wrote c.log).length + c.outputBuffer.readableBytes := by
    rw [← Buffer.length_content, ← List.length_append]
    exact congrArg _ hexact.symm
  rcases run_progress h hi hexact hup with hall | hmore
  · exact hall
  · show (Pipe.taken c.log).length ≤ (Pipe.wrote c'.log).length
    omega

/-- `hi`, kept whole, and two events; in between there is something to read. -/
theorem connection_makes_progress_hi :
    ∃ c c', (Connection.new 0 true true).run [.connectEstablished [.send [104, 105] .wouldBlock]] = .ok c ∧
      c.run [.handleEvent { out := true } none (.bytes 1) [] [],
        .handleEvent { input := true, out := true } (some [33]) (.bytes 1) [] []] = .ok c' ∧
      Pipe.taken c.log <+: Pipe.wrote c'.log := by
  have hrun : ((Connection.new 0 true true).run [.connectEstablished [.send [104, 105] .wouldBlock]] >>= fun c =>
      (c.run [.handleEvent { out := true } none (.bytes 1) [] [],
        .handleEvent { input := true, out := true } (some [33]) (.bytes 1) [] []]).map fun c' =>
        decide (c'.state ≠ .kDisconnected ∧ c.outputBuffer.readableBytes ≤ 2)) = .ok true := by decide +kernel
  obtain ⟨c, h₀, hrun⟩ := Except.bind_eq_ok.1 hrun
  obtain ⟨c', h, hfit⟩ := Except.map_eq_ok.1 hrun
  obtain ⟨hup, hroom⟩ := of_decide_eq_true hfit
  exact ⟨c, c', h₀, h, connection_makes_progress _ _ _ _ _ c c' h₀ h hup hroom⟩

end IMServer.Net
