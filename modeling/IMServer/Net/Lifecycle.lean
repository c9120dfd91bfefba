import IMServer.Net.Delivery

/-!
# From `connectEstablished` to `connectDestroyed`

The callbacks of a connection come in order: up, then messages, then down, each of the two once. When it
is down its channel waits for nothing, and stays in the poller until the one `connectDestroyed` that is
pending takes it out. No assertion fails on the way, as long as events come only for a connection that
is up, reading is not switched once it is down, also not by a functor of another thread, `~TcpServer`
finds no connection that is closing, and no other connection has taken the name away (`Life.step`). The
last three can happen, and then an assertion fails.
-/

namespace IMServer.Net

def Log.isCallback : Log → Bool
  | .note .up => true
  | .note (.message _) => true
  | .down => true
  | _ => false

def Log.message (data : Bytes) : Log := .note (.message data)

namespace Connection
variable {k : Nat} {c c' : Connection}

def callbacks (c : Connection) : List Log := c.log.filter Log.isCallback

/-- How often the connection will be destroyed. -/
def destroys (c : Connection) : Nat := c.pendingFunctors.count .connectDestroyed

/-- What the callbacks were, by the state. -/
def InOrder (cs : List Log) : StateE → Prop
  | .kConnecting => cs = []
  | .kDisconnected => ∃ ms : List Bytes, cs = .note .up :: ms.map Log.message ++ [.down]
  | _ => ∃ ms : List Bytes, cs = .note .up :: ms.map Log.message

/-- `k` more `connectDestroyed` are on their way to the functors. -/
structure Life (k : Nat) (c : Connection) : Prop where
  inOrder : InOrder c.callbacks c.state
  inPoller : c.state = .kConnected ∨ c.state = .kDisconnecting → c.inPoller = true
  /-- also while it is closing -/
  registered : c.state ≠ .kDisconnected ∨ 0 < k → c.registered = true
  up : c.state ≠ .kDisconnected → c.destroys + k = 0
  down : c.state = .kDisconnected →
    c.isReading = false ∧ c.isWriting = false ∧ c.destroys + k = if c.inPoller then 1 else 0

/-- What neither callbacks nor the channel of a connection that is down show. -/
theorem Life.of_same (hl : Life k c) (hs : c'.state = c.state) (hcb : c'.callbacks = c.callbacks)
    (hreg : c'.registered = c.registered) (hd : c'.destroys = c.destroys)
    (hin : c.inPoller = true → c'.inPoller = true)
    (hchannel : c.state = .kDisconnected →
      c'.isReading = c.isReading ∧ c'.isWriting = c.isWriting ∧ c'.inPoller = c.inPoller) : Life k c' where
  inOrder := by
    rw [hs, hcb]
    exact hl.inOrder
  inPoller := by
    rw [hs]
    exact fun hup => hin (hl.inPoller hup)
  registered := by
    rw [hs, hreg]
    exact hl.registered
  up := by
    rw [hs, hd]
    exact hl.up
  down := by
    rw [hs, hd]
    intro hdown
    obtain ⟨hr, hw, hp⟩ := hchannel hdown
    rw [hr, hw, hp]
    exact hl.down hdown

theorem Life.record (hl : Life k c) {l : Log} (h : Log.isCallback l = false) : Life k (c.record l) :=
  hl.of_same rfl (by simp [callbacks, h]) rfl rfl id fun _ => ⟨rfl, rfl, rfl⟩

theorem Life.queueInLoop (hl : Life k c) {f : Functor} (h : f ≠ .connectDestroyed) : Life k (c.queueInLoop f) :=
  hl.of_same rfl rfl rfl (by simp [destroys, h]) id fun _ => ⟨rfl, rfl, rfl⟩

theorem Life.setInputBuffer (hl : Life k c) (buf : Buffer) : Life k (c.setInputBuffer buf) :=
  hl.of_same rfl rfl rfl rfl id fun _ => ⟨rfl, rfl, rfl⟩

theorem Life.disconnecting (hl : Life k c) (hs : c.state = .kConnected ∨ c.state = .kDisconnecting) :
    Life k (c.setState .kDisconnecting) where
  inOrder := by
    have := hl.inOrder
    rcases hs with hs | hs <;> rwa [hs] at this
  inPoller _ := hl.inPoller hs
  registered _ := hl.registered (.inl (by rcases hs with hs | hs <;> simp [hs]))
  up _ := hl.up (by rcases hs with hs | hs <;> simp [hs])
  down hd := by cases hd

/-- A pending functor that runs later than others. -/
theorem Life.pop (hl : Life k c) {f : Functor} {fs : List Functor} (hf : c.pendingFunctors = f :: fs)
    (h : f ≠ .connectDestroyed) : Life k (c.setPendingFunctors fs) :=
  hl.of_same rfl rfl rfl (by simp [destroys, hf, h]) id fun _ => ⟨rfl, rfl, rfl⟩

/-! ### Writing -/

theorem Life.keep (hl : Life k c) (hs : c.state ≠ .kDisconnected) (remaining : Bytes) :
    ∃ c', c.keep remaining = .ok c' ∧ Life k c' := by
  obtain ⟨buf, fs, hk, -, hfs⟩ := c.keep_spec remaining
  refine ⟨_, hk, hl.of_same rfl rfl rfl ?_ (fun hin => by simp [hin]) fun hd => absurd hd hs⟩
  have hnone : fs.count .connectDestroyed = 0 := by
    refine List.count_eq_zero.2 fun hmem => ?_
    obtain ⟨len, hf⟩ := hfs _ hmem
    cases hf
  simp [destroys, hnone]

theorem Life.sendInLoop (hl : Life k c) (message : Bytes) (w : Wrote) :
    ∃ c', c.sendInLoop message w = .ok c' ∧ Life k c' := by
  unfold Connection.sendInLoop
  split
  · exact ⟨_, rfl, hl.record rfl⟩
  next hs =>
  have hkeep : ∃ c', (if message = [] then .ok (c.record (.taken message))
      else (c.record (.taken message)).keep message) = .ok c' ∧ Life k c' := by
    split
    · exact ⟨_, rfl, hl.record rfl⟩
    · exact (hl.record rfl).keep hs message
  split
  · cases w with
    | bytes n =>
      have hl' : Life k ((c.record (.taken message)).record (.wrote (message.take n))) := (hl.record rfl).record rfl
      dsimp only
      split
      · refine ⟨_, rfl, ?_⟩
        split
        · exact hl'.queueInLoop (by simp)
        · exact hl'
      · exact hl'.keep hs _
    | reset => exact ⟨_, rfl, hl.record rfl⟩
    | wouldBlock => exact hkeep
    | failed => exact hkeep
  · exact hkeep

theorem Life.shutdownInLoop (hl : Life k c) : Life k c.shutdownInLoop := by
  unfold Connection.shutdownInLoop
  split
  · exact hl
  · exact hl.record rfl

theorem Life.drained (hl : Life k c) (hs : c.state ≠ .kDisconnected) : Life k c.drained := by
  have hdis : Life k c.disableWriting := hl.of_same rfl rfl rfl rfl (fun _ => rfl) fun hd => absurd hd hs
  unfold Connection.drained
  dsimp only
  split
  · have hq : Life k (c.disableWriting.queueInLoop .writeCompleteCallback) := hdis.queueInLoop (by simp)
    split
    · exact hq.shutdownInLoop
    · exact hq
  · split
    · exact hdis.shutdownInLoop
    · exact hdis

theorem handleWrite_returns (c : Connection) (w : Wrote) : ∃ c', c.handleWrite w = .ok c' := by
  unfold handleWrite
  split
  · cases w with
    | bytes n =>
      dsimp only
      split
      · obtain ⟨buf, hb, -, -⟩ := Buffer.retrieve_spec (Nat.min_le_right n c.outputBuffer.readableBytes)
        exact ⟨_, by rw [hb]; rfl⟩
      · exact ⟨_, rfl⟩
    | _ => exact ⟨_, rfl⟩
  · exact ⟨_, rfl⟩

theorem Life.handleWrite (hl : Life k c) (w : Wrote) : ∃ c', c.handleWrite w = .ok c' ∧ Life k c' := by
  obtain ⟨c', h⟩ := c.handleWrite_returns w
  refine ⟨c', h, ?_⟩
  rcases handleWrite_cases h with ⟨rfl, -⟩ | ⟨hw, n, buf, -, -, -, hout⟩
  · exact hl
  have hs : c.state ≠ .kDisconnected := by
    intro hd
    have := (hl.down hd).2.1
    simp [hw] at this
  have hflushed : Life k (c.flushed n buf) :=
    hl.of_same rfl (by simp [callbacks, flushed, Log.isCallback]) rfl rfl id fun _ => ⟨rfl, rfl, rfl⟩
  rcases hout with ⟨-, rfl⟩ | ⟨-, rfl⟩
  · exact hflushed.drained hs
  · exact hflushed

/-! ### What user code may do -/

/-- The bytes are there, and reading is not switched on a connection that is down. -/
def Act.Fits (c : Connection) : Act → Prop
  | .retrieve len => len ≤ c.inputBuffer.readableBytes
  | .startRead => c.state ≠ .kDisconnected
  | .stopRead => c.state ≠ .kDisconnected
  | _ => True

def ActsFit : Connection → List Act → Prop
  | _, [] => True
  | c, a :: as => a.Fits c ∧ ∀ c', c.act a = .ok c' → ActsFit c' as

theorem Life.startReadInLoop (hl : Life k c) (hs : c.state ≠ .kDisconnected) : Life k c.startReadInLoop := by
  unfold Connection.startReadInLoop
  split
  · exact hl.of_same rfl rfl rfl rfl (fun _ => rfl) fun hd => absurd hd hs
  · exact hl

theorem Life.stopReadInLoop (hl : Life k c) (hs : c.state ≠ .kDisconnected) : Life k c.stopReadInLoop := by
  unfold Connection.stopReadInLoop
  split
  · exact hl.of_same rfl rfl rfl rfl (fun _ => rfl) fun hd => absurd hd hs
  · exact hl

theorem Life.forceClose (hl : Life k c) (hs : c.state = .kConnected ∨ c.state = .kDisconnecting) :
    Life k ((c.record (.note .forceClose)).setState .kDisconnecting) := (hl.record rfl).disconnecting hs

theorem Life.act (hl : Life k c) {a : Act} (hfit : a.Fits c) : ∃ c', c.act a = .ok c' ∧ Life k c' := by
  cases a with
  | send message w =>
    rw [Connection.act]
    split
    · exact (hl.record rfl).sendInLoop message w
    · exact ⟨_, rfl, (hl.record rfl).record rfl⟩
  | sendBuffer w =>
    rw [Connection.act]
    have hcalled : Life k (c.record (.note (.called c.inputBuffer.content))) := hl.record rfl
    split
    · obtain ⟨c₁, h₁, hl₁⟩ := hcalled.sendInLoop c.inputBuffer.content w
      exact ⟨_, by rw [h₁]; rfl, hl₁.setInputBuffer _⟩
    · exact ⟨_, rfl, hcalled.record rfl⟩
  | shutdown =>
    refine ⟨_, rfl, ?_⟩
    split
    · next hs => exact (hl.disconnecting (.inl hs)).shutdownInLoop
    · exact hl
  | forceClose =>
    refine ⟨_, rfl, ?_⟩
    split
    · next hs => exact (hl.forceClose hs).queueInLoop (by simp)
    · exact hl
  | forceCloseWithDelay =>
    refine ⟨_, rfl, ?_⟩
    split
    · next hs => exact hl.forceClose hs
    · exact hl
  | startRead => exact ⟨_, rfl, hl.startReadInLoop hfit⟩
  | stopRead => exact ⟨_, rfl, hl.stopReadInLoop hfit⟩
  | retrieve len =>
    obtain ⟨buf, hb, -, -⟩ := Buffer.retrieve_spec hfit
    exact ⟨_, by rw [Connection.act, hb]; rfl, hl.setInputBuffer _⟩

theorem Life.acts (hl : Life k c) {as : List Act} (hfit : ActsFit c as) : ∃ c', c.acts as = .ok c' ∧ Life k c' := by
  unfold Connection.acts
  induction as generalizing c with
  | nil => exact ⟨c, rfl, hl⟩
  | cons a as ih =>
    obtain ⟨ha, has⟩ := hfit
    obtain ⟨c₁, h₁, hl₁⟩ := hl.act ha
    obtain ⟨c', h', hl'⟩ := ih hl₁ (has _ h₁)
    exact ⟨c', Except.foldlM_cons_ok.2 ⟨c₁, h₁, h'⟩, hl'⟩

/-! ### Callbacks -/

theorem callbacks_opened : c.opened.callbacks = c.callbacks ++ [.note .up] := by
  simp [callbacks, Connection.opened, Log.isCallback]

theorem callbacks_filled (data : Bytes) (buf : Buffer) :
    (c.filled data buf).callbacks = c.callbacks ++ [Log.message data] := by
  simp [callbacks, Connection.filled, Log.isCallback, Log.message]

theorem callbacks_closed : c.closed.callbacks = c.callbacks ++ [.down] := by
  simp [callbacks, Connection.closed, Log.isCallback]

theorem Life.opened (hl : Life 0 c) (hs : c.state = .kConnecting) : Life 0 c.opened where
  inOrder := by
    have hnone : c.callbacks = [] := by
      have := hl.inOrder
      rwa [hs] at this
    refine ⟨[], ?_⟩
    rw [callbacks_opened, hnone]
    rfl
  inPoller _ := rfl
  registered _ := hl.registered (.inl (by simp [hs]))
  up _ := hl.up (by simp [hs])
  down hd := by cases hd

theorem Life.filled (hl : Life 0 c) (hs : c.state = .kConnected ∨ c.state = .kDisconnecting) (data : Bytes)
    (buf : Buffer) : Life 0 (c.filled data buf) where
  inOrder := by
    have hms : ∃ ms : List Bytes, c.callbacks = .note .up :: ms.map Log.message := by
      have := hl.inOrder
      rcases hs with hs | hs <;> rwa [hs] at this
    obtain ⟨ms, hms⟩ := hms
    have hnext : ∃ ms : List Bytes, (c.filled data buf).callbacks = .note .up :: ms.map Log.message := by
      refine ⟨ms ++ [data], ?_⟩
      rw [callbacks_filled, hms]
      simp
    show InOrder _ c.state
    rcases hs with hs | hs <;> rwa [hs]
  inPoller := hl.inPoller
  registered := hl.registered
  up := hl.up
  down := hl.down

theorem Life.closed (hl : Life 0 c) (hs : c.state = .kConnected ∨ c.state = .kDisconnecting) : Life 1 c.closed where
  inOrder := by
    have hms : ∃ ms : List Bytes, c.callbacks = .note .up :: ms.map Log.message := by
      have := hl.inOrder
      rcases hs with hs | hs <;> rwa [hs] at this
    obtain ⟨ms, hms⟩ := hms
    refine ⟨ms, ?_⟩
    rw [callbacks_closed, hms]
  inPoller hup := by simp [Connection.closed] at hup
  registered _ := hl.registered (.inl (by rcases hs with hs | hs <;> simp [hs]))
  up hd := absurd rfl hd
  down _ := by
    have hnone : c.destroys + 0 = 0 := hl.up (by rcases hs with hs | hs <;> simp [hs])
    refine ⟨rfl, rfl, ?_⟩
    show c.destroys + 1 = 1
    omega

theorem Life.isDown (hl : Life 1 c) : c.state = .kDisconnected := by
  by_contra hs
  have := hl.up hs
  omega

/-- The channel is there to be removed, and waits for nothing. -/
theorem life_removeChannel (ho : InOrder c.callbacks c.state) (hs : c.state = .kDisconnected)
    (hdown : c.isReading = false ∧ c.isWriting = false ∧ c.destroys + 1 = if c.inPoller then 1 else 0) :
    ∃ c', c.removeChannel = .ok c' ∧ Life 0 c' := by
  obtain ⟨hr, hw, hd⟩ := hdown
  have hin : c.inPoller = true := by
    by_contra hin
    rw [if_neg hin] at hd
    omega
  rw [if_pos hin] at hd
  refine ⟨_, if_pos ⟨hr, hw, hin⟩, ⟨ho, fun hup => ?_, fun hup => ?_, fun hup => absurd hs hup, fun _ => ⟨hr, hw, ?_⟩⟩⟩
  · have : c.state = .kConnected ∨ c.state = .kDisconnecting := hup
    simp [hs] at this
  · exact absurd hs (hup.resolve_right (Nat.lt_irrefl 0))
  · show c.destroys + 0 = 0
    omega

/-- The entry is there to be erased, and the connection will be destroyed once. -/
theorem Life.removeConnection (hl : Life 1 c) : ∃ c', c.removeConnection = .ok c' ∧ Life 0 c' := by
  refine ⟨_, if_pos (hl.registered (.inr Nat.one_pos)), ⟨hl.inOrder, fun hup => ?_, fun hup => ?_,
    fun hup => absurd hl.isDown hup, fun _ => ?_⟩⟩
  · have : c.state = .kConnected ∨ c.state = .kDisconnecting := hup
    simp [hl.isDown] at this
  · exact absurd hl.isDown (hup.resolve_right (Nat.lt_irrefl 0))
  · obtain ⟨hr, hw, hd⟩ := hl.down hl.isDown
    exact ⟨hr, hw, by simpa [destroys] using hd⟩

theorem Life.handleClose (hl : Life 0 c) (hs : c.state = .kConnected ∨ c.state = .kDisconnecting) {as : List Act}
    (hfit : ActsFit c.closed as) : ∃ c', c.handleClose as = .ok c' ∧ Life 0 c' := by
  obtain ⟨c₁, h₁, hl₁⟩ := (hl.closed hs).acts hfit
  obtain ⟨c', h', hl'⟩ := hl₁.removeConnection
  refine ⟨c', ?_, hl'⟩
  rw [Connection.handleClose, if_pos hs, h₁, Except.ok_bind, h']

/-- `~TcpServer`, on a connection that is up. -/
theorem Life.connectDestroyed (hl : Life 0 c) (hs : c.state = .kConnected) {as : List Act}
    (hfit : ActsFit c.closed as) : ∃ c', c.connectDestroyed as = .ok c' ∧ Life 0 c' := by
  obtain ⟨c₁, h₁, hl₁⟩ := (hl.closed (.inl hs)).acts hfit
  obtain ⟨c', h', hl'⟩ := life_removeChannel hl₁.inOrder hl₁.isDown (hl₁.down hl₁.isDown)
  refine ⟨c', ?_, hl'⟩
  rw [Connection.connectDestroyed, if_pos hs, h₁, Except.ok_bind, h']

/-- What the callback does fits, for what was read. -/
def ReadFits (c : Connection) : Option Bytes → List Act → Prop
  | none, _ => True
  | some [], as => ActsFit c.closed as
  | some chunk, as => ∀ data buf, c.inputBuffer.readFd chunk = .ok (data, buf) → ActsFit (c.filled data buf) as

theorem Life.handleRead (hl : Life 0 c) (hs : c.state = .kConnected ∨ c.state = .kDisconnecting)
    {r : Option Bytes} {as : List Act} (hfit : ReadFits c r as) : ∃ c', c.handleRead r as = .ok c' ∧ Life 0 c' := by
  match r with
  | none => exact ⟨c, rfl, hl⟩
  | some [] => exact hl.handleClose hs hfit
  | some (b :: chunk) =>
    obtain ⟨n, buf, hread, -, -, -⟩ := c.inputBuffer.readFd_spec (b :: chunk)
    obtain ⟨c', h', hl'⟩ := (hl.filled hs ((b :: chunk).take n) buf).acts (hfit _ _ hread)
    refine ⟨c', ?_, hl'⟩
    show (c.inputBuffer.readFd (b :: chunk) >>= _) = _
    rw [hread, Except.ok_bind]
    exact h'

/-- A hangup is not reported together with something that makes `handleRead` close the connection again. -/
def EventFits (c : Connection) (revents : Revents) (r : Option Bytes) (onClose onRead : List Act) : Prop :=
  if revents.hup && !revents.input then
    revents.pri = false ∧ revents.rdhup = false ∧ ActsFit c.closed onClose
  else ReadFits c r onRead

theorem Life.handleEvent (hl : Life 0 c) (hs : c.state = .kConnected ∨ c.state = .kDisconnecting)
    {revents : Revents} {r : Option Bytes} {w : Wrote} {onClose onRead : List Act}
    (hfit : EventFits c revents r onClose onRead) :
    ∃ c', c.handleEvent revents r w onClose onRead = .ok c' ∧ Life 0 c' := by
  have hwrite : ∀ c₁, Life 0 c₁ → ∃ c', (if revents.out then c₁.handleWrite w else .ok c₁) = .ok c' ∧ Life 0 c' := by
    intro c₁ hl₁
    split
    · exact hl₁.handleWrite w
    · exact ⟨c₁, rfl, hl₁⟩
  unfold Connection.handleEvent
  unfold EventFits at hfit
  by_cases hhup : (revents.hup && !revents.input) = true
  · rw [if_pos hhup] at hfit ⊢
    obtain ⟨hpri, hrdhup, hfit⟩ := hfit
    have hinput : revents.input = false := by
      simp only [Bool.and_eq_true, Bool.not_eq_true'] at hhup
      exact hhup.2
    obtain ⟨c₁, h₁, hl₁⟩ := hl.handleClose hs hfit
    obtain ⟨c', h', hl'⟩ := hwrite c₁ hl₁
    refine ⟨c', ?_, hl'⟩
    rw [h₁, Except.ok_bind, hpri, hrdhup, hinput]
    exact h'
  · rw [if_neg hhup] at hfit ⊢
    rw [Except.ok_bind]
    split
    · obtain ⟨c₁, h₁, hl₁⟩ := hl.handleRead hs hfit
      obtain ⟨c', h', hl'⟩ := hwrite c₁ hl₁
      exact ⟨c', by rw [h₁, Except.ok_bind, h'], hl'⟩
    · exact hwrite c hl

/-! ### Runs -/

def FunctorFits (c : Connection) (as : List Act) : Functor → Prop
  | .forceCloseInLoop => ActsFit c.closed as
  | .startReadInLoop => c.state ≠ .kDisconnected
  | .stopReadInLoop => c.state ≠ .kDisconnected
  | .writeCompleteCallback => ActsFit (c.record (.note .writeComplete)) as
  | .highWaterMarkCallback len => ActsFit (c.record (.note (.highWaterMark len))) as
  | _ => True

theorem Life.functor (hl : Life 0 c) {f : Functor} {fs : List Functor} (hf : c.pendingFunctors = f :: fs)
    {as : List Act} (hfit : FunctorFits (c.setPendingFunctors fs) as f) (w : Wrote) :
    ∃ c', (c.setPendingFunctors fs).runFunctor w as f = .ok c' ∧ Life 0 c' := by
  cases f with
  | sendInLoop message => exact (hl.pop hf (by simp)).sendInLoop message w
  | shutdownInLoop => exact ⟨_, rfl, (hl.pop hf (by simp)).shutdownInLoop⟩
  | forceCloseInLoop =>
    have hl' := hl.pop hf (by simp)
    rw [runFunctor, forceCloseInLoop]
    split
    · next hs => exact hl'.handleClose hs hfit
    · exact ⟨_, rfl, hl'⟩
  | startReadInLoop => exact ⟨_, rfl, (hl.pop hf (by simp)).startReadInLoop hfit⟩
  | stopReadInLoop => exact ⟨_, rfl, (hl.pop hf (by simp)).stopReadInLoop hfit⟩
  | connectDestroyed =>
    have hcount : c.destroys = fs.count .connectDestroyed + 1 := by simp [destroys, hf]
    have hs : c.state = .kDisconnected := by
      by_contra hs
      have := hl.up hs
      omega
    rw [runFunctor, Connection.connectDestroyed, if_neg (by simp [hs])]
    refine life_removeChannel hl.inOrder hs ?_
    obtain ⟨hr, hw, hd⟩ := hl.down hs
    rw [hcount] at hd
    exact ⟨hr, hw, hd⟩
  | writeCompleteCallback => exact ((hl.pop hf (by simp)).record rfl).acts hfit
  | highWaterMarkCallback len => exact ((hl.pop hf (by simp)).record rfl).acts hfit

/-- Events come for a connection that is up, reading is not switched on one that is down, `~TcpServer`
finds only connections that are neither opening nor closing, and no other connection has the name of one
that is not down. -/
def Op.Fits (c : Connection) : Op → Prop
  | .connectEstablished as => c.state = .kConnecting ∧ ActsFit c.opened as
  | .handleEvent revents r _ onClose onRead =>
    (c.state = .kConnected ∨ c.state = .kDisconnecting) ∧ EventFits c revents r onClose onRead
  | .functor _ as => ∀ f fs, c.pendingFunctors = f :: fs → FunctorFits (c.setPendingFunctors fs) as f
  | .act a => a.Fits c
  | .connectDestroyed as => c.state = .kConnected ∧ ActsFit c.closed as
  | .nameErased => c.state = .kDisconnected
  | _ => True

theorem Life.step (hl : Life 0 c) {op : Op} (hfit : op.Fits c) : ∃ c', c.step op = .ok c' ∧ Life 0 c' := by
  cases op with
  | connectEstablished as =>
    obtain ⟨hs, hfit⟩ := hfit
    rw [Connection.step, Connection.connectEstablished, if_pos hs]
    exact (hl.opened hs).acts hfit
  | handleEvent revents r w onClose onRead => exact hl.handleEvent hfit.1 hfit.2
  | functor w as =>
    rw [Connection.step]
    split
    · exact ⟨c, rfl, hl⟩
    · next f fs hf => exact hl.functor hf (hfit f fs hf) w
  | act a => exact hl.act hfit
  | connectDestroyed as => exact hl.connectDestroyed hfit.1 hfit.2
  | sendElsewhere message =>
    refine ⟨_, rfl, ?_⟩
    split
    · exact (hl.record rfl).queueInLoop (by simp)
    · exact (hl.record rfl).record rfl
  | shutdownElsewhere =>
    refine ⟨_, rfl, ?_⟩
    split
    · next hs => exact (hl.disconnecting (.inl hs)).queueInLoop (by simp)
    · exact hl
  | startReadElsewhere => exact ⟨_, rfl, hl.queueInLoop (by simp)⟩
  | stopReadElsewhere => exact ⟨_, rfl, hl.queueInLoop (by simp)⟩
  | nameErased =>
    have hdown : c.state = .kDisconnected := hfit
    refine ⟨_, rfl, ⟨hl.inOrder, hl.inPoller, fun hup => ?_, hl.up, hl.down⟩⟩
    exact absurd hdown (hup.resolve_right (Nat.lt_irrefl 0))

def OpsFit : Connection → List Op → Prop
  | _, [] => True
  | c, op :: ops => op.Fits c ∧ ∀ c', c.step op = .ok c' → OpsFit c' ops

theorem Life.run (hl : Life 0 c) {ops : List Op} (hfit : OpsFit c ops) : ∃ c', c.run ops = .ok c' ∧ Life 0 c' := by
  unfold Connection.run
  induction ops generalizing c with
  | nil => exact ⟨c, rfl, hl⟩
  | cons op ops ih =>
    obtain ⟨hop, hops⟩ := hfit
    obtain ⟨c₁, h₁, hl₁⟩ := hl.step hop
    obtain ⟨c', h', hl'⟩ := ih hl₁ (hops _ h₁)
    exact ⟨c', Except.foldlM_cons_ok.2 ⟨c₁, h₁, h'⟩, hl'⟩

theorem life_new {mark : Nat} {onWrite onHigh : Bool} : Life 0 (new mark onWrite onHigh) where
  inOrder := rfl
  inPoller hup := by simp [new] at hup
  registered _ := rfl
  up _ := rfl
  down hd := by cases hd

end Connection

/-- `~TcpServer` finds a connection that is closing. -/
example : (Connection.new 0 true true).run [.connectEstablished [], .act .shutdown, .connectDestroyed []] =
    .error .assertion := rfl

/-- The functor of another thread's `startRead` runs when the connection is down. -/
example : (Connection.new 0 true true).run [.connectEstablished [], .startReadElsewhere,
    .handleEvent { input := true } (some []) .wouldBlock [] [], .functor .wouldBlock [], .functor .wouldBlock []] =
    .error .assertion := rfl

/-- Another connection of the same name has closed before. -/
example : (Connection.new 0 true true).run [.connectEstablished [], .nameErased,
    .handleEvent { input := true } (some []) .wouldBlock [] []] = .error .assertion := rfl

end IMServer.Net
