import IMServer.Net.Delivery

/-!
# What becomes of a message

`send` is called with a message in any thread, whatever state the connection is in. The message is dropped
at once if it is not connected; otherwise it is taken, or lost to a reset, or given up because the
connection went down in between, or it still waits for the loop: one of these, and once.
-/

namespace IMServer.Net

def Log.called : Log → List Bytes
  | .note (.called message) => [message]
  | _ => []

def Log.fate : Log → List Bytes
  | .taken message => [message]
  | .note (.dropped message) => [message]
  | .note (.lost message) => [message]
  | .note (.givenUp message) => [message]
  | _ => []

def Functor.message : Functor → List Bytes
  | .sendInLoop message => [message]
  | _ => []

attribute [simp] Log.called Log.fate Functor.message

namespace Connection
variable {c c' : Connection} {m : Bytes}

def called (c : Connection) : List Bytes := c.log.flatMap Log.called

def fates (c : Connection) : List Bytes := c.log.flatMap Log.fate

def waiting (c : Connection) : List Bytes := c.pendingFunctors.flatMap Functor.message

/-- How often `m` was called for and is not accounted for. -/
def owed (c : Connection) (m : Bytes) : Int := c.called.count m - c.fates.count m - c.waiting.count m

@[simp] theorem owed_record (l : Log) :
    (c.record l).owed m = c.owed m + (Log.called l).count m - (Log.fate l).count m := by
  simp only [owed, called, fates, waiting, record, List.flatMap_append, List.flatMap_cons, List.flatMap_nil,
    List.append_nil, List.count_append]
  omega

@[simp] theorem owed_queueInLoop (f : Functor) : (c.queueInLoop f).owed m = c.owed m - f.message.count m := by
  simp only [owed, called, fates, waiting, queueInLoop, List.flatMap_append, List.flatMap_cons, List.flatMap_nil,
    List.append_nil, List.count_append]
  omega

/-- The functor that is called next. -/
theorem owed_pop {f : Functor} {fs : List Functor} (h : c.pendingFunctors = f :: fs) :
    (c.setPendingFunctors fs).owed m = c.owed m + f.message.count m := by
  simp only [owed, called, fates, waiting, h, setPendingFunctors, List.flatMap_cons, List.count_append]
  omega

theorem owed_keep {remaining : Bytes} (h : c.keep remaining = .ok c') : c'.owed m = c.owed m := by
  obtain ⟨buf, fs, hk, -, hfs⟩ := c.keep_spec remaining
  obtain rfl := Except.ok_unique hk h
  have hnone : fs.flatMap Functor.message = [] := by
    refine List.flatMap_eq_nil_iff.2 fun f hf => ?_
    obtain ⟨len, rfl⟩ := hfs f hf
    rfl
  simp only [owed, called, fates, waiting, List.flatMap_append, hnone, List.append_nil]

/-- `sendInLoop` settles one message. -/
theorem owed_sendInLoop {message : Bytes} {w : Wrote} (h : c.sendInLoop message w = .ok c') :
    c'.owed m = c.owed m - [message].count m := by
  have hkeep : (if message = [] then .ok (c.record (.taken message)) else (c.record (.taken message)).keep message) =
      .ok c' → c'.owed m = c.owed m - [message].count m := by
    intro h
    split at h
    · obtain rfl := Except.ok.inj h
      simp
    · rw [owed_keep h]
      simp
  unfold sendInLoop at h
  split at h
  · obtain rfl := Except.ok.inj h
    simp
  split at h
  · cases w with
    | bytes n =>
      dsimp only at h
      split at h
      · obtain rfl := Except.ok.inj h
        split <;> simp
      · rw [owed_keep h]
        simp
    | reset =>
      obtain rfl := Except.ok.inj h
      simp
    | wouldBlock => exact hkeep h
    | failed => exact hkeep h
  · exact hkeep h

theorem owed_shutdownInLoop : c.shutdownInLoop.owed m = c.owed m := by
  unfold shutdownInLoop
  split <;> simp

@[simp] theorem owed_setState (s : StateE) : (c.setState s).owed m = c.owed m := rfl

@[simp] theorem owed_setOutputBuffer (buf : Buffer) : (c.setOutputBuffer buf).owed m = c.owed m := rfl

@[simp] theorem owed_setInputBuffer (buf : Buffer) : (c.setInputBuffer buf).owed m = c.owed m := rfl

@[simp] theorem owed_enableReading : c.enableReading.owed m = c.owed m := rfl

@[simp] theorem owed_disableWriting : c.disableWriting.owed m = c.owed m := rfl

@[simp] theorem owed_disableAll : c.disableAll.owed m = c.owed m := rfl

@[simp] theorem owed_opened : c.opened.owed m = c.owed m := by simp [opened]

@[simp] theorem owed_closed : c.closed.owed m = c.owed m := by simp [closed]

@[simp] theorem owed_filled (data : Bytes) (buf : Buffer) : (c.filled data buf).owed m = c.owed m := by simp [filled]

theorem owed_drained : c.drained.owed m = c.owed m := by
  unfold drained
  dsimp only
  split <;> split <;> simp [owed_shutdownInLoop]

theorem owed_handleWrite {w : Wrote} (h : c.handleWrite w = .ok c') : c'.owed m = c.owed m := by
  rcases handleWrite_cases h with ⟨rfl, -⟩ | ⟨-, n, buf, -, -, -, ⟨-, rfl⟩ | ⟨-, rfl⟩⟩
  · rfl
  · rw [owed_drained]
    simp [flushed]
  · simp [flushed]

theorem owed_startReadInLoop : c.startReadInLoop.owed m = c.owed m := by
  unfold startReadInLoop
  split <;> rfl

theorem owed_stopReadInLoop : c.stopReadInLoop.owed m = c.owed m := by
  unfold stopReadInLoop
  split <;> rfl

@[simp] theorem owed_unregister : c.unregister.owed m = c.owed m := rfl

theorem owed_dropped (message : Bytes) :
    ((c.record (.note (.called message))).record (.note (.dropped message))).owed m = c.owed m := by simp

theorem owed_act {a : Act} (h : c.act a = .ok c') : c'.owed m = c.owed m := by
  cases a with
  | send message w =>
    rw [act] at h
    split at h
    · rw [owed_sendInLoop h]
      simp
    · obtain rfl := Except.ok.inj h
      exact owed_dropped message
  | sendBuffer w =>
    rw [act] at h
    split at h
    · obtain ⟨c₁, h₁, h⟩ := Except.bind_eq_ok.1 h
      obtain rfl := Except.ok.inj h
      rw [owed_setInputBuffer, owed_sendInLoop h₁]
      simp
    · obtain rfl := Except.ok.inj h
      exact owed_dropped c.inputBuffer.content
  | shutdown =>
    obtain rfl := Except.ok.inj h
    split
    · rw [owed_shutdownInLoop, owed_setState]
    · rfl
  | forceClose =>
    obtain rfl := Except.ok.inj h
    split <;> simp
  | forceCloseWithDelay =>
    obtain rfl := Except.ok.inj h
    split <;> simp
  | startRead =>
    obtain rfl := Except.ok.inj h
    exact owed_startReadInLoop
  | stopRead =>
    obtain rfl := Except.ok.inj h
    exact owed_stopReadInLoop
  | retrieve len =>
    obtain ⟨buf, -, h⟩ := Except.bind_eq_ok.1 h
    obtain rfl := Except.ok.inj h
    rfl

theorem owed_acts {as : List Act} (h : c.acts as = .ok c') : c'.owed m = c.owed m := by
  unfold acts at h
  induction as generalizing c with
  | nil =>
    obtain rfl := Except.ok.inj h
    rfl
  | cons a as ih =>
    obtain ⟨c₁, h₁, h⟩ := Except.foldlM_cons_ok.1 h
    rw [ih h, owed_act h₁]

theorem owed_connectEstablished {as : List Act} (h : c.connectEstablished as = .ok c') : c'.owed m = c.owed m := by
  unfold connectEstablished at h
  split at h
  · rw [owed_acts h, owed_opened]
  · cases h

theorem owed_removeConnection (h : c.removeConnection = .ok c') : c'.owed m = c.owed m := by
  unfold removeConnection at h
  split at h
  · obtain rfl := Except.ok.inj h
    simp
  · cases h

theorem owed_handleClose {as : List Act} (h : c.handleClose as = .ok c') : c'.owed m = c.owed m := by
  unfold handleClose at h
  split at h
  · obtain ⟨c₁, h₁, h⟩ := Except.bind_eq_ok.1 h
    rw [owed_removeConnection h, owed_acts h₁, owed_closed]
  · cases h

theorem owed_removeChannel (h : c.removeChannel = .ok c') : c'.owed m = c.owed m := by
  unfold removeChannel at h
  split at h
  · obtain rfl := Except.ok.inj h
    rfl
  · cases h

theorem owed_connectDestroyed {as : List Act} (h : c.connectDestroyed as = .ok c') : c'.owed m = c.owed m := by
  unfold connectDestroyed at h
  split at h
  · obtain ⟨c₁, h₁, h⟩ := Except.bind_eq_ok.1 h
    rw [owed_removeChannel h, owed_acts h₁, owed_closed]
  · exact owed_removeChannel h

theorem owed_handleRead {r : Option Bytes} {as : List Act} (h : c.handleRead r as = .ok c') :
    c'.owed m = c.owed m := by
  match r with
  | none =>
    obtain rfl := Except.ok.inj h
    rfl
  | some [] => exact owed_handleClose h
  | some (b :: chunk) =>
    obtain ⟨⟨data, buf⟩, -, h⟩ := Except.bind_eq_ok.1 h
    rw [owed_acts h, owed_filled]

theorem owed_guard {b : Bool} {x : Except Fault Connection} (hx : x = .ok c' → c'.owed m = c.owed m)
    (h : (if b then x else .ok c) = .ok c') : c'.owed m = c.owed m := by
  split at h
  · exact hx h
  · obtain rfl := Except.ok.inj h
    rfl

theorem owed_handleEvent {revents : Revents} {r : Option Bytes} {w : Wrote} {onClose onRead : List Act}
    (h : c.handleEvent revents r w onClose onRead = .ok c') : c'.owed m = c.owed m := by
  obtain ⟨c₁, h₁, h⟩ := Except.bind_eq_ok.1 h
  obtain ⟨c₂, h₂, h⟩ := Except.bind_eq_ok.1 h
  rw [owed_guard owed_handleWrite h, owed_guard owed_handleRead h₂, owed_guard owed_handleClose h₁]

theorem owed_functor {w : Wrote} {as : List Act} {f : Functor} (h : c.runFunctor w as f = .ok c') :
    c'.owed m = c.owed m - f.message.count m := by
  cases f with
  | sendInLoop message => exact owed_sendInLoop h
  | shutdownInLoop =>
    obtain rfl := Except.ok.inj h
    simp [owed_shutdownInLoop]
  | forceCloseInLoop =>
    rw [runFunctor, forceCloseInLoop] at h
    split at h
    · simp [owed_handleClose h]
    · obtain rfl := Except.ok.inj h
      simp
  | startReadInLoop =>
    obtain rfl := Except.ok.inj h
    simp [owed_startReadInLoop]
  | stopReadInLoop =>
    obtain rfl := Except.ok.inj h
    simp [owed_stopReadInLoop]
  | connectDestroyed => simp [owed_connectDestroyed h]
  | writeCompleteCallback => simp [owed_acts h]
  | highWaterMarkCallback len => simp [owed_acts h]

theorem owed_step {op : Op} (h : c.step op = .ok c') : c'.owed m = c.owed m := by
  cases op with
  | connectEstablished as => exact owed_connectEstablished h
  | handleEvent revents r w onClose onRead => exact owed_handleEvent h
  | functor w as =>
    rw [step] at h
    split at h
    · obtain rfl := Except.ok.inj h
      rfl
    · next f fs hf =>
      rw [owed_functor h, owed_pop hf]
      omega
  | act a => exact owed_act h
  | connectDestroyed as => exact owed_connectDestroyed h
  | sendElsewhere message =>
    obtain rfl := Except.ok.inj h
    split <;> simp
  | shutdownElsewhere =>
    obtain rfl := Except.ok.inj h
    split <;> simp
  | startReadElsewhere =>
    obtain rfl := Except.ok.inj h
    simp
  | stopReadElsewhere =>
    obtain rfl := Except.ok.inj h
    simp
  | nameErased =>
    obtain rfl := Except.ok.inj h
    exact owed_unregister

theorem owed_run {ops : List Op} (h : c.run ops = .ok c') : c'.owed m = c.owed m := by
  unfold run at h
  induction ops generalizing c with
  | nil =>
    obtain rfl := Except.ok.inj h
    rfl
  | cons op ops ih =>
    obtain ⟨c₁, h₁, h⟩ := Except.foldlM_cons_ok.1 h
    rw [ih h, owed_step h₁]

end Connection

/-- Every message `send` was called with, in whatever thread, has one fate or still waits for the loop. -/
theorem message_has_one_fate (mark : Nat) (onWrite onHigh : Bool) (ops : List Connection.Op) (c : Connection)
    (h : (Connection.new mark onWrite onHigh).run ops = .ok c) : c.called.Perm (c.fates ++ c.waiting) := by
  rw [List.perm_iff_count]
  intro m
  have howed : c.owed m = 0 := Connection.owed_run h
  rw [Connection.owed] at howed
  rw [List.count_append]
  omega

/-- One message of the loop goes out, one of another thread comes when the connection is down, one waits, and
two are dropped, before and after. -/
def fateOps : List Connection.Op :=
  [.sendElsewhere [0], .connectEstablished [.send [1] (.bytes 1)], .sendElsewhere [2], .sendElsewhere [3],
    .handleEvent { input := true } (some []) .wouldBlock [] [], .functor .wouldBlock [], .act (.send [4] .wouldBlock)]

theorem message_has_one_fate_each :
    ∃ c, (Connection.new 0 true true).run fateOps = .ok c ∧ c.called = [[0], [1], [2], [3], [4]] ∧
      c.called.Perm (c.fates ++ c.waiting) := by
  obtain ⟨c, hc⟩ : ∃ c, (Connection.new 0 true true).run fateOps = .ok c := ⟨_, rfl⟩
  refine ⟨c, hc, ?_, message_has_one_fate _ _ _ _ c hc⟩
  cases hc
  rfl

end IMServer.Net
