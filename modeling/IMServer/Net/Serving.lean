import IMServer.ReplyStream
import IMServer.Net.Fates

/-!
# A session on its connection

`ClientSession::onRead` as the message callback of a `TcpConnection`: the socket hands over what it likes,
the kernel takes what it likes, and other sessions change the store. On the content of the input buffer the
loop of `onRead` is a delivery of `wire`, here one that also notes the calls it makes of the buffer and the
connection (`handleRead_refines`). So a run of the session is a run of the connection (`run_conn`), and while
the connection is up, the bytes that went out are those of the replies to the requests that came in
(`replies_go_out`).
-/

namespace IMServer.Net

structure Served where
  store : Store
  session : ClientSession := {}
  conn : Connection

namespace Served

/-- One turn of the loop of `onRead`: `retrieve` is called twice, and `send` if there is a reply. -/
def turn (answers : Nat → Wrote) (p : (Store × ClientSession) × List Connection.Act) (msg : Bytes) :
    Except Fault ((Store × ClientSession) × List Connection.Act) := do
  let (q, _) ← ClientSession.process p.1 msg
  let replies := q.2.sent.drop p.1.2.sent.length
  return (q, p.2 ++ .retrieve 4 :: .retrieve msg.length ::
    replies.map fun reply => .send reply.out (answers p.1.2.sent.length))

def handleClose (s : Served) : Except Fault Served := do return { s with conn := ← s.conn.handleClose [] }

def handleRead (s : Served) (r : Option Bytes) (answers : Nat → Wrote) : Except Fault Served :=
  match r with
  | none => .ok s
  | some [] => s.handleClose
  | some chunk => do
    let (data, buf) ← s.conn.inputBuffer.readFd chunk
    let (((store, session), as), _) ← wire.deliver (turn answers) ((s.store, s.session), []) buf.content
    return ⟨store, session, ← (s.conn.filled data buf).acts as⟩

def handleWrite (s : Served) (w : Wrote) : Except Fault Served := do return { s with conn := ← s.conn.handleWrite w }

def handleEvent (s : Served) (revents : Connection.Revents) (r : Option Bytes) (w : Wrote) (answers : Nat → Wrote) :
    Except Fault Served :=
  (if revents.hup && !revents.input then s.handleClose else .ok s) >>= fun s =>
  (if revents.input || revents.pri || revents.rdhup then s.handleRead r answers else .ok s) >>= fun s =>
  if revents.out then s.handleWrite w else .ok s

inductive Op
  | connectEstablished
  /-- `answers k` is what the kernel answers when the reply with number `k` is written. -/
  | handleEvent (revents : Connection.Revents) (r : Option Bytes) (w : Wrote) (answers : Nat → Wrote)
  | functor (w : Wrote)
  /-- other sessions -/
  | others (store : Store)

/-- The callbacks of `IMServer` call nothing of the connection. -/
def step (s : Served) : Op → Except Fault Served
  | .connectEstablished => do return { s with conn := ← s.conn.connectEstablished [] }
  | .handleEvent revents r w answers => if s.conn.inPoller then s.handleEvent revents r w answers else .ok s
  | .functor w => do return { s with conn := ← s.conn.step (.functor w []) }
  | .others store => .ok { s with store := store }

def run (s : Served) (ops : List Op) : Except Fault Served := ops.foldlM step s

/-! ### A run of the connection -/

section
variable {s s' : Served} {r : Option Bytes} {w : Wrote} {answers : Nat → Wrote}

theorem handleClose_conn (h : s.handleClose = .ok s') : s.conn.handleClose [] = .ok s'.conn := by
  obtain ⟨c, hc, h⟩ := Except.bind_eq_ok.1 h
  cases h
  exact hc

theorem handleWrite_conn (h : s.handleWrite w = .ok s') : s.conn.handleWrite w = .ok s'.conn := by
  obtain ⟨c, hc, h⟩ := Except.bind_eq_ok.1 h
  cases h
  exact hc

theorem handleRead_conn (h : s.handleRead r answers = .ok s') : ∃ as, s.conn.handleRead r as = .ok s'.conn := by
  match r with
  | none =>
    cases h
    exact ⟨[], rfl⟩
  | some [] => exact ⟨[], handleClose_conn h⟩
  | some (b :: chunk) =>
    obtain ⟨⟨data, buf⟩, hbuf, h⟩ := Except.bind_eq_ok.1 h
    obtain ⟨⟨⟨⟨store, session⟩, as⟩, rest⟩, -, h⟩ := Except.bind_eq_ok.1 h
    obtain ⟨c, hc, h⟩ := Except.bind_eq_ok.1 h
    cases h
    exact ⟨as, Except.bind_eq_ok.2 ⟨(data, buf), hbuf, hc⟩⟩

theorem guard_conn {b : Bool} {x : Except Fault Served} {y : Except Fault Connection}
    (hx : x = .ok s' → y = .ok s'.conn) (h : (if b then x else .ok s) = .ok s') :
    (if b then y else .ok s.conn) = .ok s'.conn := by
  cases b with
  | true => exact hx h
  | false =>
    cases h
    rfl

theorem handleEvent_conn {revents : Connection.Revents} (h : s.handleEvent revents r w answers = .ok s') :
    ∃ as, s.conn.handleEvent revents r w [] as = .ok s'.conn := by
  obtain ⟨s₁, h₁, h⟩ := Except.bind_eq_ok.1 h
  obtain ⟨s₂, h₂, h⟩ := Except.bind_eq_ok.1 h
  have hread : ∃ as, (if revents.input || revents.pri || revents.rdhup then s₁.conn.handleRead r as else .ok s₁.conn) =
      .ok s₂.conn := by
    by_cases hin : (revents.input || revents.pri || revents.rdhup) = true
    · rw [if_pos hin] at h₂
      simp only [if_pos hin]
      exact handleRead_conn h₂
    · rw [if_neg hin] at h₂
      cases h₂
      exact ⟨[], if_neg hin⟩
  obtain ⟨as, hread⟩ := hread
  refine ⟨as, ?_⟩
  rw [Connection.handleEvent, guard_conn handleClose_conn h₁, Except.ok_bind, hread]
  exact guard_conn handleWrite_conn h

theorem step_conn {op : Op} (h : s.step op = .ok s') : ∃ ops, s.conn.run ops = .ok s'.conn := by
  have hone : ∀ op', s.conn.step op' = .ok s'.conn → ∃ ops, s.conn.run ops = .ok s'.conn :=
    fun op' h => ⟨[op'], Except.foldlM_cons_ok.2 ⟨_, h, rfl⟩⟩
  cases op with
  | connectEstablished =>
    obtain ⟨c, hc, h⟩ := Except.bind_eq_ok.1 h
    cases h
    exact hone (.connectEstablished []) hc
  | handleEvent revents r w answers =>
    rw [step] at h
    split at h
    · obtain ⟨as, hevent⟩ := handleEvent_conn h
      exact hone (.handleEvent revents r w [] as) hevent
    · cases h
      exact ⟨[], rfl⟩
  | functor w =>
    obtain ⟨c, hc, h⟩ := Except.bind_eq_ok.1 h
    cases h
    exact hone _ hc
  | others store =>
    cases h
    exact ⟨[], rfl⟩

theorem run_conn {ops : List Op} (h : s.run ops = .ok s') : ∃ ops', s.conn.run ops' = .ok s'.conn := by
  induction ops generalizing s with
  | nil =>
    cases h
    exact ⟨[], rfl⟩
  | cons op ops ih =>
    obtain ⟨s₁, h₁, h⟩ := Except.foldlM_cons_ok.1 h
    obtain ⟨ops₁, hops₁⟩ := step_conn h₁
    obtain ⟨ops₂, hops₂⟩ := ih h
    refine ⟨ops₁ ++ ops₂, ?_⟩
    rw [Connection.run, List.foldlM_append]
    exact Except.bind_eq_ok.2 ⟨_, hops₁, hops₂⟩

end

/-! ### What the calls of `onRead` do to the connection -/

end Served

def Log.read : Log → Bytes
  | .note (.message data) => data
  | _ => []

namespace Connection

def received (c : Connection) : Bytes := c.log.flatMap Log.read

/-- The functors a connection has when nothing but `send` is called, and in the loop. -/
def Functor.Plain (f : Functor) : Prop :=
  f = .writeCompleteCallback ∨ (∃ len, f = .highWaterMarkCallback len) ∨ f = .connectDestroyed

/-- Without a reset, what was sent was taken. -/
structure Sends (c c' : Connection) (replies : List Reply) : Prop where
  state : c'.state = c.state
  pending : ∀ f ∈ c'.pendingFunctors, f ∈ c.pendingFunctors ∨ Functor.Plain f
  log : ∃ l, c'.log = c.log ++ l ∧ l.flatMap Log.called = replies.map Reply.out ∧ l.flatMap Log.read = [] ∧
    ((∀ m, .note (.lost m) ∉ l) → Pipe.taken l = replies.flatMap Reply.out)

namespace Sends
variable {c c₁ c' : Connection} {replies replies' : List Reply}

theorem refl (c : Connection) : Sends c c [] :=
  ⟨rfl, fun _ hf => .inl hf, [], (List.append_nil _).symm, rfl, rfl, fun _ => rfl⟩

theorem trans (h₁ : Sends c c₁ replies) (h₂ : Sends c₁ c' replies') : Sends c c' (replies ++ replies') := by
  obtain ⟨l₁, hlog₁, hcalled₁, hread₁, htaken₁⟩ := h₁.log
  obtain ⟨l₂, hlog₂, hcalled₂, hread₂, htaken₂⟩ := h₂.log
  refine ⟨h₂.state.trans h₁.state, fun f hf => ?_, l₁ ++ l₂, ?_, ?_, ?_, fun hlost => ?_⟩
  · exact (h₂.pending f hf).elim (h₁.pending f) .inr
  · rw [hlog₂, hlog₁, List.append_assoc]
  · rw [List.flatMap_append, hcalled₁, hcalled₂, List.map_append]
  · rw [List.flatMap_append, hread₁, hread₂]
    rfl
  · rw [Pipe.taken, List.flatMap_append, List.flatMap_append]
    rw [← htaken₁ fun m hm => hlost m (List.mem_append_left _ hm),
      ← htaken₂ fun m hm => hlost m (List.mem_append_right _ hm)]
    rfl

theorem retrieve {n : Nat} (h : c.act (.retrieve n) = .ok c') :
    Sends c c' [] ∧ c'.inputBuffer.content = c.inputBuffer.content.drop n := by
  obtain ⟨buf, hbuf, h⟩ := Except.bind_eq_ok.1 h
  cases h
  have hle : n ≤ c.inputBuffer.readableBytes := by
    by_contra hlt
    rw [Buffer.retrieve, if_neg hlt] at hbuf
    cases hbuf
  obtain ⟨buf', hbuf', hcontent, -⟩ := Buffer.retrieve_spec hle
  cases Except.ok_unique hbuf hbuf'
  exact ⟨⟨rfl, fun _ hf => .inl hf, [], (List.append_nil _).symm, rfl, rfl, fun _ => rfl⟩, hcontent⟩

end Sends

/-- Only the output side of the connection has changed, and `l` was logged. -/
structure Logs (c c' : Connection) (l : List Log) : Prop where
  state : c'.state = c.state
  inputBuffer : c'.inputBuffer = c.inputBuffer
  pending : ∀ f ∈ c'.pendingFunctors, f ∈ c.pendingFunctors ∨ Functor.Plain f
  log : c'.log = c.log ++ l

namespace Logs
variable {c c₁ c' : Connection} {l l' : List Log}

theorem refl (c : Connection) : Logs c c [] := ⟨rfl, rfl, fun _ hf => .inl hf, (List.append_nil _).symm⟩

theorem trans (h₁ : Logs c c₁ l) (h₂ : Logs c₁ c' l') : Logs c c' (l ++ l') where
  state := h₂.state.trans h₁.state
  inputBuffer := h₂.inputBuffer.trans h₁.inputBuffer
  pending f hf := (h₂.pending f hf).elim (h₁.pending f) .inr
  log := by rw [h₂.log, h₁.log, List.append_assoc]

theorem record (c : Connection) (e : Log) : Logs c (c.record e) [e] := ⟨rfl, rfl, fun _ hf => .inl hf, rfl⟩

theorem writeComplete (c : Connection) :
    Logs c (if c.writeCompleteCallback then c.queueInLoop .writeCompleteCallback else c) [] := by
  split
  · refine ⟨rfl, rfl, fun f hf => ?_, (List.append_nil _).symm⟩
    exact (List.mem_append.1 hf).imp_right fun hf => .inl (List.mem_singleton.1 hf)
  · exact refl c

theorem keep {remaining : Bytes} (h : c.keep remaining = .ok c') : Logs c c' [] := by
  obtain ⟨buf, fs, hk, -, hfs⟩ := c.keep_spec remaining
  obtain rfl := Except.ok_unique hk h
  refine ⟨rfl, rfl, fun f hf => ?_, (List.append_nil _).symm⟩
  exact (List.mem_append.1 hf).imp_right fun hf => .inr (.inl (hfs f hf))

/-- A message is taken, or lost to a reset. -/
theorem sendInLoop {message : Bytes} {w : Wrote} (hs : c.state ≠ .kDisconnected) (h : c.sendInLoop message w = .ok c') :
    (∃ n, Logs c c' [.taken message, .wrote (message.take n)]) ∨ Logs c c' [.taken message] ∨
      Logs c c' [.note (.lost message)] := by
  have htaken := record c (.taken message)
  have hkeep : (if message = [] then .ok (c.record (.taken message)) else (c.record (.taken message)).keep message) =
      .ok c' → Logs c c' [.taken message] := by
    intro h
    split at h
    · obtain rfl := Except.ok.inj h
      exact htaken
    · exact htaken.trans (keep h)
  unfold Connection.sendInLoop at h
  rw [if_neg hs] at h
  split at h
  · cases w with
    | bytes n =>
      have hwrote := htaken.trans (record (c.record (.taken message)) (.wrote (message.take n)))
      dsimp only at h
      split at h
      · obtain rfl := Except.ok.inj h
        exact .inl ⟨n, hwrote.trans (writeComplete _)⟩
      · exact .inl ⟨n, hwrote.trans (keep h)⟩
    | reset =>
      obtain rfl := Except.ok.inj h
      exact .inr (.inr (record ..))
    | wouldBlock => exact .inr (.inl (hkeep h))
    | failed => exact .inr (.inl (hkeep h))
  · exact .inr (.inl (hkeep h))

theorem flushed (c : Connection) (n : Nat) (buf : Buffer) :
    Logs c (c.flushed n buf) [.wrote (c.outputBuffer.content.take n)] := ⟨rfl, rfl, fun _ hf => .inl hf, rfl⟩

theorem shutdownInLoop (c : Connection) : Logs c c.shutdownInLoop [] ∨ Logs c c.shutdownInLoop [.fin] := by
  unfold Connection.shutdownInLoop
  split
  · exact .inl (refl c)
  · exact .inr (record c .fin)

theorem drained (c : Connection) : Logs c c.drained [] ∨ Logs c c.drained [.fin] := by
  have hdisable : Logs c c.disableWriting [] := ⟨rfl, rfl, fun _ hf => .inl hf, (List.append_nil _).symm⟩
  have hcomplete := hdisable.trans (writeComplete _)
  unfold Connection.drained
  dsimp only
  generalize (if c.disableWriting.writeCompleteCallback then c.disableWriting.queueInLoop .writeCompleteCallback
    else c.disableWriting) = c₁ at hcomplete ⊢
  split
  · exact (shutdownInLoop _).imp hcomplete.trans hcomplete.trans
  · exact .inl hcomplete

/-- `handleWrite` logs nothing but what it wrote, and the end of the stream. -/
theorem handleWrite {w : Wrote} (h : c.handleWrite w = .ok c') :
    ∃ l, Logs c c' l ∧ ∀ e ∈ l, e = .fin ∨ ∃ piece, e = .wrote piece := by
  rcases handleWrite_cases h with ⟨rfl, -⟩ | ⟨-, n, buf, -, -, -, ⟨-, rfl⟩ | ⟨-, rfl⟩⟩
  · exact ⟨[], refl c', fun e he => (List.not_mem_nil he).elim⟩
  · have hflushed := flushed c n buf
    rcases drained (c.flushed n buf) with hl | hl
    · exact ⟨_, hflushed.trans hl, by simp⟩
    · exact ⟨_, hflushed.trans hl, by simp⟩
  · exact ⟨_, flushed c n buf, by simp⟩

end Logs

/-- A reply that is sent while the connection is up. -/
theorem Sends.send {c c' : Connection} {reply : Reply} {w : Wrote} (hs : c.state = .kConnected)
    (h : c.act (.send reply.out w) = .ok c') :
    Sends c c' [reply] ∧ c'.inputBuffer = c.inputBuffer := by
  have hs' : (c.record (.note (.called reply.out))).state = .kConnected := hs
  rw [act, if_pos hs'] at h
  have hcalled := Logs.record c (.note (.called reply.out))
  have hsettled : ∀ {l}, Logs (c.record (.note (.called reply.out))) c' l → l.flatMap Log.called = [] →
      l.flatMap Log.read = [] → (Pipe.taken l = reply.out ∨ .note (.lost reply.out) ∈ l) →
      Sends c c' [reply] ∧ c'.inputBuffer = c.inputBuffer := by
    intro l hl hnone hread htaken
    have hall := hcalled.trans hl
    refine ⟨⟨hall.state, hall.pending, _, hall.log, ?_, ?_, fun hlost => ?_⟩, hall.inputBuffer⟩
    · rw [List.flatMap_append, hnone]
      rfl
    · rw [List.flatMap_append, hread]
      rfl
    · rw [Pipe.taken_append, htaken.resolve_right fun hmem => hlost _ (List.mem_append_right _ hmem)]
      exact (List.append_nil _).symm
  have hup : (c.record (.note (.called reply.out))).state ≠ .kDisconnected := by
    rw [hs']
    decide
  rcases Logs.sendInLoop hup h with ⟨n, hl⟩ | hl | hl
  · exact hsettled hl rfl rfl (.inl (List.append_nil _))
  · exact hsettled hl rfl rfl (.inl (List.append_nil _))
  · exact hsettled hl rfl rfl (.inr (List.mem_singleton_self _))

theorem acts_append_ok {c c' : Connection} {as bs : List Act} (h : c.acts (as ++ bs) = .ok c') :
    ∃ c₁, c.acts as = .ok c₁ ∧ c₁.acts bs = .ok c' := by
  rw [acts, List.foldlM_append] at h
  exact Except.bind_eq_ok.1 h

theorem Sends.sends {c c' : Connection} {replies : List Reply} {w : Wrote} (hs : c.state = .kConnected)
    (h : c.acts (replies.map fun reply => .send reply.out w) = .ok c') :
    Sends c c' replies ∧ c'.inputBuffer = c.inputBuffer := by
  induction replies generalizing c with
  | nil =>
    cases h
    exact ⟨.refl _, rfl⟩
  | cons reply replies ih =>
    obtain ⟨c₁, h₁, h⟩ := Except.foldlM_cons_ok.1 h
    obtain ⟨hsend, hbuf⟩ := Sends.send hs h₁
    obtain ⟨hsends, hbuf'⟩ := ih (hsend.state.trans hs) h
    exact ⟨hsend.trans hsends, hbuf'.trans hbuf⟩

end Connection

namespace Served
open Connection

/-- The message asks for something, and the reply has its number and the text that the handler makes of its
data, over some state of the store. -/
def Answers (msg : Bytes) (reply : Reply) : Prop :=
  ∃ q store res, Carries msg q ∧ q.request.Says store q.data res ∧ res.length < 128 ∧
    reply = q.request.reply q.seq res

theorem process_answers {p p' : Store × ClientSession} {msg : Bytes} {ok : Bool}
    (h : ClientSession.process p msg = .ok (p', ok)) :
    ∃ replies, p'.2.sent = p.2.sent ++ replies ∧ List.Forall₂ Answers (answeredRequests [msg]) replies := by
  rcases process_replies h with ⟨hreq, hs⟩ | ⟨q, res, hq, hsays, hlen, hs⟩
  · refine ⟨[], by rw [hs, List.append_nil], ?_⟩
    rw [answeredRequests, List.filter_cons_of_neg (by simp [hreq])]
    exact .nil
  · refine ⟨_, hs, ?_⟩
    rw [answeredRequests, List.filter_cons_of_pos (by simp [hq.requestOf])]
    exact .cons ⟨q, p.1, res, hq, hsays, hlen, rfl⟩ .nil

/-- One call of `onRead`: it takes some messages from the buffer and sends the replies to them. -/
theorem deliver_turn {answers : Nat → Wrote} {p p' : Store × ClientSession} {as as' : List Act} {xs rest : Bytes}
    (h : wire.deliver (turn answers) (p, as) xs = .ok ((p', as'), rest)) :
    ∃ more msgs replies, as' = as ++ more ∧ xs = msgs.flatMap frame ++ rest ∧ (∀ msg ∈ msgs, msg.length < 2 ^ 31) ∧
      p'.2.sent = p.2.sent ++ replies ∧ List.Forall₂ Answers (answeredRequests msgs) replies ∧
      ∀ {c c' : Connection}, c.state = .kConnected → c.inputBuffer.content = xs → c.acts more = .ok c' →
        Sends c c' replies ∧ c'.inputBuffer.content = rest := by
  induction xs using wire.deliver_induct generalizing p as with
  | wait xs hp =>
    rw [Deframer.deliver_wait hp] at h
    cases h
    refine ⟨[], [], [], (List.append_nil _).symm, rfl, by simp, (List.append_nil _).symm, .nil, fun _ hc hacts => ?_⟩
    cases hacts
    exact ⟨.refl _, hc⟩
  | fail xs e hp =>
    rw [Deframer.deliver_fail hp] at h
    cases h
  | frame xs msg xs' hp ih =>
    rw [Deframer.deliver_frame hp] at h
    obtain ⟨⟨p₁, as₁⟩, hturn, h⟩ := Except.bind_eq_ok.1 h
    obtain ⟨⟨q, ok⟩, hprocess, hturn⟩ := Except.bind_eq_ok.1 hturn
    cases hturn
    obtain ⟨replies₁, hsent₁, hall₁⟩ := process_answers hprocess
    obtain ⟨more, msgs, replies, rfl, hxs', hmsgs, hsent, hall, hacts⟩ := ih h
    obtain ⟨hxs, hmsg⟩ := eq_frame_of_pull hp
    rw [hsent₁, List.drop_left]
    refine ⟨_, msg :: msgs, replies₁ ++ replies, List.append_assoc .., ?_, ?_, ?_, ?_, ?_⟩
    · rw [hxs, hxs', List.flatMap_cons, List.append_assoc]
    · exact List.forall_mem_cons.2 ⟨hmsg, hmsgs⟩
    · rw [hsent, hsent₁, List.append_assoc]
    · have happend : answeredRequests (msg :: msgs) = answeredRequests [msg] ++ answeredRequests msgs :=
        List.filter_append [msg] msgs
      rw [happend]
      exact List.rel_append hall₁ hall
    · intro c c' hs hc hrun
      obtain ⟨c₁, hrun₁, hrun⟩ := acts_append_ok hrun
      obtain ⟨c₂, h₂, hrun₁⟩ := Except.foldlM_cons_ok.1 hrun₁
      obtain ⟨c₃, h₃, hrun₁⟩ := Except.foldlM_cons_ok.1 hrun₁
      obtain ⟨hsends₂, hc₂⟩ := Sends.retrieve h₂
      obtain ⟨hsends₃, hc₃⟩ := Sends.retrieve h₃
      have hs₃ : c₃.state = .kConnected := hsends₃.state.trans (hsends₂.state.trans hs)
      obtain ⟨hsends₁, hbuf₁⟩ := Sends.sends hs₃ hrun₁
      have hc₁ : c₁.inputBuffer.content = xs' := by
        rw [hbuf₁, hc₃, hc₂, hc, hxs, frame, List.append_assoc, List.drop_left' (Endian.length_leBytes ..),
          List.drop_left]
      obtain ⟨hsends, hrest⟩ := hacts (hsends₁.state.trans hs₃) hc₁ hrun
      exact ⟨((hsends₂.trans hsends₃).trans hsends₁).trans hsends, hrest⟩

theorem turn_process {answers : Nat → Wrote} {p p' : (Store × ClientSession) × List Act} {msg : Bytes}
    (h : turn answers p msg = .ok p') : (ClientSession.process p.1 msg).map Prod.fst = .ok p'.1 := by
  obtain ⟨⟨q, ok⟩, hprocess, h⟩ := Except.bind_eq_ok.1 h
  cases h
  rw [hprocess]
  rfl

/-- The message callback is `onRead`, on the buffer of the connection. -/
theorem handleRead_refines {s s' : Served} {b : UInt8} {chunk : Bytes} {answers : Nat → Wrote} {buf : Buffer}
    (hs : s.conn.state = .kConnected) (hbuf : buf.content = s.conn.inputBuffer.content)
    (h : s.handleRead (some (b :: chunk)) answers = .ok s') :
    ∃ data buf', data <+: b :: chunk ∧
      receive ClientSession.process ((s.store, s.session), buf) data = .ok ((s'.store, s'.session), buf') ∧
      buf'.content = s'.conn.inputBuffer.content := by
  obtain ⟨⟨data, filled⟩, hfd, h⟩ := Except.bind_eq_ok.1 h
  obtain ⟨⟨⟨p, as⟩, rest⟩, hd, h⟩ := Except.bind_eq_ok.1 h
  obtain ⟨c, hacts, h⟩ := Except.bind_eq_ok.1 h
  cases h
  obtain ⟨n, filled', hfd', -, hfilled, -⟩ := s.conn.inputBuffer.readFd_spec (b :: chunk)
  cases Except.ok_unique hfd hfd'
  have hreceive := receive_refines ClientSession.process (s.store, s.session) buf ((b :: chunk).take n)
  rw [Deframer.feed, hbuf, ← hfilled] at hreceive
  obtain ⟨q, hdeliver, rfl⟩ := Deframer.deliver_simulates (g := fun q msg => (ClientSession.process q msg).map Prod.fst)
    (R := fun q q' => q.1 = q') (fun msg _ q q' q₁ hq hturn => ⟨q₁.1, hq ▸ turn_process hturn, rfl⟩) rfl hd
  obtain ⟨⟨q, buf'⟩, hrun, hq⟩ := Except.map_eq_ok.1 (hreceive.trans hdeliver)
  cases hq
  obtain ⟨more, msgs, replies, rfl, -, -, -, -, hrest⟩ := deliver_turn hd
  have hs' : (s.conn.filled ((b :: chunk).take n) filled).state = .kConnected := hs
  exact ⟨_, buf', List.take_prefix .., hrun, (hrest hs' rfl hacts).2.symm⟩

/-! ### While the connection is up -/

structure Serves (s : Served) : Prop where
  frames : ∃ msgs, s.conn.received = msgs.flatMap frame ++ s.conn.inputBuffer.content ∧
    (∀ msg ∈ msgs, msg.length < 2 ^ 31) ∧ List.Forall₂ Answers (answeredRequests msgs) s.session.sent
  wait : wire.pull s.conn.inputBuffer.content = .wait
  called : s.conn.called = s.session.sent.map Reply.out
  taken : (∀ m, .note (.lost m) ∉ s.conn.log) → Pipe.taken s.conn.log = s.session.sent.flatMap Reply.out
  pending : ∀ f ∈ s.conn.pendingFunctors, Functor.Plain f

theorem received_append {c c' : Connection} {l : List Log} (h : c'.log = c.log ++ l) :
    c'.received = c.received ++ l.flatMap Log.read := by
  rw [received, h, List.flatMap_append]
  rfl

theorem called_append {c c' : Connection} {l : List Log} (h : c'.log = c.log ++ l) :
    c'.called = c.called ++ l.flatMap Log.called := by
  rw [Connection.called, h, List.flatMap_append]
  rfl

namespace Serves
variable {s : Served} {c' : Connection}

/-- Nothing comes in, and nothing is sent. -/
theorem logs {l : List Log} (h : Serves s) (hl : Logs s.conn c' l) (hcalled : l.flatMap Log.called = [])
    (hread : l.flatMap Log.read = []) (htaken : Pipe.taken l = []) : Serves { s with conn := c' } where
  frames := by
    rw [received_append hl.log, hread, List.append_nil, hl.inputBuffer]
    exact h.frames
  wait := by
    rw [hl.inputBuffer]
    exact h.wait
  called := by
    rw [called_append hl.log, hcalled, List.append_nil]
    exact h.called
  taken hlost := by
    rw [hl.log] at hlost
    rw [hl.log, Pipe.taken_append, htaken, List.append_nil]
    exact h.taken fun m hm => hlost m (List.mem_append_left _ hm)
  pending f hf := (hl.pending f hf).elim (h.pending f) id

theorem handleWrite {w : Wrote} (h : Serves s) (hw : s.conn.handleWrite w = .ok c') : Serves { s with conn := c' } := by
  obtain ⟨l, hl, hsilent⟩ := Logs.handleWrite hw
  refine h.logs hl (List.flatMap_eq_nil_iff.2 fun e he => ?_) (List.flatMap_eq_nil_iff.2 fun e he => ?_)
    (List.flatMap_eq_nil_iff.2 fun e he => ?_)
  · rcases hsilent e he with rfl | ⟨piece, rfl⟩ <;> rfl
  · rcases hsilent e he with rfl | ⟨piece, rfl⟩ <;> rfl
  · rcases hsilent e he with rfl | ⟨piece, rfl⟩ <;> rfl

/-- The message callback. -/
theorem onRead {data : Bytes} {buf : Buffer} {answers : Nat → Wrote} {p : Store × ClientSession} {as : List Act}
    {rest : Bytes} (h : Serves s) (hs : s.conn.state = .kConnected)
    (hbuf : buf.content = s.conn.inputBuffer.content ++ data)
    (hd : wire.deliver (turn answers) ((s.store, s.session), []) buf.content = .ok ((p, as), rest))
    (hacts : (s.conn.filled data buf).acts as = .ok c') : c'.state = .kConnected ∧ Serves ⟨p.1, p.2, c'⟩ := by
  obtain ⟨more, msgs, replies, rfl, hxs, hmsgs, hsent, hall, hrun⟩ := deliver_turn hd
  have hs' : (s.conn.filled data buf).state = .kConnected := hs
  obtain ⟨hsends, hrest⟩ := hrun hs' rfl hacts
  obtain ⟨l, hlog, hcalled, hread, htaken⟩ := hsends.log
  have hlog' : c'.log = s.conn.log ++ (.note (.message data) :: l) := hlog.trans (List.append_assoc ..)
  obtain ⟨msgs₀, hreceived, hmsgs₀, hall₀⟩ := h.frames
  refine ⟨hsends.state.trans hs', ⟨msgs₀ ++ msgs, ?_, ?_, ?_⟩, ?_, ?_, fun hlost => ?_, fun f hf => ?_⟩
  · rw [received_append hlog', List.flatMap_cons, hread, List.append_nil, hreceived, hrest, List.flatMap_append,
      List.append_assoc, List.append_assoc, ← hxs, hbuf]
    rfl
  · exact List.forall_mem_append.2 ⟨hmsgs₀, hmsgs⟩
  · rw [answeredRequests, List.filter_append, hsent]
    exact List.rel_append hall₀ hall
  · rw [hrest]
    exact Deframer.pull_of_deliver hd
  · rw [called_append hlog', List.flatMap_cons, hcalled, h.called, hsent, List.map_append]
    rfl
  · rw [hlog'] at hlost
    rw [hlog', Pipe.taken_append, Pipe.taken_cons, h.taken fun m hm => hlost m (List.mem_append_left _ hm),
      htaken fun m hm => hlost m (List.mem_append_right _ (List.mem_cons_of_mem _ hm)), hsent, List.flatMap_append]
    rfl
  · exact (hsends.pending f hf).elim (h.pending f) id

end Serves

/-- The connection was up, and serves as long as it does not go down. -/
structure Up (s : Served) : Prop where
  inv : Connection.Inv True s.conn
  serves : s.conn.state ≠ .kDisconnected → s.conn.state = .kConnected ∧ Serves s

theorem down_of_handleClose {c c' : Connection} (h : c.handleClose [] = .ok c') : c'.state = .kDisconnected := by
  unfold Connection.handleClose at h
  split at h
  · obtain ⟨c₁, h₁, h⟩ := Except.bind_eq_ok.1 h
    cases h₁
    unfold removeConnection at h
    split at h
    · cases h
      rfl
    · cases h
  · cases h

/-- What is down stays down. -/
theorem up_of_goes {c c' : Connection} (hg : Goes True c c') (hi : Connection.Inv True c)
    (hup : c'.state ≠ .kDisconnected) : c.state ≠ .kDisconnected := by
  intro hd
  have hdown := (hg hi).1.stays_down (by simpa [pipe] using hd)
  exact hup (by simpa [pipe] using hdown)

namespace Up
variable {s s' : Served}

theorem handleClose (hu : Up s) (h : s.handleClose = .ok s') : Up s' :=
  ⟨(handleClose_goes (handleClose_conn h) hu.inv).2, fun hup => (hup (down_of_handleClose (handleClose_conn h))).elim⟩

theorem handleWrite {w : Wrote} (hu : Up s) (h : s.handleWrite w = .ok s') : Up s' := by
  obtain ⟨c, hc, h⟩ := Except.bind_eq_ok.1 h
  cases h
  have hgoes : Goes True s.conn c := handleWrite_goes hc
  refine ⟨(hgoes hu.inv).2, fun hup => ?_⟩
  obtain ⟨hs, hserves⟩ := hu.serves (up_of_goes hgoes hu.inv hup)
  obtain ⟨l, hl, -⟩ := Logs.handleWrite hc
  exact ⟨hl.state.trans hs, hserves.handleWrite hc⟩

theorem handleRead {r : Option Bytes} {answers : Nat → Wrote} (hu : Up s) (h : s.handleRead r answers = .ok s') :
    Up s' := by
  match r with
  | none =>
    cases h
    exact hu
  | some [] => exact hu.handleClose h
  | some (b :: chunk) =>
    obtain ⟨as', hread⟩ := handleRead_conn h
    have hgoes : Goes True s.conn s'.conn := handleRead_goes hread
    obtain ⟨⟨data, buf⟩, hfd, h⟩ := Except.bind_eq_ok.1 h
    obtain ⟨⟨⟨p, as⟩, rest⟩, hd, h⟩ := Except.bind_eq_ok.1 h
    obtain ⟨c, hacts, h⟩ := Except.bind_eq_ok.1 h
    cases h
    obtain ⟨n, buf', hfd', -, hbuf, -⟩ := s.conn.inputBuffer.readFd_spec (b :: chunk)
    cases Except.ok_unique hfd hfd'
    refine ⟨(hgoes hu.inv).2, fun hup => ?_⟩
    obtain ⟨hs, hserves⟩ := hu.serves (up_of_goes hgoes hu.inv hup)
    exact hserves.onRead hs hbuf hd hacts

theorem guard {b : Bool} {x : Except Fault Served} (hu : Up s) (hx : x = .ok s' → Up s')
    (h : (if b then x else .ok s) = .ok s') : Up s' := by
  split at h
  · exact hx h
  · cases h
    exact hu

theorem handleEvent {revents : Revents} {r : Option Bytes} {w : Wrote} {answers : Nat → Wrote} (hu : Up s)
    (h : s.handleEvent revents r w answers = .ok s') : Up s' := by
  obtain ⟨s₁, h₁, h⟩ := Except.bind_eq_ok.1 h
  obtain ⟨s₂, h₂, h⟩ := Except.bind_eq_ok.1 h
  have hu₁ := hu.guard hu.handleClose h₁
  have hu₂ := hu₁.guard hu₁.handleRead h₂
  exact hu₂.guard hu₂.handleWrite h

/-- A functor is a callback that does nothing, or brings the connection down. -/
theorem functor {w : Wrote} {c : Connection} (hu : Up s) (h : s.conn.step (.functor w []) = .ok c) :
    Up { s with conn := c } := by
  have hgoes : Goes True s.conn c := step_goes (fun _ => trivial) h
  refine ⟨(hgoes hu.inv).2, fun hup => ?_⟩
  obtain ⟨hs, hserves⟩ := hu.serves (up_of_goes hgoes hu.inv hup)
  rw [Connection.step] at h
  split at h
  · cases h
    exact ⟨hs, hserves⟩
  · next f fs hf =>
    have hnote : ∀ n, Logs s.conn ((s.conn.setPendingFunctors fs).record (.note n)) [.note n] := fun n =>
      ⟨rfl, rfl, fun f' hf' => .inl (hf ▸ List.mem_cons_of_mem _ hf'), rfl⟩
    rcases hserves.pending f (hf ▸ List.mem_cons_self ..) with rfl | ⟨len, rfl⟩ | rfl
    · cases h
      exact ⟨hs, hserves.logs (hnote _) rfl rfl rfl⟩
    · cases h
      exact ⟨hs, hserves.logs (hnote _) rfl rfl rfl⟩
    · have hs' : (s.conn.setPendingFunctors fs).state = .kConnected := hs
      rw [runFunctor, connectDestroyed, if_pos hs'] at h
      obtain ⟨c₁, h₁, h⟩ := Except.bind_eq_ok.1 h
      cases h₁
      unfold removeChannel at h
      split at h
      · cases h
        exact (hup rfl).elim
      · cases h

end Up

/-- A connection that is not established yet has nothing to do. -/
structure Fresh (s : Served) : Prop where
  inv : Connection.Inv True s.conn
  state : s.conn.state = .kConnecting
  inPoller : s.conn.inPoller = false
  pendingFunctors : s.conn.pendingFunctors = []
  serves : Serves s

theorem Serves.others {s : Served} (h : Serves s) (store : Store) : Serves { s with store := store } :=
  ⟨h.frames, h.wait, h.called, h.taken, h.pending⟩

theorem Up.step {s s' : Served} {op : Op} (hu : Up s) (h : s.step op = .ok s') : Up s' := by
  cases op with
  | connectEstablished =>
    obtain ⟨c, hc, h⟩ := Except.bind_eq_ok.1 h
    cases h
    have hgoes : Goes True s.conn c := connectEstablished_goes hc
    refine ⟨(hgoes hu.inv).2, fun hup => ?_⟩
    obtain ⟨hs, -⟩ := hu.serves (up_of_goes hgoes hu.inv hup)
    rw [Connection.connectEstablished, if_neg (by rw [hs]; decide)] at hc
    cases hc
  | handleEvent revents r w answers => exact hu.guard hu.handleEvent h
  | functor w =>
    obtain ⟨c, hc, h⟩ := Except.bind_eq_ok.1 h
    cases h
    exact hu.functor hc
  | others store =>
    cases h
    exact ⟨hu.inv, fun hup => (hu.serves hup).imp_right fun hserves => hserves.others store⟩

theorem Serves.opened {s : Served} (h : Serves s) : Serves { s with conn := s.conn.opened } := by
  have hlog : s.conn.opened.log = s.conn.log ++ [.note .up] := rfl
  refine ⟨?_, h.wait, ?_, fun hlost => ?_, h.pending⟩
  · rw [received_append hlog]
    exact (List.append_nil s.conn.received).symm ▸ h.frames
  · rw [called_append hlog]
    exact (List.append_nil _).trans h.called
  · rw [hlog] at hlost
    rw [hlog, Pipe.taken_append]
    exact (List.append_nil _).trans (h.taken fun m hm => hlost m (List.mem_append_left _ hm))

theorem Fresh.step {s s' : Served} {op : Op} (hf : Fresh s) (h : s.step op = .ok s') : Fresh s' ∨ Up s' := by
  cases op with
  | connectEstablished =>
    obtain ⟨c, hc, h⟩ := Except.bind_eq_ok.1 h
    cases h
    have hgoes : Goes True s.conn c := connectEstablished_goes hc
    rw [Connection.connectEstablished, if_pos hf.state] at hc
    cases hc
    exact .inr ⟨(hgoes hf.inv).2, fun _ => ⟨rfl, hf.serves.opened⟩⟩
  | handleEvent revents r w answers =>
    rw [Served.step, hf.inPoller] at h
    cases h
    exact .inl hf
  | functor w =>
    rw [Served.step, Connection.step, hf.pendingFunctors] at h
    cases h
    exact .inl hf
  | others store =>
    cases h
    exact .inl ⟨hf.inv, hf.state, hf.inPoller, hf.pendingFunctors, hf.serves.others store⟩

/-- From the accepted socket on. -/
theorem run_fresh_or_up {s s' : Served} {ops : List Op} (hs : Fresh s ∨ Up s) (h : s.run ops = .ok s') :
    Fresh s' ∨ Up s' := by
  induction ops generalizing s with
  | nil =>
    cases h
    exact hs
  | cons op ops ih =>
    obtain ⟨s₁, h₁, h⟩ := Except.foldlM_cons_ok.1 h
    refine ih ?_ h
    rcases hs with hf | hu
    · exact hf.step h₁
    · exact .inr (hu.step h₁)

theorem fresh_new (store : Store) (mark : Nat) (onWrite onHigh : Bool) :
    Fresh ⟨store, {}, Connection.new mark onWrite onHigh⟩ where
  inv := inv_new
  state := rfl
  inPoller := rfl
  pendingFunctors := rfl
  serves := ⟨⟨[], rfl, by simp, .nil⟩, rfl, rfl, fun _ => rfl, by simp [Connection.new]⟩

end Served

open Served in
/-- Whatever the socket hands over at a time, whatever the kernel takes of a write and whatever other sessions do
to the store: while the connection is up, the bytes that came in are the packages that were handled and the start
of the next one, every request among them has got its one reply, in order, and unless a write was reset, what went
out and what is still in the output buffer are together the bytes of these replies. -/
theorem replies_go_out {store : Store} {mark : Nat} {onWrite onHigh : Bool} {ops : List Op} {s : Served}
    (h : Served.run ⟨store, {}, Connection.new mark onWrite onHigh⟩ ops = .ok s) (hup : s.conn.state = .kConnected) :
    ∃ msgs rest, s.conn.received = msgs.flatMap frame ++ rest ∧ (∀ msg ∈ msgs, msg.length < 2 ^ 31) ∧
      wire.pull rest = .wait ∧ List.Forall₂ Answers (answeredRequests msgs) s.session.sent ∧
      s.conn.called = s.session.sent.map Reply.out ∧
      ((∀ m, .note (.lost m) ∉ s.conn.log) →
        Pipe.wrote s.conn.log ++ s.conn.outputBuffer.content = s.session.sent.flatMap Reply.out) := by
  have hserves : Serves s := by
    rcases run_fresh_or_up (.inl (fresh_new store mark onWrite onHigh)) h with hf | hu
    · exact hf.serves
    · exact (hu.serves (by rw [hup]; decide)).2
  obtain ⟨msgs, hreceived, hmsgs, hall⟩ := hserves.frames
  refine ⟨msgs, _, hreceived, hmsgs, hserves.wait, hall, hserves.called, fun hlost => ?_⟩
  obtain ⟨ops', hrun⟩ := run_conn h
  obtain ⟨hsteps, -⟩ := Connection.run_pipe True (fun _ _ _ => trivial) hrun
  have hexact : Pipe.wrote s.conn.log ++ s.conn.outputBuffer.content = Pipe.taken s.conn.log := hsteps.exact rfl
  exact hexact.trans (hserves.taken hlost)

/-- A heartbeat that comes in two pieces, and a reply that goes out in two. -/
def heartbeatOps : List Served.Op :=
  [.connectEstablished,
   .handleEvent { input := true } (some ((frame heartbeatMsg).take 6)) .wouldBlock fun _ => .wouldBlock,
   .others Store.oneUserLoaded,
   .handleEvent { input := true } (some ((frame heartbeatMsg).drop 6)) .wouldBlock fun _ => .bytes 5,
   .handleEvent { out := true } none (.bytes 7) fun _ => .wouldBlock]

theorem replies_go_out_heartbeat :
    ∃ s, Served.run ⟨Store.oneUserLoaded, {}, Connection.new 0 true true⟩ heartbeatOps = .ok s ∧
      ∃ msgs rest, s.conn.received = msgs.flatMap frame ++ rest ∧ (∀ msg ∈ msgs, msg.length < 2 ^ 31) ∧
        wire.pull rest = .wait ∧ List.Forall₂ Served.Answers (answeredRequests msgs) s.session.sent ∧
        s.conn.called = s.session.sent.map Reply.out ∧
        ((∀ m, .note (.lost m) ∉ s.conn.log) →
          Pipe.wrote s.conn.log ++ s.conn.outputBuffer.content = s.session.sent.flatMap Reply.out) := by
  have hup : (Served.run ⟨Store.oneUserLoaded, {}, Connection.new 0 true true⟩ heartbeatOps).toOption.map
      (fun s => s.conn.state) = some .kConnected := by decide +kernel
  refine Except.isOk_and (by decide +kernel) fun s hs => replies_go_out hs ?_
  rw [hs] at hup
  exact Option.some.inj hup

end IMServer.Net
