import IMServer.Answers

/-!
# The stream of replies

What a client finds that cuts the reply stream the way `onRead` cuts the request stream, and
whether it can tell which request a reply belongs to. A reply to a heartbeat has a length of eight
bytes in front and comes out as two frames; every reply starts with the sequence number where the
command should be. Runs are runs of handlers (`handle`) or of messages (`processAll`); the second are
what a connection does with the chunks it receives (`receive_processAll`), and agree with the first
on messages that carry requests (`processAll_eq_handle`).
-/

namespace IMServer
open Endian

/-! ### Framing -/

structure Incoming where
  seq : Int32
  request : Request
  data : Bytes

/-- The handler of a request, on a session that has just stored the sequence number. -/
def handle (p : Store × ClientSession) (q : Incoming) : Except Fault (Store × ClientSession) :=
  ClientSession.dispatch p.1 { p.2 with seq := q.seq } q.request.cmd q.data

/-- One frame for each reply, with its body for payload, and nothing left over. -/
def WellFramed (sent : List Reply) : Prop :=
  wire.drain (sent.flatMap Reply.out) = .ok (sent.map Reply.body, [])

def Request.frames (seq : Int32) (res : Bytes) : Request → List Bytes
  | heartbeat => [[0, 0, 0, 0] ++ int32Bytes seq ++ [0], []]
  | _ => [replyBody seq res]

def RepliesTo (q : Incoming) (reply : Reply) : Prop :=
  ∃ res : Bytes, res.length < 128 ∧ reply = q.request.reply q.seq res

theorem foldlM_handle {qs : List Incoming} {p p' : Store × ClientSession}
    (h : qs.foldlM handle p = .ok p') :
    ∃ replies, p'.2.sent = p.2.sent ++ replies ∧ List.Forall₂ RepliesTo qs replies := by
  induction qs generalizing p with
  | nil =>
    cases h
    exact ⟨[], by simp, .nil⟩
  | cons q qs ih =>
    obtain ⟨⟨s₁, c₁⟩, h₁, h⟩ := Except.foldlM_cons_ok.1 h
    obtain ⟨res, -, hres, rfl⟩ := ClientSession.dispatch_reply h₁
    obtain ⟨replies, hsent, hall⟩ := ih h
    refine ⟨q.request.reply q.seq res :: replies, ?_, .cons ⟨res, hres, rfl⟩ hall⟩
    rw [hsent, List.append_assoc]
    rfl

/-- The eight bytes of a `size_t` are read as a length of four bytes and four bytes of payload. -/
theorem out_eq_frames (r : Request) (seq : Int32) (res : Bytes) :
    (r.reply seq res).out = (r.frames seq res).flatMap frame := by
  cases r with
  | heartbeat =>
    have h₁ : sizeBytes 9 = [9, 0, 0, 0, 0, 0, 0, 0] := by decide
    have h₂ : leBytes 4 9 = [9, 0, 0, 0] := by decide
    have h₃ : leBytes 4 0 = [0, 0, 0, 0] := by decide
    simp [Request.reply, Request.frames, frame, replyBody, h₁, h₂, h₃]
  | register => simp [Request.reply, Request.frames]
  | login => simp [Request.reply, Request.frames]

theorem frames_length_lt (r : Request) (seq : Int32) {res : Bytes} (h : res.length < 128) :
    ∀ f ∈ r.frames seq res, f.length < 2 ^ 31 := by
  cases r with
  | heartbeat => simp [Request.frames]
  | register => simp only [Request.frames, List.mem_singleton, forall_eq, length_replyBody]; omega
  | login => simp only [Request.frames, List.mem_singleton, forall_eq, length_replyBody]; omega

/-- A stream of replies is a stream of frames: one for each reply, and one more for each heartbeat. -/
theorem exists_frames {qs : List Incoming} {sent : List Reply} (h : List.Forall₂ RepliesTo qs sent) :
    ∃ fs : List Bytes, sent.flatMap Reply.out = fs.flatMap frame ∧ (∀ f ∈ fs, f.length < 2 ^ 31) ∧
      fs.length = sent.length + qs.countP (·.request = .heartbeat) ∧
      ((∀ q ∈ qs, q.request ≠ .heartbeat) → fs = sent.map Reply.body) := by
  induction h with
  | nil => exact ⟨[], rfl, by simp, rfl, fun _ => rfl⟩
  | @cons q reply qs sent hq _ ih =>
    obtain ⟨res, hres, rfl⟩ := hq
    obtain ⟨fs, hfs, hlt, hlen, hbody⟩ := ih
    refine ⟨q.request.frames q.seq res ++ fs, ?_, ?_, ?_, ?_⟩
    · rw [List.flatMap_cons, out_eq_frames, hfs, List.flatMap_append]
    · intro f hf
      rcases List.mem_append.1 hf with hf | hf
      · exact frames_length_lt _ _ hres f hf
      · exact hlt f hf
    · rw [List.length_append, hlen, List.length_cons, List.countP_cons]
      cases hr : q.request <;> simp [Request.frames] <;> omega
    · intro hno
      rw [hbody fun q hq => hno q (List.mem_cons_of_mem _ hq), List.map_cons]
      have hne := hno q (List.mem_cons_self ..)
      cases hr : q.request with
      | heartbeat => exact absurd hr hne
      | register => rfl
      | login => rfl

theorem wellFramed_of_frames {sent : List Reply} {fs : List Bytes}
    (hfs : sent.flatMap Reply.out = fs.flatMap frame) (hlt : ∀ f ∈ fs, f.length < 2 ^ 31) :
    WellFramed sent ↔ fs = sent.map Reply.body := by
  have hdrain : wire.drain (sent.flatMap Reply.out) = .ok (fs, []) := by
    have hwait : wire.pull [] = .wait := rfl
    have := Deframer.drain_encode wire_decodes hlt hwait
    rwa [List.append_nil, ← hfs] at this
  rw [WellFramed, hdrain]
  simp

theorem not_wellFramed_of_heartbeat {qs : List Incoming} {sent : List Reply}
    (h : List.Forall₂ RepliesTo qs sent) {q : Incoming} (hq : q ∈ qs) (hbeat : q.request = .heartbeat) :
    ¬ WellFramed sent := by
  obtain ⟨fs, hfs, hlt, hlen, -⟩ := exists_frames h
  rw [wellFramed_of_frames hfs hlt]
  intro heq
  rw [heq, List.length_map] at hlen
  have : 0 < qs.countP (·.request = .heartbeat) := List.countP_pos_iff.2 ⟨q, hq, by simp [hbeat]⟩
  omega

/-- The replies of a run are well framed unless a heartbeat is among the requests. -/
theorem replies_wellFramed_iff {s : Store} {qs : List Incoming} {p : Store × ClientSession}
    (h : qs.foldlM handle (s, {}) = .ok p) :
    WellFramed p.2.sent ↔ ∀ q ∈ qs, q.request ≠ .heartbeat := by
  obtain ⟨sent, hsent, hall⟩ := foldlM_handle h
  rw [List.nil_append] at hsent
  rw [hsent]
  constructor
  · exact fun hwell q hq hbeat => not_wellFramed_of_heartbeat hall hq hbeat hwell
  · intro hno
    obtain ⟨fs, hfs, hlt, -, hbody⟩ := exists_frames hall
    exact (wellFramed_of_frames hfs hlt).2 (hbody hno)

def mixedRequests : List Incoming := [⟨6, .register, []⟩, ⟨7, .heartbeat, []⟩]

theorem replies_wellFramed_iff_mixed :
    ∃ p, mixedRequests.foldlM handle (Store.oneUserLoaded, {}) = .ok p ∧
      (WellFramed p.2.sent ↔ ∀ q ∈ mixedRequests, q.request ≠ .heartbeat) :=
  ⟨_, rfl, replies_wellFramed_iff rfl⟩

/-- A single heartbeat, number 7: seventeen bytes that are cut into a frame of nine and an empty one. -/
theorem heartbeat_not_wellFramed :
    ∃ p, [⟨7, .heartbeat, []⟩].foldlM handle (Store.oneUserLoaded, {}) = .ok p ∧
      p.2.sent.map Reply.out = [[9, 0, 0, 0, 0, 0, 0, 0, 7, 0, 0, 0, 0, 0, 0, 0, 0]] ∧
      ¬ WellFramed p.2.sent := by
  have hrun : [⟨7, .heartbeat, []⟩].foldlM handle (Store.oneUserLoaded, {}) =
      .ok (Store.oneUserLoaded, { seq := 7, sent := [Request.heartbeat.reply 7 []] }) := rfl
  have hall : List.Forall₂ RepliesTo [⟨7, .heartbeat, []⟩] [Request.heartbeat.reply 7 []] :=
    .cons ⟨[], by decide, rfl⟩ .nil
  exact ⟨_, hrun, by decide, not_wellFramed_of_heartbeat hall (List.mem_singleton_self _) rfl⟩

/-! ### Correlation -/

def Request.ofCmd (cmd : Int32) : Option Request :=
  if cmd = msgTypeHeartbeat then some .heartbeat
  else if cmd = msgTypeRegister then some .register
  else if cmd = msgTypeLogin then some .login
  else none

def requestOf (msg : Bytes) : Option (Request × Int32) :=
  match decode msg with
  | .ok (.packet cmd seq _) => (Request.ofCmd cmd).map (·, seq)
  | _ => none

theorem cmd_of_ofCmd {cmd : Int32} {r : Request} (h : Request.ofCmd cmd = some r) : cmd = r.cmd := by
  unfold Request.ofCmd at h
  split at h
  · next hc => cases h; exact hc
  · split at h
    · next hc => cases h; exact hc
    · split at h
      · next hc => cases h; exact hc
      · cases h

theorem dispatch_none {cmd : Int32} (h : Request.ofCmd cmd = none) (s : Store) (c : ClientSession)
    (data : Bytes) : ClientSession.dispatch s c cmd data = .ok (s, c) := by
  unfold Request.ofCmd at h
  split at h
  · cases h
  · next h₁ =>
    split at h
    · cases h
    · next h₂ =>
      split at h
      · cases h
      · next h₃ => rw [ClientSession.dispatch, if_neg h₁, if_neg h₂, if_neg h₃]; rfl

/-- A message that carries a request. -/
def Carries (msg : Bytes) (q : Incoming) : Prop := decode msg = .ok (.packet q.request.cmd q.seq q.data)

theorem ofCmd_cmd (r : Request) : Request.ofCmd r.cmd = some r := by
  cases r <;> rfl

theorem Carries.requestOf {msg : Bytes} {q : Incoming} (h : Carries msg q) :
    requestOf msg = some (q.request, q.seq) := by
  unfold IMServer.requestOf
  rw [show decode msg = _ from h]
  exact congrArg (Option.map (·, q.seq)) (ofCmd_cmd q.request)

theorem process_eq_handle {msg : Bytes} {q : Incoming} (h : Carries msg q) (p : Store × ClientSession) :
    ClientSession.process p msg = (handle p q).map (·, true) := by
  obtain ⟨s, c⟩ := p
  rw [ClientSession.process, h, Except.ok_bind, handle]
  show (ClientSession.dispatch s { c with seq := q.seq } q.request.cmd q.data >>= fun p => pure (p, true)) = _
  cases ClientSession.dispatch s { c with seq := q.seq } q.request.cmd q.data <;> rfl

/-- One reply, with the text its handler makes of the data. -/
theorem process_replies {p p' : Store × ClientSession} {msg : Bytes} {ok : Bool}
    (h : ClientSession.process p msg = .ok (p', ok)) :
    (requestOf msg = none ∧ p'.2.sent = p.2.sent) ∨
      ∃ q res, Carries msg q ∧ q.request.Says p.1 q.data res ∧ res.length < 128 ∧
        p'.2.sent = p.2.sent ++ [q.request.reply q.seq res] := by
  obtain ⟨s, c⟩ := p
  obtain ⟨d, hd, h⟩ := Except.bind_eq_ok.1 h
  unfold requestOf
  rw [hd]
  cases d with
  | rejected seq =>
    cases seq with
    | none => cases h; exact .inl ⟨rfl, rfl⟩
    | some seq => cases h; exact .inl ⟨rfl, rfl⟩
  | packet cmd seq data =>
    obtain ⟨⟨s₁, c₁⟩, hdis, h⟩ := Except.bind_eq_ok.1 h
    cases h
    simp only
    cases hr : Request.ofCmd cmd with
    | none =>
      rw [dispatch_none hr] at hdis
      cases hdis
      exact .inl ⟨rfl, rfl⟩
    | some r =>
      have hcmd := cmd_of_ofCmd hr
      rw [hcmd] at hdis hd
      obtain ⟨res, hsays, hres, rfl⟩ := ClientSession.dispatch_reply hdis
      exact .inr ⟨⟨seq, r, data⟩, res, hd, hsays, hres, rfl⟩

def processAll (p : Store × ClientSession) (msgs : List Bytes) : Except Fault (Store × ClientSession) :=
  msgs.foldlM (fun p msg => (ClientSession.process p msg).map Prod.fst) p

theorem processAll_eq_handle {msgs : List Bytes} {qs : List Incoming} (h : List.Forall₂ Carries msgs qs)
    (p : Store × ClientSession) : processAll p msgs = qs.foldlM handle p := by
  induction h generalizing p with
  | nil => rfl
  | @cons msg q msgs qs hq _ ih =>
    show ((ClientSession.process p msg).map Prod.fst >>= fun p => processAll p msgs) = _
    rw [process_eq_handle hq, List.foldlM_cons]
    cases handle p q with
    | error e => rfl
    | ok p' => exact ih p'

/-- A session as the connection sees it: however the frames of `msgs` are cut, it ends where
processing the messages one after another ends, with the rest of the stream in the input buffer. -/
theorem receive_processAll (p : Store × ClientSession) {buf : Buffer} {msgs : List Bytes} {t : Bytes}
    {chunks : List Bytes} (hbuf : buf.content = []) (hmsgs : ∀ msg ∈ msgs, msg.length < 2 ^ 31)
    (ht : wire.pull t = .wait) (hcut : chunks.flatten = msgs.flatMap frame ++ t) :
    (chunks.foldlM (receive ClientSession.process) (p, buf)).map (fun q => (q.1, q.2.content)) =
      (processAll p msgs).map (·, t) :=
  receive_frames ClientSession.process p hbuf hmsgs ht hcut

def answeredRequests (msgs : List Bytes) : List Bytes := msgs.filter fun msg => (requestOf msg).isSome

def AnswersMessage (msg : Bytes) (reply : Reply) : Prop :=
  ∃ r seq res, requestOf msg = some (r, seq) ∧ reply.body = replyBody seq res

theorem processAll_replies {msgs : List Bytes} {p p' : Store × ClientSession}
    (h : processAll p msgs = .ok p') :
    ∃ replies, p'.2.sent = p.2.sent ++ replies ∧
      List.Forall₂ AnswersMessage (answeredRequests msgs) replies := by
  induction msgs generalizing p with
  | nil =>
    cases h
    exact ⟨[], by simp, .nil⟩
  | cons msg msgs ih =>
    obtain ⟨p₁, h₁, h⟩ := Except.foldlM_cons_ok.1 h
    obtain ⟨⟨p₂, ok⟩, hproc, rfl⟩ := Except.map_eq_ok.1 h₁
    obtain ⟨replies, hsent, hall⟩ := ih h
    rcases process_replies hproc with ⟨hreq, hs⟩ | ⟨⟨seq, r, data⟩, res, hq, -, -, hs⟩
    · refine ⟨replies, by rw [hsent, hs], ?_⟩
      rw [answeredRequests, List.filter_cons_of_neg (by simp [hreq])]
      exact hall
    · have hreq := hq.requestOf
      refine ⟨r.reply seq res :: replies, by rw [hsent, hs, List.append_assoc]; rfl, ?_⟩
      rw [answeredRequests, List.filter_cons_of_pos (by simp [hreq])]
      refine .cons ?_ hall
      cases r with
      | heartbeat => exact ⟨.heartbeat, seq, [], hreq, rfl⟩
      | register => exact ⟨.register, seq, res, hreq, rfl⟩
      | login => exact ⟨.login, seq, res, hreq, rfl⟩

def readFields (msg : Bytes) : Int32 × Int32 :=
  match decode msg with
  | .ok (.packet cmd seq _) => (cmd, seq)
  | _ => (0, 0)

/-- Command and sequence number, where the layout described in `onHeartbeatResponse` has them. -/
def layoutFields (msg : Bytes) : Int32 × Int32 :=
  (int32OfBytes (msg.take 4), int32OfBytes ((msg.drop 4).take 4))

/-- The `k`-th reply starts with command and sequence number of the `k`-th answered request. -/
def Correlated (fields : Bytes → Int32 × Int32) (msgs : List Bytes) (sent : List Reply) : Prop :=
  List.Forall₂ (fun msg reply => int32Bytes (fields msg).1 ++ int32Bytes (fields msg).2 <+: reply.body)
    (answeredRequests msgs) sent

/-- The first eight bytes of a body are the sequence number and a zero. -/
theorem prefix_replyBody {cmd seq' seq : Int32} {res : Bytes}
    (h : int32Bytes cmd ++ int32Bytes seq' <+: replyBody seq res) : cmd = seq ∧ seq' = 0 := by
  have hzero : ([0, 0, 0, 0] : Bytes) = int32Bytes 0 := by decide
  have htake := List.prefix_iff_eq_take.1 h
  rw [List.length_append, length_int32Bytes, length_int32Bytes, replyBody,
    List.take_left' (by simp), hzero] at htake
  obtain ⟨h₁, h₂⟩ := List.append_inj htake (by simp)
  exact ⟨int32Bytes_inj h₁, int32Bytes_inj h₂⟩

theorem requestOf_some {msg : Bytes} {r : Request} {seq : Int32} (h : requestOf msg = some (r, seq)) :
    ∃ data, decode msg = .ok (.packet r.cmd seq data) := by
  unfold requestOf at h
  split at h
  · next cmd seq' data hd =>
    obtain ⟨r', hr, heq⟩ := Option.map_eq_some_iff.1 h
    cases heq
    exact ⟨data, by rw [hd, cmd_of_ofCmd hr]⟩
  · cases h

/-- The lowest byte of the command `process` reads is byte 5 of the message, which the layout has in
the sequence number. -/
theorem byte5_of_decode {msg data : Bytes} {cmd seq : Int32}
    (h : decode msg = .ok (.packet cmd seq data)) : (int32Bytes cmd).head? = some (msg.getD 5 0) := by
  obtain ⟨r₁, _, _, _, _, h₁, -⟩ := decode_packet h
  obtain ⟨d, hd, rfl⟩ := BinaryReader.readInt_some h₁
  obtain ⟨-, rfl, -⟩ := BinaryReader.readData_some (by decide) hd
  rw [int32Bytes_int32OfBytes (by simp)]
  rfl

theorem readFields_ne {msg : Bytes} {reply : Reply} (h : AnswersMessage msg reply) :
    ¬ int32Bytes (readFields msg).1 ++ int32Bytes (readFields msg).2 <+: reply.body := by
  obtain ⟨r, seq, res, hreq, hbody⟩ := h
  obtain ⟨data, hd⟩ := requestOf_some hreq
  have hf : readFields msg = (r.cmd, seq) := by rw [readFields, hd]
  rw [hbody, hf]
  intro hp
  obtain ⟨hcmd, hseq⟩ := prefix_replyBody hp
  simp only at hcmd hseq
  rw [hseq] at hcmd
  cases r <;> exact absurd hcmd (by decide)

theorem layoutFields_ne {msg : Bytes} {reply : Reply} (h : AnswersMessage msg reply) :
    ¬ int32Bytes (layoutFields msg).1 ++ int32Bytes (layoutFields msg).2 <+: reply.body := by
  obtain ⟨r, seq, res, hreq, hbody⟩ := h
  obtain ⟨data, hd⟩ := requestOf_some hreq
  have hlen := (decode_packet_length hd).1
  have hbyte := byte5_of_decode hd
  rw [hbody]
  intro hp
  have hseq : int32OfBytes ((msg.drop 4).take 4) = 0 := (prefix_replyBody hp).2
  have hzero : (msg.drop 4).take 4 = [0, 0, 0, 0] := by
    have h4 : ((msg.drop 4).take 4).length = 4 := by rw [List.length_take, List.length_drop]; omega
    rw [← int32Bytes_int32OfBytes h4, hseq]
    decide
  have h5 : msg.getD 5 0 = 0 := by
    have h1 : ((msg.drop 4).take 4).getD 1 0 = 0 := by rw [hzero]; rfl
    simpa [List.getElem?_take, List.getElem?_drop] using h1
  rw [h5] at hbyte
  cases r <;> exact absurd hbyte (by decide)

theorem forall₂_iff_nil {α β : Type} {P Q : α → β → Prop} (hne : ∀ a b, Q a b → ¬ P a b) {as : List α}
    {bs : List β} (h : List.Forall₂ Q as bs) : List.Forall₂ P as bs ↔ as = [] := by
  cases h with
  | nil => simp
  | cons hq _ => exact ⟨fun hp => by cases hp with | cons hp _ => exact absurd hp (hne _ _ hq), nofun⟩

/-- No reply is correlated with its request, whichever way the request is read: only runs in which
nothing is answered have the property. -/
theorem replies_correlated_iff {s : Store} {msgs : List Bytes} {p : Store × ClientSession}
    (h : processAll (s, {}) msgs = .ok p) :
    (Correlated readFields msgs p.2.sent ↔ answeredRequests msgs = []) ∧
      (Correlated layoutFields msgs p.2.sent ↔ answeredRequests msgs = []) := by
  obtain ⟨sent, hsent, hall⟩ := processAll_replies h
  rw [List.nil_append] at hsent
  rw [hsent]
  exact ⟨forall₂_iff_nil (fun _ _ => readFields_ne) hall, forall₂_iff_nil (fun _ _ => layoutFields_ne) hall⟩

/-- A heartbeat with number 7, in the byte order `process` reads. -/
def heartbeatMsg : Bytes := [0, 0, 0, 0, 3, 232, 0, 0, 0, 7, 0, 0, 0, 0, 0, 0, 0]

theorem processAll_heartbeatMsg :
    processAll (Store.oneUserLoaded, {}) [heartbeatMsg] =
      .ok (Store.oneUserLoaded, { seq := 7, sent := [Request.heartbeat.reply 7 []] }) := rfl

theorem replies_correlated_iff_heartbeat :
    ∃ p, processAll (Store.oneUserLoaded, {}) [heartbeatMsg] = .ok p ∧
      (Correlated readFields [heartbeatMsg] p.2.sent ↔ answeredRequests [heartbeatMsg] = []) :=
  ⟨_, processAll_heartbeatMsg, (replies_correlated_iff processAll_heartbeatMsg).1⟩

/-- The reply starts with 7 and 0, not with 1000 and 7. -/
theorem heartbeat_not_correlated :
    ∃ p, processAll (Store.oneUserLoaded, {}) [heartbeatMsg] = .ok p ∧
      readFields heartbeatMsg = (1000, 7) ∧
      p.2.sent.map Reply.body = [[7, 0, 0, 0, 0, 0, 0, 0, 0]] ∧
      ¬ Correlated readFields [heartbeatMsg] p.2.sent := by
  refine ⟨_, processAll_heartbeatMsg, by decide, by decide, ?_⟩
  have hreq : requestOf heartbeatMsg = some (.heartbeat, 7) := by decide
  have hone : answeredRequests [heartbeatMsg] = [heartbeatMsg] := by decide
  rw [Correlated, hone]
  intro h
  cases h with
  | cons h _ => exact readFields_ne ⟨.heartbeat, 7, [], hreq, rfl⟩ h

end IMServer
