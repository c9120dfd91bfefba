import IMServer.Connections
import IMServer.RequestFormats
import IMServer.ReplyStream

/-!
# Sessions do not interfere

What goes out on a connection depends on what came in on it and on the user cache, whatever the other
connections do, as long as nobody is registered. Connections share the store and nothing else: the
buffer and the sequence number are their own, and without `addUser` the store stays as it is.
-/

namespace IMServer
open Json

/-- `process` calls `addUser` for this message. -/
def AsksToRegister (msg : Bytes) : Prop :=
  ∃ seq data userName nickName passWord, decode msg = .ok (.packet msgTypeRegister seq data) ∧
    CallsAddUser data userName nickName passWord

/-- The messages that `onRead` hands to `process` when `chunk` has arrived. -/
def TcpConnection.handed (conn : TcpConnection) (chunk : Bytes) : List Bytes :=
  match receive (fun msgs msg => .ok (msgs ++ [msg], true)) ([], conn.inputBuffer) chunk with
  | .ok (msgs, _) => msgs
  | .error _ => []

def Instance.Quiet (s : Instance) : Event → Prop
  | .message i chunk => ∀ conn, s.conns[i]? = some conn → ∀ msg ∈ conn.handed chunk, ¬ AsksToRegister msg
  | _ => True

def inputOf (i : Nat) (es : List Event) : Bytes :=
  es.flatMap fun
    | .message j chunk => if j = i then chunk else []
    | _ => []

def TcpConnection.output (conn : TcpConnection) : Bytes := conn.sent.flatMap Reply.out

/-! ### One message -/

/-- What `process` makes of a message over the cache alone. -/
def replyTo (cachedUsers : List User) (c : ClientSession) (msg : Bytes) : Except Fault ClientSession :=
  (ClientSession.process ({ users := { cachedUsers := cachedUsers } }, c) msg).map fun p => p.1.2

section
variable {s s' : Store} {c c' : ClientSession} {data res msg : Bytes}

theorem registerResult_quiet (h : registerResult s data = .ok (res, s'))
    (hq : ¬ ∃ u n p, CallsAddUser data u n p) :
    s' = s ∧ ∀ s₁, registerResult s₁ data = .ok (res, s₁) := by
  obtain ⟨root, hroot, h⟩ := Except.bind_eq_ok.1 h
  rcases root with _ | v
  · cases h
    refine ⟨rfl, fun s₁ => ?_⟩
    rw [registerResult, hroot]
    rfl
  obtain ⟨request, hreq, h⟩ := Except.bind_eq_ok.1 h
  rcases request with _ | ⟨u, n, p⟩
  · cases h
    refine ⟨rfl, fun s₁ => ?_⟩
    rw [registerResult, hroot, Except.ok_bind]
    simp only [hreq]
    rfl
  · exact absurd ⟨u, n, p, v, hroot, hreq⟩ hq

theorem loginResult_users {r : LoginResult} (h : loginResult s data = .ok r) (hr : ∀ user, r ≠ .success user)
    (husers : s'.users.cachedUsers = s.users.cachedUsers) : loginResult s' data = .ok r := by
  obtain ⟨root, hroot, h'⟩ := Except.bind_eq_ok.1 h
  rcases root with _ | v
  · cases h'
    rw [loginResult, hroot]
    rfl
  obtain ⟨request, hreq, -⟩ := Except.bind_eq_ok.1 h'
  rcases request with _ | ⟨account, password⟩
  · rw [loginResult_of_refused s hroot hreq] at h
    rw [loginResult_of_refused s' hroot hreq, h]
  · rw [loginResult_of_taken s hroot hreq] at h
    rw [loginResult_of_taken s' hroot hreq, storedPassword, husers, ← storedPassword]
    split at h
    · next hne => rw [if_pos hne, h]
    · cases h
      exact absurd rfl (hr _)

/-- A message that registers nobody leaves the store alone, and is answered from the cache. -/
theorem dispatch_quiet {cmd : Int32} (h : ClientSession.dispatch s c cmd data = .ok (s', c'))
    (hq : cmd = msgTypeRegister → ¬ ∃ u n p, CallsAddUser data u n p) :
    s' = s ∧ ∀ s₁ : Store, s₁.users.cachedUsers = s.users.cachedUsers →
      ClientSession.dispatch s₁ c cmd data = .ok (s₁, c') := by
  rcases hr : Request.ofCmd cmd with _ | r
  · rw [dispatch_none hr] at h
    cases h
    exact ⟨rfl, fun s₁ _ => dispatch_none hr s₁ c data⟩
  obtain rfl := cmd_of_ofCmd hr
  rw [ClientSession.dispatch_cmd] at h
  cases r with
  | heartbeat =>
    obtain ⟨c₁, hc, h⟩ := Except.bind_eq_ok.1 h
    cases h
    refine ⟨rfl, fun s₁ _ => ?_⟩
    show (c.onHeartbeatResponse >>= fun c => pure (s₁, c)) = _
    rw [hc]
    rfl
  | register =>
    obtain ⟨⟨res, s₂⟩, hres, h⟩ := Except.bind_eq_ok.1 h
    obtain ⟨c₁, hc, h⟩ := Except.bind_eq_ok.1 h
    cases h
    obtain ⟨rfl, hany⟩ := registerResult_quiet hres (hq rfl)
    refine ⟨rfl, fun s₁ _ => ?_⟩
    show c.onRegisterResponse s₁ data = _
    rw [ClientSession.onRegisterResponse, hany, Except.ok_bind]
    simp only [hc]
    rfl
  | login =>
    obtain ⟨c₁, hc, h⟩ := Except.bind_eq_ok.1 h
    cases h
    refine ⟨rfl, fun s₁ husers => ?_⟩
    obtain ⟨r, hr, hanswer⟩ := Except.bind_eq_ok.1 hc
    -- a success is never sent
    have hshort : ∀ user, r ≠ .success user := by
      rintro user rfl
      rw [ClientSession.answer_long (length_text_success user)] at hanswer
      cases hanswer
    show (c.onLoginResponse s₁ data >>= fun c => pure (s₁, c)) = _
    rw [ClientSession.onLoginResponse, loginResult_users hr hshort husers, Except.ok_bind, hanswer]
    rfl

theorem process_quiet {p : Store × ClientSession} {ok : Bool}
    (h : ClientSession.process (s, c) msg = .ok (p, ok)) (hq : ¬ AsksToRegister msg) :
    p.1 = s ∧ replyTo s.users.cachedUsers c msg = .ok p.2 := by
  unfold replyTo
  obtain ⟨d, hd, h⟩ := Except.bind_eq_ok.1 h
  rcases d with seq | ⟨cmd, seq, data⟩
  · rcases seq with _ | seq
    · cases h
      refine ⟨rfl, ?_⟩
      rw [ClientSession.process, hd]
      rfl
    · cases h
      refine ⟨rfl, ?_⟩
      rw [ClientSession.process, hd]
      rfl
  · obtain ⟨⟨s₁, c₁⟩, hdispatch, h⟩ := Except.bind_eq_ok.1 h
    cases h
    have hquiet : cmd = msgTypeRegister → ¬ ∃ u n p, CallsAddUser data u n p := by
      rintro rfl ⟨u, n, p, hcalls⟩
      exact hq ⟨seq, data, u, n, p, hd, hcalls⟩
    obtain ⟨rfl, hany⟩ := dispatch_quiet hdispatch hquiet
    refine ⟨rfl, ?_⟩
    rw [ClientSession.process, hd, Except.ok_bind]
    simp only [hany { users := { cachedUsers := s₁.users.cachedUsers } } rfl]
    rfl

end

/-! ### One chunk -/

section
variable {store store' : Store} {conn : TcpConnection} {c c' : ClientSession} {buf : Buffer} {chunk : Bytes}

theorem TcpConnection.handed_eq {σ : Type} {process : σ → Bytes → Except Fault (σ × Bool)} {s : σ} {p : σ × Buffer}
    (h : receive process (s, conn.inputBuffer) chunk = .ok p) :
    conn.handed chunk = wire.frames (conn.inputBuffer.content ++ chunk) := by
  have hfeed := receive_refines process s conn.inputBuffer chunk
  rw [h] at hfeed
  have hsnoc := receive_refines (fun msgs msg => .ok (msgs ++ [msg], true)) [] conn.inputBuffer chunk
  obtain ⟨⟨msgs, buf⟩, hrec, heq⟩ := Except.map_eq_ok.1 (hsnoc.trans (Deframer.deliver_snoc hfeed.symm []))
  rw [TcpConnection.handed, hrec]
  exact congrArg Prod.fst heq

theorem receive_quiet
    (h : receive ClientSession.process ((store, c), conn.inputBuffer) chunk = .ok ((store', c'), buf))
    (hq : ∀ msg ∈ conn.handed chunk, ¬ AsksToRegister msg) :
    store' = store ∧
      wire.feed (replyTo store.users.cachedUsers) (c, conn.inputBuffer.content) chunk = .ok (c', buf.content) := by
  rw [TcpConnection.handed_eq h] at hq
  have hfeed := receive_refines ClientSession.process (store, c) conn.inputBuffer chunk
  rw [h] at hfeed
  obtain ⟨c₁, hc₁, hst, rfl⟩ := Deframer.deliver_simulates (g := replyTo store.users.cachedUsers)
    (R := fun p c => p.1 = store ∧ p.2 = c) (t := c) (fun msg hmsg p c p' hp hstep => by
      obtain ⟨rfl, rfl⟩ := hp
      obtain ⟨⟨p₁, ok⟩, hok, rfl⟩ := Except.map_eq_ok.1 hstep
      obtain ⟨hstore, hreply⟩ := process_quiet hok (hq msg hmsg)
      exact ⟨_, hreply, hstore, rfl⟩) ⟨rfl, rfl⟩ hfeed.symm
  exact ⟨hst, hc₁⟩

end

/-! ### Runs without a registration -/

/-- The connection has got what the bytes so far make of the cache, and its session goes on from there. -/
structure TcpConnection.Answered (cachedUsers : List User) (sessions : Heap ClientSession) (input : Bytes)
    (conn : TcpConnection) : Prop where
  idle : conn.state = .connecting → input = []
  bound : conn.state = .connected → ∃ a, conn.messageCallback = some a
  below : ∀ a, conn.messageCallback = some a → a < sessions.next
  replies : ∃ c, wire.deliver (replyTo cachedUsers) {} input = .ok (c, conn.inputBuffer.content) ∧ c.sent = conn.sent ∧
    ∀ a session, conn.messageCallback = some a → sessions.get a = some session → session.seq = c.seq

/-- Nothing has happened to its session. -/
theorem TcpConnection.Answered.frame {cachedUsers : List User} {sessions sessions' : Heap ClientSession} {input : Bytes}
    {conn : TcpConnection} (h : conn.Answered cachedUsers sessions input) (hnext : sessions.next ≤ sessions'.next)
    (hget : ∀ a session, conn.messageCallback = some a → sessions'.get a = some session →
      sessions.get a = some session) : conn.Answered cachedUsers sessions' input := by
  obtain ⟨hidle, hbound, hbelow, c, hc, hsent, hseq⟩ := h
  refine ⟨hidle, hbound, fun a ha => Nat.lt_of_lt_of_le (hbelow a ha) hnext, c, hc, hsent, ?_⟩
  intro a session ha hsession
  exact hseq a session ha (hget a session ha hsession)

theorem inputOf_snoc (i : Nat) (es : List Event) (e : Event) :
    inputOf i (es ++ [e]) = inputOf i es ++ inputOf i [e] := List.flatMap_append

namespace Instance
variable {store : Store} {es : List Event} {s s' : Instance} {e : Event} {i : Nat} {conn : TcpConnection}

structure Served (store : Store) (es : List Event) (s : Instance) : Prop where
  kept : s.store = store
  unborn : ∀ i, s.conns.length ≤ i → inputOf i es = []
  apart : ∀ (i j : Nat) (conn conn' : TcpConnection) (a : Nat),
    s.conns[i]? = some conn → s.conns[j]? = some conn' →
    conn.messageCallback = some a → conn'.messageCallback = some a → i = j
  conns : ∀ (i : Nat) (conn : TcpConnection), s.conns[i]? = some conn →
    conn.Answered store.users.cachedUsers s.sessions (inputOf i es)

namespace Served

/-- A step of one connection, to whose session alone something happens. -/
theorem set (h : Served store es s) (hi : s.conns[i]? = some conn) {conn' : TcpConnection}
    (hstore : s'.store = s.store) (hconns : s'.conns = s.conns.set i conn')
    (hinput : ∀ j, j ≠ i → inputOf j [e] = [])
    (hcallback : conn'.messageCallback = conn.messageCallback ∨ conn'.messageCallback = some s.sessions.next)
    (hnext : s.sessions.next ≤ s'.sessions.next)
    (hsessions : ∀ a session, a < s.sessions.next → conn.messageCallback ≠ some a →
      s'.sessions.get a = some session → s.sessions.get a = some session)
    (hanswered : conn'.Answered store.users.cachedUsers s'.sessions (inputOf i (es ++ [e]))) :
    Served store (es ++ [e]) s' := by
  have hlt := (List.getElem?_eq_some_iff.1 hi).1
  -- an address of the connection that moved is nobody else's
  have hother : ∀ {j : Nat} {conn₁ : TcpConnection} {a : Nat}, j ≠ i → s.conns[j]? = some conn₁ →
      conn₁.messageCallback = some a → conn'.messageCallback ≠ some a := by
    intro j conn₁ a hne hj ha ha'
    rcases hcallback with hc | hc
    · exact hne (h.apart j i conn₁ conn a hj hi ha (hc ▸ ha'))
    · have := (h.conns j conn₁ hj).below a ha
      cases hc.symm.trans ha'
      omega
  refine ⟨hstore.trans h.kept, ?_, ?_, ?_⟩
  · intro j hj
    rw [hconns, List.length_set] at hj
    rw [inputOf_snoc, h.unborn j hj, hinput j (by omega)]
    rfl
  · intro j k conn₁ conn₂ a hj hk ha ha'
    rw [hconns, getElem?_set_of hi] at hj hk
    split at hj <;> split at hk
    · next hji hki => rw [hji, hki]
    · next hki =>
      cases hj
      exact absurd ha (hother hki hk ha')
    · next hji _ =>
      cases hk
      exact absurd ha' (hother hji hj ha)
    · exact h.apart j k conn₁ conn₂ a hj hk ha ha'
  · intro j conn₁ hj
    rw [hconns, getElem?_set_of hi] at hj
    split at hj
    · next hji =>
      cases hj
      rw [hji]
      exact hanswered
    · next hji =>
      rw [inputOf_snoc, hinput j hji, List.append_nil]
      refine (h.conns j conn₁ hj).frame hnext fun a session ha hsession => ?_
      refine hsessions a session ((h.conns j conn₁ hj).below a ha) (fun hca => ?_) hsession
      exact hji (h.apart j i conn₁ conn a hj hi ha hca)

theorem create (h : Served store es s) {name : Bytes} (hstep : s.step (.create name) = .ok s') :
    Served store (es ++ [.create name]) s' := by
  cases hstep
  have hinput : ∀ i, inputOf i (es ++ [.create name]) = inputOf i es := by
    intro i
    rw [inputOf_snoc]
    exact List.append_nil _
  have hold : ∀ {i : Nat} {conn : TcpConnection} {a : Nat}, (s.conns ++ [{ name := name }])[i]? = some conn →
      conn.messageCallback = some a → s.conns[i]? = some conn := by
    intro i conn a hi ha
    rcases of_getElem?_concat hi with hi | ⟨-, rfl⟩
    · exact hi
    · cases ha
  refine ⟨h.kept, ?_, ?_, ?_⟩
  · intro i hi
    rw [List.length_append] at hi
    rw [hinput, h.unborn i (by omega)]
  · intro i j conn conn' a hi hj ha ha'
    exact h.apart i j conn conn' a (hold hi ha) (hold hj ha') ha ha'
  · intro i conn hi
    rw [hinput]
    rcases of_getElem?_concat hi with hi | ⟨hlen, rfl⟩
    · exact h.conns i conn hi
    · rw [h.unborn i (Nat.le_of_eq hlen.symm)]
      exact ⟨fun _ => rfl, nofun, nofun, {}, Deframer.deliver_wait rfl, rfl, nofun⟩

theorem connect (h : Served store es s) (hi : s.conns[i]? = some conn) (hconn : conn.state = .connecting)
    {uuid : Bytes} (hstep : s.step (.connected i uuid) = .ok s') :
    Served store (es ++ [.connected i uuid]) s' := by
  obtain ⟨s₁, hstep₁, hconns, hstore, hnext, hget⟩ := connected_spec hi uuid
  obtain rfl : s₁ = s' := Except.ok_unique hstep₁ hstep
  have hinput : inputOf i (es ++ [.connected i uuid]) = [] := by
    rw [inputOf_snoc, (h.conns i conn hi).idle hconn]
    rfl
  refine h.set hi hstore hconns (fun _ _ => rfl) (.inr rfl) (by omega) ?_ ?_
  · intro a session hlt _ ha
    rcases hget a session ha with ⟨rfl, -⟩ | ha
    · omega
    · exact ha
  · rw [hinput]
    obtain ⟨c, hc, hsent, -⟩ := (h.conns i conn hi).replies
    rw [(h.conns i conn hi).idle hconn, Deframer.deliver_wait rfl] at hc
    -- nothing had come in, so the new session is where the old one would have been
    obtain ⟨rfl, hbuf⟩ := Prod.mk.inj (Except.ok.inj hc)
    refine ⟨nofun, fun _ => ⟨_, rfl⟩, ?_, {}, ?_, hsent, ?_⟩
    · intro a ha
      cases ha
      omega
    · rw [Deframer.deliver_wait rfl, hbuf]
    · intro a session ha hsession
      cases ha
      rcases hget _ _ hsession with ⟨-, rfl⟩ | hsession
      · rfl
      · exact absurd (Heap.lt_next hsession) (Nat.lt_irrefl _)

theorem disconnect (h : Served store es s) (hi : s.conns[i]? = some conn)
    (hstep : s.step (.disconnected i) = .ok s') : Served store (es ++ [.disconnected i]) s' := by
  obtain ⟨hconns, hstore, hnext, hget⟩ := disconnected_spec hi hstep
  refine h.set hi hstore hconns (fun _ _ => rfl) (.inl rfl) (by omega) (fun a session _ _ => hget a session) ?_
  have hinput : inputOf i (es ++ [.disconnected i]) = inputOf i es := by
    rw [inputOf_snoc]
    exact List.append_nil _
  rw [hinput]
  obtain ⟨-, -, hbelow, hreplies⟩ := (h.conns i conn hi).frame (Nat.le_of_eq hnext.symm) fun a c _ => hget a c
  exact ⟨nofun, nofun, hbelow, hreplies⟩

theorem message (h : Served store es s) (hi : s.conns[i]? = some conn) (hconn : conn.state = .connected)
    {chunk : Bytes} (hq : ∀ msg ∈ conn.handed chunk, ¬ AsksToRegister msg)
    (hstep : s.step (.message i chunk) = .ok s') : Served store (es ++ [.message i chunk]) s' := by
  obtain ⟨-, hbound, hbelow, c, hc, hsent, hseq⟩ := h.conns i conn hi
  obtain ⟨a, ha⟩ := hbound hconn
  rcases hsession : s.sessions.get a with _ | session
  · simp only [step, hi, handleRead, ha, hsession] at hstep
    cases hstep
  rw [step_message hi ha hsession] at hstep
  obtain ⟨⟨⟨store', c'⟩, buf⟩, hrec, hs'⟩ := Except.map_eq_ok.1 hstep
  obtain ⟨rfl, hfeed⟩ := receive_quiet hrec hq
  have hget := Heap.get_set (hbelow a ha) c'
  have hinput : inputOf i (es ++ [.message i chunk]) = inputOf i es ++ chunk := by
    rw [inputOf_snoc]
    simp [inputOf]
  refine h.set hi (by rw [← hs']) (congrArg Instance.conns hs'.symm) ?_ (.inl rfl)
    (by rw [← hs', Heap.next_set]) ?_ ?_
  · intro j hj
    simp [inputOf, Ne.symm hj]
  · intro b session' _ hb hsession'
    have hne : b ≠ a := fun he => hb (by rw [he, ha])
    rw [← hs', hget, if_neg hne] at hsession'
    exact hsession'
  · rw [hinput, ← hs']
    refine ⟨fun hstate => ?_, hbound, fun b hb => ?_, c', ?_, rfl, ?_⟩
    · cases hconn.symm.trans hstate
    · rw [Heap.next_set]
      exact hbelow b hb
    · -- the session is where the replies so far have left it
      have heq : c = { session with sent := conn.sent } := by
        rw [ClientSession.mk.injEq]
        exact ⟨(hseq a session ha hsession).symm, hsent⟩
      rw [Deframer.deliver_append, hc, Except.ok_bind, heq, ← h.kept]
      exact hfeed
    · intro b session' hb hsession'
      cases ha.symm.trans hb
      rw [hget, if_pos rfl] at hsession'
      rw [Option.some.inj hsession']

theorem start (store : Store) : Served store [] { store := store } := by
  refine ⟨rfl, fun _ _ => rfl, ?_, ?_⟩
  · intro i j conn conn' a hi
    cases hi
  · intro i conn hi
    cases hi

theorem step (h : Served store es s) (hok : s.Callbacks e) (hq : s.Quiet e) (hstep : s.step e = .ok s') :
    Served store (es ++ [e]) s' := by
  rcases e with name | ⟨i, uuid⟩ | i | ⟨i, chunk⟩
  · exact h.create hstep
  · obtain ⟨conn, hi, hconn⟩ := hok
    exact h.connect hi hconn hstep
  · obtain ⟨conn, hi, -⟩ := hok
    exact h.disconnect hi hstep
  · obtain ⟨conn, hi, hconn⟩ := hok
    exact h.message hi hconn (hq conn hi) hstep

end Served

/-- The steps of a run in which nobody is registered. -/
def AllowedQuiet (_ : List Event) (s : Instance) (e : Event) : Prop := s.Callbacks e ∧ s.Quiet e

theorem Runs.served (h : Runs AllowedQuiet store es s) : Served store es s := by
  induction h with
  | start => exact .start store
  | step _ hok hstep ih => exact ih.step hok.1 hok.2 hstep

/-- Two runs without a registration that start with the same cache and bring the same bytes on a
connection, in whatever chunks and whatever else happens, have sent the same bytes on it. -/
theorem sessions_do_not_interfere {store₁ store₂ : Store} {es₁ es₂ : List Event} {s₁ s₂ : Instance} {i j : Nat}
    {conn₁ conn₂ : TcpConnection} (h₁ : Runs AllowedQuiet store₁ es₁ s₁) (h₂ : Runs AllowedQuiet store₂ es₂ s₂)
    (hcache : store₁.users.cachedUsers = store₂.users.cachedUsers) (hi : s₁.conns[i]? = some conn₁)
    (hj : s₂.conns[j]? = some conn₂) (hinput : inputOf i es₁ = inputOf j es₂) : conn₁.output = conn₂.output := by
  obtain ⟨c₁, hc₁, hsent₁, -⟩ := (h₁.served.conns i conn₁ hi).replies
  obtain ⟨c₂, hc₂, hsent₂, -⟩ := (h₂.served.conns j conn₂ hj).replies
  rw [hcache, hinput, hc₂] at hc₁
  obtain ⟨rfl, -⟩ := Prod.mk.inj (Except.ok.inj hc₁)
  rw [TcpConnection.output, TcpConnection.output, ← hsent₁, ← hsent₂]

/-- A chunk after which a message is still incomplete. -/
theorem Runs.message_wait (h : Runs AllowedQuiet store es s) (hi : s.conns[i]? = some conn)
    (hconn : conn.state = .connected) {a : Nat} (ha : conn.messageCallback = some a) {c : ClientSession}
    (hc : s.sessions.get a = some c) (chunk : Bytes)
    (hwait : wire.pull (conn.inputBuffer.content ++ chunk) = .wait) :
    ∃ buf : Buffer, buf.content = conn.inputBuffer.content ++ chunk ∧
      Runs AllowedQuiet store (es ++ [.message i chunk]) { s with
        sessions := s.sessions.set a { c with sent := conn.sent }
        conns := s.conns.set i { conn with inputBuffer := buf } } := by
  obtain ⟨⟨p, buf⟩, hrec, heq⟩ := Except.map_eq_ok.1 ((receive_refines ClientSession.process
    (s.store, { c with sent := conn.sent }) conn.inputBuffer chunk).trans (Deframer.deliver_wait hwait))
  obtain ⟨rfl, hbuf⟩ := Prod.mk.inj heq
  refine ⟨buf, hbuf, h.step ⟨⟨conn, hi, hconn⟩, ?_⟩ ((step_message hi ha hc chunk).trans (congrArg _ hrec))⟩
  intro conn' hi' msg hmsg
  cases hi.symm.trans hi'
  rw [TcpConnection.handed_eq hrec, Deframer.frames_of_wait hwait] at hmsg
  cases hmsg

/-- A chunk that completes a heartbeat. -/
theorem Runs.message_heartbeat (h : Runs AllowedQuiet store es s) (hi : s.conns[i]? = some conn)
    (hconn : conn.state = .connected) {a : Nat} (ha : conn.messageCallback = some a) {c : ClientSession}
    (hc : s.sessions.get a = some c) (chunk : Bytes)
    (hframe : conn.inputBuffer.content ++ chunk = frame heartbeatMsg) :
    ∃ s' conn', Runs AllowedQuiet store (es ++ [.message i chunk]) s' ∧ s'.conns[i]? = some conn' ∧
      conn'.sent = conn.sent ++ [Request.heartbeat.reply 7 []] := by
  have hpull : wire.pull (conn.inputBuffer.content ++ chunk) = .frame heartbeatMsg [] := by
    rw [hframe, ← List.append_nil (frame heartbeatMsg)]
    exact wire_decodes heartbeatMsg (by decide) []
  have hdecode : decode heartbeatMsg = .ok (.packet msgTypeHeartbeat 7 []) := rfl
  have hprocess : ClientSession.process (s.store, { c with sent := conn.sent }) heartbeatMsg =
      .ok ((s.store, { seq := 7, sent := conn.sent ++ [Request.heartbeat.reply 7 []] }), true) := rfl
  have hdeliver := receive_refines ClientSession.process (s.store, { c with sent := conn.sent })
    conn.inputBuffer chunk
  rw [Deframer.feed, Deframer.deliver_frame hpull, hprocess] at hdeliver
  obtain ⟨⟨p, buf⟩, hrec, heq⟩ := Except.map_eq_ok.1 (hdeliver.trans (Deframer.deliver_wait rfl))
  obtain ⟨rfl, -⟩ := Prod.mk.inj heq
  refine ⟨_, _, h.step ⟨⟨conn, hi, hconn⟩, ?_⟩ ((step_message hi ha hc chunk).trans (congrArg _ hrec)),
    (getElem?_set_of hi _ i).trans (if_pos rfl), ?_⟩
  · intro conn' hi' msg hmsg
    cases hi.symm.trans hi'
    rw [TcpConnection.handed_eq hrec, Deframer.frames_of_frame hpull, Deframer.frames_of_wait rfl,
      List.mem_singleton] at hmsg
    rintro ⟨seq, data, u, n, p, hregister, -⟩
    rw [hmsg, hdecode] at hregister
    cases hregister
  · rfl

/-- A run in which another connection is up, has sent a byte, and the database has a row. -/
theorem second_runs : ∃ s, Runs AllowedQuiet { mysql := Store.oneUser } [.create (ascii "#1"),
      .connected 0 (ascii "u"), .create (ascii "#2"), .connected 1 (ascii "v"), .message 0 [1]] s ∧
    s.conns[1]? = some { name := ascii "v", state := .connected, messageCallback := some 1 } ∧
    s.sessions.get 1 = some {} := by
  have hstart : Runs AllowedQuiet { mysql := Store.oneUser } [] { store := { mysql := Store.oneUser } } := .start
  have hfirst := (hstart.step (e := .create (ascii "#1")) ⟨trivial, trivial⟩ rfl).step
    (e := .connected 0 (ascii "u")) ⟨⟨_, rfl, rfl⟩, trivial⟩ rfl
  have hsecond := (hfirst.step (e := .create (ascii "#2")) ⟨trivial, trivial⟩ rfl).step
    (e := .connected 1 (ascii "v")) ⟨⟨_, rfl, rfl⟩, trivial⟩ rfl
  obtain ⟨buf, -, hrun⟩ := hsecond.message_wait (i := 0) (a := 0) rfl rfl rfl rfl [1] rfl
  exact ⟨_, hrun, rfl, rfl⟩

/-- A heartbeat in one piece on the only connection, and in two on the second of two. -/
theorem sessions_do_not_interfere_heartbeat : ∃ s₁ s₂ conn₁ conn₂,
    Runs AllowedQuiet {} [.create (ascii "#1"), .connected 0 (ascii "u"), .message 0 (frame heartbeatMsg)] s₁ ∧
    Runs AllowedQuiet { mysql := Store.oneUser } [.create (ascii "#1"), .connected 0 (ascii "u"),
      .create (ascii "#2"), .connected 1 (ascii "v"), .message 0 [1], .message 1 ((frame heartbeatMsg).take 6),
      .message 1 ((frame heartbeatMsg).drop 6)] s₂ ∧
    s₁.conns[0]? = some conn₁ ∧ s₂.conns[1]? = some conn₂ ∧ conn₁.sent = [Request.heartbeat.reply 7 []] ∧
    conn₁.output = conn₂.output := by
  have hstart : Runs AllowedQuiet {} [] { store := {} } := .start
  have hup := (hstart.step (e := .create (ascii "#1")) ⟨trivial, trivial⟩ rfl).step
    (e := .connected 0 (ascii "u")) ⟨⟨_, rfl, rfl⟩, trivial⟩ rfl
  obtain ⟨s₁, conn₁, hrun₁, hi, hsent⟩ :=
    hup.message_heartbeat (i := 0) (a := 0) rfl rfl rfl rfl (frame heartbeatMsg) rfl
  obtain ⟨s, hrun, hconn, hsession⟩ := second_runs
  obtain ⟨buf, hbuf, hhalf⟩ := hrun.message_wait hconn rfl rfl hsession ((frame heartbeatMsg).take 6) rfl
  obtain ⟨s₂, conn₂, hrun₂, hj, -⟩ := hhalf.message_heartbeat
    ((getElem?_set_of hconn _ 1).trans (if_pos rfl)) rfl rfl
    ((Heap.get_set (Heap.lt_next hsession) _ 1).trans (if_pos rfl)) ((frame heartbeatMsg).drop 6)
    (by rw [hbuf]; exact List.take_append_drop 6 _)
  exact ⟨s₁, s₂, conn₁, conn₂, hrun₁, hrun₂, hi, hj, hsent, sessions_do_not_interfere hrun₁ hrun₂ rfl hi hj rfl⟩

end Instance

end IMServer
