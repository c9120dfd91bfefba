import IMServer.Login

/-!
# Which requests are answered

A handler that returns has sent one reply. It does not return on a document the parser chokes on,
on one that is neither an object nor `null`, on members it converts without having checked them,
and on a login that succeeds, whose reply is too long for the writer.
-/

namespace IMServer
open Json

inductive Request
  | heartbeat
  | register
  | login
deriving DecidableEq

def Request.cmd : Request → Int32
  | heartbeat => msgTypeHeartbeat
  | register => msgTypeRegister
  | login => msgTypeLogin

/-- The reply to a request with sequence number `seq`; that to a heartbeat has no text. -/
def Request.reply (seq : Int32) (res : Bytes) : Request → Reply
  | heartbeat => ⟨replyBody seq [], sizeBytes 9 ++ replyBody seq []⟩
  | _ => ⟨replyBody seq res, frame (replyBody seq res)⟩

/-- The text that the handler of a request makes of its data, over `s`. -/
def Request.Says (s : Store) (data res : Bytes) : Request → Prop
  | heartbeat => res = []
  | register => ∃ s', registerResult s data = .ok (res, s')
  | login => ∃ r, loginResult s data = .ok r ∧ res = r.text

def Answerable (s : Store) (data : Bytes) : Request → Prop
  | .heartbeat => True
  | .register => ∃ root, Json.parse data = .ok root ∧
      ∀ v, root = some v → v.isObject = true ∧ RegisterTypes v
  | .login => ∃ root, Json.parse data = .ok root ∧
      ∀ v, root = some v → v.isObject = true ∧ LoginTypes v ∧
        ∀ account password, loginRequest v = .ok (some (account, password)) →
          storedPassword s.users account ≠ password

theorem registerResult_returns (s : Store) (data : Bytes) :
    (registerResult s data).Returns ↔ Answerable s data .register := by
  rw [registerResult, Answerable]
  cases Json.parse data with
  | error e => simp
  | ok root =>
    cases root with
    | none => simp
    | some v =>
      rw [Except.ok_bind]
      refine (Except.returns_bind (P := True) fun request => iff_true_intro ?_).trans ?_
      · rcases request with _ | ⟨userName, nickName, passWord⟩
        · exact Except.returns_pure _
        · simp only
          split <;> exact Except.returns_pure _
      · simp [registerRequest_returns]

theorem loginResult_returns (s : Store) (data : Bytes) :
    (∃ r, loginResult s data = .ok r ∧ ∀ user, r ≠ .success user) ↔ Answerable s data .login := by
  rw [loginResult, Answerable]
  cases Json.parse data with
  | error e => simp
  | ok root =>
    cases root with
    | none => simp [pure, Except.pure]
    | some v =>
      have hret := loginRequest_returns v
      rw [Except.ok_bind]
      simp only [Except.ok.injEq, Option.some.injEq, exists_eq_left', forall_eq']
      rw [← and_assoc, ← hret]
      cases hreq : loginRequest v with
      | error e => simp
      | ok request =>
        rcases request with _ | ⟨account, password⟩
        · simp [pure, Except.pure]
        · simp only [Except.ok_bind, findUser_eq, Except.returns_ok, true_and, Except.ok.injEq,
            Option.some.injEq, Prod.mk.injEq, and_imp, passWord_getD]
          rw [← storedPassword]
          constructor
          · rintro ⟨r, hr, hshort⟩ _ _ rfl rfl heq
            rw [if_neg (not_not.2 heq)] at hr
            cases hr
            exact hshort _ rfl
          · intro h
            rw [if_pos (h account password rfl rfl)]
            refine ⟨.noPassword, rfl, fun user huser => ?_⟩
            cases huser

/-! ### One reply -/

namespace ClientSession
variable {s s' : Store} {c c' : ClientSession} {data res : Bytes}

theorem answer_short (h : res.length < 128) (cmd : Int32) :
    c.answer cmd res = .ok (c.send (replyBody c.seq res)) := by
  rw [answer, packetBody_short h]
  rfl

theorem answer_long (h : 128 ≤ res.length) (cmd : Int32) : c.answer cmd res = .error .diverges := by
  rw [answer, packetBody_long h]
  rfl

theorem send_replyBody (h : res.length < 128) :
    c.send (replyBody c.seq res) =
      { c with sent := c.sent ++ [⟨replyBody c.seq res, frame (replyBody c.seq res)⟩] } := by
  rw [send, framed_eq_frame (by rw [length_replyBody]; omega)]

theorem onHeartbeatResponse_eq (c : ClientSession) :
    c.onHeartbeatResponse = .ok { c with sent := c.sent ++ [Request.heartbeat.reply c.seq []] } := by
  rw [onHeartbeatResponse, packetBody_short (by decide), Except.ok_bind, length_replyBody]
  simp only [BinaryWriter.getMsg, BinaryWriter.writeData_empty_msg]
  rfl

theorem dispatch_cmd (s : Store) (c : ClientSession) (r : Request) (data : Bytes) :
    dispatch s c r.cmd data =
      match r with
      | .heartbeat => do return (s, ← c.onHeartbeatResponse)
      | .register => c.onRegisterResponse s data
      | .login => do return (s, ← c.onLoginResponse s data) := by
  cases r <;> rfl

theorem dispatch_reply {r : Request} (h : dispatch s c r.cmd data = .ok (s', c')) :
    ∃ res : Bytes, r.Says s data res ∧ res.length < 128 ∧ c' = { c with sent := c.sent ++ [r.reply c.seq res] } := by
  rw [dispatch_cmd] at h
  cases r with
  | heartbeat =>
    simp only [onHeartbeatResponse_eq, Except.ok_bind] at h
    cases h
    exact ⟨[], rfl, by decide, rfl⟩
  | register =>
    obtain ⟨⟨res, s₁⟩, hres, h⟩ := Except.bind_eq_ok.1 h
    have hshort := registerResult_short hres
    simp only [answer_short hshort, Except.ok_bind] at h
    cases h
    exact ⟨res, ⟨_, hres⟩, hshort, send_replyBody hshort⟩
  | login =>
    obtain ⟨c₁, hc, h⟩ := Except.bind_eq_ok.1 h
    obtain ⟨r, hr, hc⟩ := Except.bind_eq_ok.1 hc
    cases h
    by_cases hshort : r.text.length < 128
    · rw [answer_short hshort] at hc
      cases hc
      exact ⟨r.text, ⟨r, hr, rfl⟩, hshort, send_replyBody hshort⟩
    · rw [answer_long (by omega)] at hc
      cases hc

/-- The handler ends normally and has called `conn->send` once. -/
def Answered (s : Store) (c : ClientSession) (data : Bytes) (r : Request) : Prop :=
  ∃ s' c' reply, dispatch s c r.cmd data = .ok (s', c') ∧ c'.sent = c.sent ++ [reply]

theorem answered_iff_returns (s : Store) (c : ClientSession) (data : Bytes) (r : Request) :
    Answered s c data r ↔ (dispatch s c r.cmd data).Returns := by
  constructor
  · rintro ⟨s', c', -, h, -⟩
    exact ⟨_, h⟩
  · rintro ⟨⟨s', c'⟩, h⟩
    obtain ⟨res, -, -, rfl⟩ := dispatch_reply h
    exact ⟨s', _, _, h, rfl⟩

theorem answered_iff (s : Store) (c : ClientSession) (data : Bytes) (r : Request) :
    Answered s c data r ↔ Answerable s data r := by
  rw [answered_iff_returns, dispatch_cmd]
  cases r with
  | heartbeat => simp [onHeartbeatResponse_eq, Answerable]
  | register =>
    rw [← registerResult_returns]
    simp only [onRegisterResponse]
    constructor
    · rintro ⟨_, h⟩
      obtain ⟨p, hp, -⟩ := Except.bind_eq_ok.1 h
      exact ⟨p, hp⟩
    · rintro ⟨⟨res, s'⟩, h⟩
      rw [h, Except.ok_bind]
      simp only [answer_short (registerResult_short h), Except.ok_bind]
      exact Except.returns_pure _
  | login =>
    rw [← loginResult_returns]
    simp only [onLoginResponse]
    constructor
    · rintro ⟨_, h⟩
      obtain ⟨c', hc, -⟩ := Except.bind_eq_ok.1 h
      obtain ⟨r, hr, hc⟩ := Except.bind_eq_ok.1 hc
      refine ⟨r, hr, ?_⟩
      rintro user rfl
      rw [answer_long (length_text_success user)] at hc
      cases hc
    · rintro ⟨r, hr, hshort⟩
      rw [hr, Except.ok_bind, answer_short (length_text_lt hshort), Except.ok_bind]
      exact Except.returns_pure _

/-- A registration whose document is an array fails the assertion of `operator[]`. -/
theorem register_array_not_answered :
    Store.Runs Store.Room (Store.start Store.oneUser 0) Store.oneUserLoaded ∧
      Json.parse [91, 93] = .ok (some (.array [])) ∧
      dispatch Store.oneUserLoaded {} Request.register.cmd [91, 93] = .error .assertion ∧
      ¬ Answered Store.oneUserLoaded {} [91, 93] .register := by
  have hdispatch : dispatch Store.oneUserLoaded {} Request.register.cmd [91, 93] = .error .assertion := rfl
  refine ⟨Store.oneUserLoaded_runs _, rfl, hdispatch, ?_⟩
  rw [answered_iff_returns, hdispatch]
  exact Except.not_returns_error _

end ClientSession

end IMServer
