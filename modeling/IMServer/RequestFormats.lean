import IMServer.Answers

/-!
# What the handlers make of a request

The formats the handlers document, and how far they keep to them. `onRegisterResponse` refuses a
document whose `password` is a string and takes the nickname from a member called `nicknime`;
`onLoginResponse` checks a member called `stastus`, and never finds an account missing.
-/

namespace IMServer
open Json

/-! ### Registration -/

/-- The handler calls `addUser`, with a user of these names and this password. -/
def CallsAddUser (data userName nickName passWord : Bytes) : Prop :=
  ∃ root, Json.parse data = .ok (some root) ∧ registerRequest root = .ok (some (userName, nickName, passWord))

section
variable {v : Value}

def RegisterStrings (v : Value) (userName nickName passWord : Bytes) : Prop :=
  v.member (ascii "username") = .string userName ∧ v.member (ascii "nickname") = .string nickName ∧
    v.member (ascii "password") = .string passWord

/-- A registration with the three strings calls `addUser` with them; anything else is answered with
`RES_JOSNTYPE_ERROR` and changes nothing. -/
structure RegistersAsRequested (s : Store) (c : ClientSession) (data : Bytes) (v : Value) : Prop where
  strings : ∀ userName nickName passWord, RegisterStrings v userName nickName passWord →
    CallsAddUser data userName nickName passWord
  otherwise : (¬ ∃ userName nickName passWord, RegisterStrings v userName nickName passWord) →
    (¬ ∃ userName nickName passWord, CallsAddUser data userName nickName passWord) ∧
      ∃ msg, c.onRegisterResponse s data =
        .ok (s, c.send (replyBody c.seq (getJsonString resJosntypeError msg)))

theorem registerRequest_refused (h : v.isObject = true)
    (hv : (v.member (ascii "username")).isString = false ∨ (v.member (ascii "nickname")).isString = false ∨
      (v.member (ascii "password")).isString = true) : registerRequest v = .ok none := by
  rw [registerRequest_of_isObject h, if_pos]
  rcases hv with hv | hv | hv <;> simp [hv]

theorem registerRequest_taken (h : v.isObject = true) (hu : (v.member (ascii "username")).isString = true)
    (hn : (v.member (ascii "nickname")).isString = true) (hp : (v.member (ascii "password")).isString = false) :
    registerRequest v ≠ .ok none := by
  rw [registerRequest_of_isObject h, hu, hn, hp]
  intro heq
  obtain ⟨userName, -, heq⟩ := Except.bind_eq_ok.1 heq
  obtain ⟨nickName, -, heq⟩ := Except.bind_eq_ok.1 heq
  obtain ⟨passWord, -, heq⟩ := Except.bind_eq_ok.1 heq
  cases heq

theorem onRegisterResponse_refused (s : Store) (c : ClientSession) {data : Bytes}
    (hroot : Json.parse data = .ok (some v)) (hv : registerRequest v = .ok none) :
    c.onRegisterResponse s data =
      .ok (s, c.send (replyBody c.seq (getJsonString resJosntypeError "json type error"))) := by
  have hres : registerResult s data = .ok (getJsonString resJosntypeError "json type error", s) := by
    rw [registerResult, hroot, Except.ok_bind]
    simp only [hv, Except.ok_bind]
    rfl
  rw [ClientSession.onRegisterResponse, hres, Except.ok_bind]
  simp only [ClientSession.answer_short (registerResult_short hres), Except.ok_bind]
  rfl

theorem not_callsAddUser {data : Bytes} (hroot : Json.parse data = .ok (some v))
    (hv : registerRequest v = .ok none) : ¬ ∃ u n p, CallsAddUser data u n p := by
  rintro ⟨u, n, p, root, hroot', hreq⟩
  cases hroot.symm.trans hroot'
  cases hv.symm.trans hreq

/-- The condition: the two names are not both strings. -/
theorem registersAsRequested_of_not_strings (s : Store) (c : ClientSession) {data : Bytes}
    (hroot : Json.parse data = .ok (some v)) (hobj : v.isObject = true)
    (h : ¬ ((v.member (ascii "username")).isString = true ∧ (v.member (ascii "nickname")).isString = true)) :
    RegistersAsRequested s c data v := by
  have hreq : registerRequest v = .ok none := by
    refine registerRequest_refused hobj ?_
    by_contra hn
    simp only [not_or, Bool.not_eq_false] at hn
    exact h ⟨hn.1, hn.2.1⟩
  refine ⟨fun u n p hs => ?_, fun _ => ⟨not_callsAddUser hroot hreq, _, onRegisterResponse_refused s c hroot hreq⟩⟩
  exact absurd ⟨isString_iff.2 ⟨u, hs.1⟩, isString_iff.2 ⟨n, hs.2.1⟩⟩ h

theorem not_registersAsRequested (s : Store) (c : ClientSession) {data : Bytes}
    (hroot : Json.parse data = .ok (some v)) (hobj : v.isObject = true)
    (hu : (v.member (ascii "username")).isString = true) (hn : (v.member (ascii "nickname")).isString = true) :
    ¬ RegistersAsRequested s c data v := by
  intro h
  by_cases hp : (v.member (ascii "password")).isString = true
  · -- the three strings are refused
    obtain ⟨u, hu⟩ := isString_iff.1 hu
    obtain ⟨n, hn⟩ := isString_iff.1 hn
    obtain ⟨p, hp'⟩ := isString_iff.1 hp
    exact not_callsAddUser hroot (registerRequest_refused hobj (.inr (.inr hp))) ⟨u, n, p, h.strings u n p ⟨hu, hn, hp'⟩⟩
  · -- anything but a string is taken for a password, or throws
    have hno : ¬ ∃ u n p, RegisterStrings v u n p := fun ⟨u, n, p, hs⟩ => hp (isString_iff.2 ⟨p, hs.2.2⟩)
    obtain ⟨hcalls, msg, hanswer⟩ := h.otherwise hno
    obtain ⟨⟨res, s'⟩, hres, -⟩ := Except.bind_eq_ok.1 hanswer
    rw [registerResult, hroot, Except.ok_bind] at hres
    obtain ⟨request, hreq, -⟩ := Except.bind_eq_ok.1 hres
    rcases request with _ | ⟨u, n, p⟩
    · exact registerRequest_taken hobj hu hn (by simpa using hp) hreq
    · exact hcalls ⟨u, n, p, v, hroot, hreq⟩

end

theorem register_as_requested_iff (s : Store) (c : ClientSession) {data : Bytes} {members : List (Bytes × Value)}
    (h : Json.parse data = .ok (some (.object members))) :
    RegistersAsRequested s c data (.object members) ↔
      ¬ (((Value.object members).member (ascii "username")).isString = true ∧
        ((Value.object members).member (ascii "nickname")).isString = true) := by
  constructor
  · intro hreg hs
    exact not_registersAsRequested s c h rfl hs.1 hs.2 hreg
  · exact registersAsRequested_of_not_strings s c h rfl

/-- `{"username":1}` -/
def numberForName : Bytes := [123, 34, 117, 115, 101, 114, 110, 97, 109, 101, 34, 58, 49, 125]

theorem register_as_requested_number :
    Json.parse numberForName = .ok (some (.object [(ascii "username", .int 1)])) ∧
      RegistersAsRequested Store.oneUserLoaded {} numberForName (.object [(ascii "username", .int 1)]) := by
  have h : Json.parse numberForName = .ok (some (.object [(ascii "username", .int 1)])) := rfl
  refine ⟨h, (register_as_requested_iff _ _ h).2 ?_⟩
  intro hs
  exact absurd hs.1 (by decide)

/-- `{"username":"a","nickname":"b","password":"c"}` -/
def threeStrings : Bytes :=
  [123, 34, 117, 115, 101, 114, 110, 97, 109, 101, 34, 58, 34, 97, 34, 44, 34, 110, 105, 99, 107, 110, 97, 109,
    101, 34, 58, 34, 98, 34, 44, 34, 112, 97, 115, 115, 119, 111, 114, 100, 34, 58, 34, 99, 34, 125]

def threeStringsRoot : Value :=
  .object [(ascii "nickname", .string (ascii "b")), (ascii "password", .string (ascii "c")),
    (ascii "username", .string (ascii "a"))]

set_option maxRecDepth 10000 in
theorem parse_threeStrings : Json.parse threeStrings = .ok (some threeStringsRoot) := rfl

theorem register_three_strings_refused :
    Json.parse threeStrings = .ok (some threeStringsRoot) ∧
      ClientSession.onRegisterResponse Store.oneUserLoaded {} threeStrings = .ok (Store.oneUserLoaded,
        ClientSession.send {} (replyBody 0 (getJsonString resJosntypeError "json type error"))) ∧
      ¬ RegistersAsRequested Store.oneUserLoaded {} threeStrings threeStringsRoot := by
  have hreq : registerRequest threeStringsRoot = .ok none := registerRequest_refused rfl (.inr (.inr rfl))
  exact ⟨parse_threeStrings, onRegisterResponse_refused _ _ parse_threeStrings hreq,
    not_registersAsRequested _ _ parse_threeStrings rfl rfl rfl⟩

/-! ### Login -/

/-- What a login is told of an account. -/
structure Profile where
  userId : Int
  userName : Bytes
  nickName : Bytes
  passWord : Bytes

def User.profile (u : User) : Profile := ⟨u.userId.toInt, u.userName, u.nickName, u.passWord⟩

def UserRow.profile (r : UserRow) : Profile := ⟨r.userId, r.username, r.nickname, r.password⟩

/-- An account of this name or id, in the cache or in the table. -/
def Store.Holds (s : Store) (account : Account) (p : Profile) : Prop :=
  (∃ u ∈ s.users.cachedUsers, account.names u = true ∧ u.profile = p) ∨
    ∃ r ∈ s.table, account.namesRow r = true ∧ r.profile = p

def Account.value : Account → Value
  | .name sAccount => .string sAccount
  | .id iAccount => .int iAccount

/-- `{"user" : …, "password" : …, "status" : …}` -/
structure LoginDocument (v : Value) (account : Account) (password : Bytes) : Prop where
  user : v.member (ascii "user") = account.value
  password : v.member (ascii "password") = .string password
  status : (v.member (ascii "status")).isInt = true

/-- The replies that are right for this account and this password. -/
inductive LoginVerdict (s : Store) (account : Account) (password : Bytes) : LoginResult → Prop
  | noRegister (h : ∀ p, ¬ s.Holds account p) : LoginVerdict s account password .noRegister
  | noPassword {p : Profile} (h : s.Holds account p) (hp : p.passWord ≠ password) :
      LoginVerdict s account password .noPassword
  | success {user : User} (h : s.Holds account user.profile) (hp : user.passWord = password) :
      LoginVerdict s account password (.success user)

/-- The handler ends with the reply `r`, and it is sent. -/
def RepliesLogin (s : Store) (c : ClientSession) (data : Bytes) (r : LoginResult) : Prop :=
  loginResult s data = .ok r ∧ c.onLoginResponse s data = .ok (c.send (replyBody c.seq r.text))

structure LogsInAsDocumented (s : Store) (c : ClientSession) (data : Bytes) (v : Value) : Prop where
  document : ∀ account password, LoginDocument v account password →
    ∃ r, RepliesLogin s c data r ∧ LoginVerdict s account password r
  otherwise : (v.member (ascii "password")).isString = false ∨ (v.member (ascii "status")).isInt = false →
    RepliesLogin s c data .typeError

/-- The document has an int for `stastus` too, the stored password is another one, and so is that of
an account with this very name; and a document without `status` has no `stastus` either. -/
structure LoginMeets (s : Store) (v : Value) : Prop where
  document : ∀ account password, LoginDocument v account password →
    (v.member (ascii "stastus")).isInt = true ∧ storedPassword s.users account.read ≠ cTrunc password ∧
      ∃ p, s.Holds account p ∧ p.passWord ≠ password
  otherwise : (v.member (ascii "password")).isString = true → (v.member (ascii "status")).isInt = false →
    (v.member (ascii "stastus")).isInt = false

section
variable {s : Store} {c : ClientSession} {data : Bytes} {v : Value}

theorem repliesLogin_of_short {r : LoginResult} (h : loginResult s data = .ok r)
    (hr : ∀ user, r ≠ .success user) : RepliesLogin s c data r := by
  refine ⟨h, ?_⟩
  rw [ClientSession.onLoginResponse, h, Except.ok_bind]
  exact ClientSession.answer_short (length_text_lt hr) _

theorem not_repliesLogin_success {user : User} : ¬ RepliesLogin s c data (.success user) := by
  rintro ⟨h, hreply⟩
  rw [ClientSession.onLoginResponse, h, Except.ok_bind,
    ClientSession.answer_long (length_text_success user)] at hreply
  cases hreply

theorem RepliesLogin.unique {r r' : LoginResult} (h : RepliesLogin s c data r)
    (h' : loginResult s data = .ok r') : r = r' := Except.ok_unique h.1 h'

theorem loginResult_of_refused (s : Store) (hroot : Json.parse data = .ok (some v))
    (h : loginRequest v = .ok none) : loginResult s data = .ok .typeError := by
  rw [loginResult, hroot, Except.ok_bind]
  simp only [h, Except.ok_bind]
  rfl

theorem loginResult_of_taken (s : Store) {account : Account} {password : Bytes}
    (hroot : Json.parse data = .ok (some v)) (h : loginRequest v = .ok (some (account, password))) :
    loginResult s data =
      if storedPassword s.users account ≠ password then .ok .noPassword
      else .ok (.success ((s.users.cachedUsers.find? account.names).getD (User.new s.uninit))) := by
  rw [loginResult, hroot, Except.ok_bind]
  simp only [h, Except.ok_bind, findUser_eq, passWord_getD]
  rfl

/-- The check reads `password` and `stastus`. -/
theorem loginRequest_refused (hobj : v.isObject = true)
    (h : (v.member (ascii "password")).isString = false ∨ (v.member (ascii "stastus")).isInt = false) :
    loginRequest v = .ok none := by
  rw [loginRequest_of_isObject hobj, if_pos]
  rcases h with h | h <;> simp [h]

theorem isInt_iff {w : Value} : w.isInt = true ↔ ∃ i, w = .int i := by
  cases w <;> simp [Value.isInt]

theorem LoginDocument.loginRequest_eq {account : Account} {password : Bytes} (h : LoginDocument v account password)
    (hs : (v.member (ascii "stastus")).isInt = true) :
    loginRequest v = .ok (some (account.read, cTrunc password)) := by
  obtain ⟨i, hstatus⟩ := isInt_iff.1 h.status
  have huser : account.SentAs (v.member (ascii "user")) := by
    rw [h.user]
    rcases account with sAccount | iAccount
    · exact rfl
    · exact ⟨rfl, rfl⟩
  refine loginRequest_some.2 ⟨account, password, ⟨huser, h.password⟩, ⟨hs, ?_⟩, rfl, rfl⟩
  rw [hstatus]
  rfl

theorem loginRequest_taken (hobj : v.isObject = true) (hp : (v.member (ascii "password")).isString = true)
    (hs : (v.member (ascii "stastus")).isInt = true) : loginRequest v ≠ .ok none := by
  rw [loginRequest_of_isObject hobj, hp, hs]
  intro heq
  obtain ⟨password, -, heq⟩ := Except.bind_eq_ok.1 heq
  obtain ⟨status, -, heq⟩ := Except.bind_eq_ok.1 heq
  split at heq <;> obtain ⟨account, -, heq⟩ := Except.bind_eq_ok.1 heq <;> cases heq

theorem logsIn_of_meets (hroot : Json.parse data = .ok (some v)) (hobj : v.isObject = true)
    (h : LoginMeets s v) : LogsInAsDocumented s c data v := by
  constructor
  · intro account password hdoc
    obtain ⟨hs, hne, p, hheld, hp⟩ := h.document account password hdoc
    have hres := loginResult_of_taken s hroot (hdoc.loginRequest_eq hs)
    rw [if_pos hne] at hres
    exact ⟨.noPassword, repliesLogin_of_short hres nofun, .noPassword hheld hp⟩
  · intro hbad
    refine repliesLogin_of_short (loginResult_of_refused s hroot (loginRequest_refused hobj ?_)) nofun
    by_cases hp : (v.member (ascii "password")).isString = true
    · exact .inr (h.otherwise hp (hbad.resolve_left (by simp [hp])))
    · exact .inl (by simpa using hp)

/-- With the words right the one reply that is right is that the password is not. -/
theorem meets_of_logsIn (hroot : Json.parse data = .ok (some v)) (hobj : v.isObject = true)
    (h : LogsInAsDocumented s c data v) : LoginMeets s v := by
  constructor
  · intro account password hdoc
    obtain ⟨r, hreplies, hverdict⟩ := h.document account password hdoc
    by_cases hs : (v.member (ascii "stastus")).isInt = true
    · have hres := loginResult_of_taken s hroot (hdoc.loginRequest_eq hs)
      refine ⟨hs, ?_⟩
      by_cases hne : storedPassword s.users account.read ≠ cTrunc password
      · rw [if_pos hne] at hres
        obtain rfl := hreplies.unique hres
        rcases hverdict with _ | ⟨hheld, hp⟩
        exact ⟨hne, _, hheld, hp⟩
      · rw [if_neg hne] at hres
        obtain rfl := hreplies.unique hres
        exact absurd hreplies not_repliesLogin_success
    · have hres := loginResult_of_refused s hroot (loginRequest_refused hobj (.inr (by simpa using hs)))
      obtain rfl := hreplies.unique hres
      cases hverdict
  · intro hp hstatus
    by_contra hs
    have hreplies := h.otherwise (.inr hstatus)
    -- the document was taken, and no request that is taken ends in a type error
    rcases hreq : loginRequest v with e | _ | ⟨account, password⟩
    · have hres := hreplies.1
      rw [loginResult, hroot, Except.ok_bind] at hres
      simp only [hreq] at hres
      cases hres
    · exact loginRequest_taken hobj hp (by simpa using hs) hreq
    · have hres := hreplies.1.symm.trans (loginResult_of_taken s hroot hreq)
      split at hres <;> cases hres

end

theorem login_as_documented_iff (s : Store) (c : ClientSession) {data : Bytes} {members : List (Bytes × Value)}
    (h : Json.parse data = .ok (some (.object members))) :
    LogsInAsDocumented s c data (.object members) ↔ LoginMeets s (.object members) :=
  ⟨meets_of_logsIn h rfl, logsIn_of_meets h rfl⟩

/-- `{"user":"ann","password":"no","status":1,"stastus":1}` -/
def wrongPassword : Bytes :=
  [123, 34, 117, 115, 101, 114, 34, 58, 34, 97, 110, 110, 34, 44, 34, 112, 97, 115, 115, 119, 111, 114, 100, 34,
    58, 34, 110, 111, 34, 44, 34, 115, 116, 97, 116, 117, 115, 34, 58, 49, 44, 34, 115, 116, 97, 115, 116, 117,
    115, 34, 58, 49, 125]

def wrongPasswordMembers : List (Bytes × Value) :=
  [(ascii "password", .string (ascii "no")), (ascii "stastus", .int 1), (ascii "status", .int 1),
    (ascii "user", .string (ascii "ann"))]

set_option maxRecDepth 10000 in
theorem parse_wrongPassword : Json.parse wrongPassword = .ok (some (.object wrongPasswordMembers)) := rfl

theorem login_as_documented_wrong_password :
    Json.parse wrongPassword = .ok (some (.object wrongPasswordMembers)) ∧
      LogsInAsDocumented Store.oneUserLoaded {} wrongPassword (.object wrongPasswordMembers) := by
  refine ⟨parse_wrongPassword, (login_as_documented_iff _ _ parse_wrongPassword).2 ⟨?_, ?_⟩⟩
  · rintro account password ⟨huser, hpassword, -⟩
    obtain rfl : password = ascii "no" := (Value.string.inj hpassword).symm
    rcases account with sAccount | iAccount
    · obtain rfl : sAccount = ascii "ann" := (Value.string.inj huser).symm
      exact ⟨rfl, by decide, _, .inr ⟨_, .head _, by decide, rfl⟩, by decide⟩
    · cases huser
  · intro _ hstatus
    exact absurd hstatus (by decide)

/-- `{"user":"ann","password":"pw","status":1}` -/
def annLogin : Bytes :=
  [123, 34, 117, 115, 101, 114, 34, 58, 34, 97, 110, 110, 34, 44, 34, 112, 97, 115, 115, 119, 111, 114, 100, 34,
    58, 34, 112, 119, 34, 44, 34, 115, 116, 97, 116, 117, 115, 34, 58, 49, 125]

def annLoginRoot : Value :=
  .object [(ascii "password", .string (ascii "pw")), (ascii "status", .int 1), (ascii "user", .string (ascii "ann"))]

set_option maxRecDepth 10000 in
theorem parse_annLogin : Json.parse annLogin = .ok (some annLoginRoot) := rfl

theorem login_as_documented_refused :
    Json.parse annLogin = .ok (some annLoginRoot) ∧
      LoginDocument annLoginRoot (.name (ascii "ann")) (ascii "pw") ∧
      RepliesLogin Store.oneUserLoaded {} annLogin .typeError ∧
      ¬ LogsInAsDocumented Store.oneUserLoaded {} annLogin annLoginRoot := by
  have hdoc : LoginDocument annLoginRoot (.name (ascii "ann")) (ascii "pw") := ⟨rfl, rfl, rfl⟩
  have hres : loginResult Store.oneUserLoaded annLogin = .ok .typeError :=
    loginResult_of_refused _ parse_annLogin (loginRequest_refused rfl (.inr rfl))
  refine ⟨parse_annLogin, hdoc, repliesLogin_of_short hres nofun, fun h => ?_⟩
  exact absurd ((meets_of_logsIn parse_annLogin rfl h).document _ _ hdoc).1 (by decide)

end IMServer
