import IMServer.Requests
import IMServer.UserIds

/-!
# Logins

A login succeeds for the first user in the cache with that name or id if the password is the stored
one. For an account that is not in the cache the lookup in the database reports a user that was
only default-constructed, so the empty password opens every account there is not. Names and passwords
are read up to their first zero byte, and what stands behind it is not compared.
-/

namespace IMServer
open Json

def Account.names : Account → User → Bool
  | .name sAccount, u => u.userName = sAccount
  | .id iAccount, u => u.userId = iAccount

def Account.namesRow : Account → UserRow → Bool
  | .name sAccount, r => r.username = sAccount
  | .id iAccount, r => r.userId = iAccount.toInt

/-- What a member `user` says, with the string as it was sent. -/
def Account.SentAs : Account → Value → Prop
  | .name sAccount, w => w = .string sAccount
  | .id iAccount, w => w.isString = false ∧ w.asInt = .ok iAccount

/-- The account as the handler reads it. -/
def Account.read : Account → Account
  | .name sAccount => .name (cTrunc sAccount)
  | .id iAccount => .id iAccount

/-- The document names this account and carries this password, as they were sent. -/
structure LoginNames (value : Value) (account : Account) (password : Bytes) : Prop where
  user : account.SentAs (value.member (ascii "user"))
  password : value.member (ascii "password") = .string password

/-- The members the handler wants besides. -/
structure StatusRead (value : Value) : Prop where
  stastus : (value.member (ascii "stastus")).isInt = true
  status : (value.member (ascii "status")).isNumber = true

/-- What the handler compares: account and password as it has read them. -/
def LoginRequests (data : Bytes) (account : Account) (password : Bytes) : Prop :=
  ∃ value, Json.parse data = .ok (some value) ∧ loginRequest value = .ok (some (account, password))

theorem findUser_eq (um : UserManager) (account : Account) (user : User) :
    findUser um account user = (true, (um.cachedUsers.find? account.names).getD user) := by
  cases account with
  | name sAccount =>
    rw [findUser, UserManager.getUserInfoFromCached, UserManager.fromCached]
    have hp : Account.names (.name sAccount) = fun u => decide (u.userName = sAccount) := rfl
    rw [hp]
    cases um.cachedUsers.find? fun u => decide (u.userName = sAccount) <;> rfl
  | id iAccount =>
    rw [findUser, UserManager.getUserInfoFromCachedId, UserManager.fromCached]
    have hp : Account.names (.id iAccount) = fun u => decide (u.userId = iAccount) := rfl
    rw [hp]
    cases um.cachedUsers.find? fun u => decide (u.userId = iAccount) <;> rfl

/-- The password a login is compared with: that of the first user who goes by the account, the empty
one where there is none. -/
def storedPassword (um : UserManager) (account : Account) : Bytes :=
  ((um.cachedUsers.find? account.names).map User.passWord).getD []

theorem passWord_getD (uninit : Int32) (o : Option User) :
    (o.getD (User.new uninit)).passWord = (o.map User.passWord).getD [] := by
  cases o <;> rfl

theorem Account.SentAs.unique {a a' : Account} {w : Value} (h : a.SentAs w) (h' : a'.SentAs w) : a = a' := by
  rcases a with s | i <;> rcases a' with s' | i'
  · cases h.symm.trans h'
    rfl
  · rw [show w = .string s from h] at h'
    cases h'.1
  · rw [show w = .string s' from h'] at h
    cases h.1
  · rw [Except.ok_unique h.2 h'.2]

theorem LoginNames.unique {value : Value} {a a' : Account} {p p' : Bytes} (h : LoginNames value a p)
    (h' : LoginNames value a' p') : a = a' ∧ p = p' :=
  ⟨h.user.unique h'.user, Value.string.inj (h.password.symm.trans h'.password)⟩

theorem isObject_of_member {value : Value} {key s : Bytes} (h : value.member key = .string s) :
    value.isObject = true := by
  cases value with
  | object members => rfl
  | _ => cases h

theorem isString_iff {w : Value} : w.isString = true ↔ ∃ s, w = .string s := by
  cases w <;> simp [Value.isString]

/-- The handler takes the documents that name an account and carry a password, and cuts the strings off. -/
theorem loginRequest_some {value : Value} {a : Account} {p : Bytes} :
    loginRequest value = .ok (some (a, p)) ↔ ∃ account password, LoginNames value account password ∧
      StatusRead value ∧ a = account.read ∧ p = cTrunc password := by
  constructor
  · intro h
    cases hobj : value.isObject with
    | false => cases (loginRequest_of_not_isObject hobj).symm.trans h
    | true =>
      rw [loginRequest_of_isObject hobj] at h
      split at h
      · cases h
      next hcheck =>
      simp only [Bool.or_eq_true, Bool.not_eq_true', not_or, Bool.not_eq_false] at hcheck
      obtain ⟨password, hpassword⟩ := isString_iff.1 hcheck.1
      rw [hpassword] at h
      obtain ⟨p', hp, h⟩ := Except.bind_eq_ok.1 h
      cases hp
      obtain ⟨status, hstatus, h⟩ := Except.bind_eq_ok.1 h
      have hread : StatusRead value := ⟨hcheck.2, (asInt_returns _).1 ⟨status, hstatus⟩⟩
      cases huser : (value.member (ascii "user")).isString with
      | true =>
        obtain ⟨sAccount, hname⟩ := isString_iff.1 huser
        rw [if_pos huser, hname] at h
        cases h
        exact ⟨.name sAccount, password, ⟨hname, hpassword⟩, hread, rfl, rfl⟩
      | false =>
        rw [huser] at h
        obtain ⟨iAccount, hid, h⟩ := Except.bind_eq_ok.1 h
        cases h
        exact ⟨.id iAccount, password, ⟨⟨huser, hid⟩, hpassword⟩, hread, rfl, rfl⟩
  · rintro ⟨account, password, hnames, hread, rfl, rfl⟩
    obtain ⟨status, hstatus⟩ := (asInt_returns _).2 hread.status
    rw [loginRequest_of_isObject (isObject_of_member hnames.password), hnames.password, hread.stastus, hstatus]
    rcases account with sAccount | iAccount
    · rw [show value.member (ascii "user") = .string sAccount from hnames.user]
      rfl
    · obtain ⟨huser, hid⟩ := hnames.user
      rw [huser, hid]
      rfl

theorem loginResult_success {s : Store} {data : Bytes} {user : User} :
    loginResult s data = .ok (.success user) ↔
      ∃ account, LoginRequests data account user.passWord ∧
        user = (s.users.cachedUsers.find? account.names).getD (User.new s.uninit) := by
  constructor
  · intro h
    obtain ⟨value, hparse, h⟩ := Except.bind_eq_ok.1 h
    cases value with
    | none => cases h
    | some value =>
      obtain ⟨request, hreq, h⟩ := Except.bind_eq_ok.1 h
      cases request with
      | none => cases h
      | some request =>
        obtain ⟨account, password⟩ := request
        simp only [findUser_eq] at h
        split at h
        · cases h
        · next hpw =>
          cases h
          exact ⟨account, ⟨value, hparse, by rw [not_not.1 hpw]; exact hreq⟩, rfl⟩
  · rintro ⟨account, ⟨value, hparse, hreq⟩, huser⟩
    rw [loginResult, hparse, Except.ok_bind]
    simp only [hreq, Except.ok_bind, findUser_eq, ← huser]
    rw [if_neg (not_not.2 rfl)]
    rfl

/-- An account of this very name or id, with this very password. -/
def Store.HasAccount (s : Store) (account : Account) (password : Bytes) : Prop :=
  (∃ u ∈ s.users.cachedUsers, account.names u = true ∧ u.passWord = password) ∨
    ∃ r ∈ s.table, account.namesRow r = true ∧ r.password = password

def LoginSound (s : Store) (data : Bytes) : Prop :=
  ∀ user, loginResult s data = .ok (.success user) → ∃ value account password,
    Json.parse data = .ok (some value) ∧ LoginNames value account password ∧ s.HasAccount account password

/-- The empty password, for an account that is not in the cache. -/
def OpensNobody (um : UserManager) (account : Account) (password : Bytes) : Prop :=
  (∀ u ∈ um.cachedUsers, account.read.names u = false) ∧ cTrunc password = []

/-- Name or password has a zero byte, and what stands before it is that of a user in the cache. -/
def OpensCut (um : UserManager) (account : Account) (password : Bytes) : Prop :=
  (account.read ≠ account ∨ cTrunc password ≠ password) ∧
    ∃ u, um.cachedUsers.find? account.read.names = some u ∧ u.passWord = cTrunc password

/-- A login that passes the checks, in one of these two ways, with no account it would be right for. -/
structure Bypass (s : Store) (data : Bytes) (value : Value) (account : Account) (password : Bytes) : Prop where
  parse : Json.parse data = .ok (some value)
  names : LoginNames value account password
  status : StatusRead value
  opens : OpensNobody s.users account password ∨ OpensCut s.users account password
  noAccount : ¬ s.HasAccount account password

section
variable {s : Store} {data password : Bytes} {value : Value} {account : Account}

/-- Both ways the password is the one that is stored. -/
theorem storedPassword_of_opens {um : UserManager} (h : OpensNobody um account password ∨ OpensCut um account password) :
    storedPassword um account.read = cTrunc password := by
  rcases h with ⟨hcache, hempty⟩ | ⟨-, u, hfind, hpw⟩
  · have hfind : um.cachedUsers.find? account.read.names = none :=
      List.find?_eq_none.2 fun u hu => by simp [hcache u hu]
    rw [storedPassword, hfind, hempty]
    rfl
  · rw [storedPassword, hfind, ← hpw]
    rfl

theorem Bypass.success (h : Bypass s data value account password) : ∃ user, loginResult s data = .ok (.success user) := by
  refine ⟨_, loginResult_success.2 ⟨account.read, ⟨value, h.parse, ?_⟩, rfl⟩⟩
  rw [passWord_getD]
  refine loginRequest_some.2 ⟨account, password, h.names, h.status, rfl, ?_⟩
  exact storedPassword_of_opens h.opens

theorem Bypass.not_sound (h : Bypass s data value account password) : ¬ LoginSound s data := by
  intro hsound
  obtain ⟨user, hsuccess⟩ := h.success
  obtain ⟨value', account', password', hparse, hnames, hhas⟩ := hsound user hsuccess
  cases h.parse.symm.trans hparse
  obtain ⟨rfl, rfl⟩ := h.names.unique hnames
  exact h.noAccount hhas

/-- Without a zero byte the first user of that name or id is the account that is meant. -/
theorem opens_of_stored (hno : ¬ s.HasAccount account password)
    (hstored : storedPassword s.users account.read = cTrunc password) :
    OpensNobody s.users account password ∨ OpensCut s.users account password := by
  unfold storedPassword at hstored
  cases hfind : s.users.cachedUsers.find? account.read.names with
  | none =>
    rw [hfind] at hstored
    exact .inl ⟨fun u hu => by simpa using List.find?_eq_none.1 hfind u hu, hstored.symm⟩
  | some u =>
    rw [hfind] at hstored
    refine .inr ⟨?_, u, hfind, hstored⟩
    by_contra hcut
    simp only [not_or, not_not] at hcut
    refine hno (.inl ⟨u, List.mem_of_find?_eq_some hfind, ?_, hstored.trans hcut.2⟩)
    have hnames := List.find?_some hfind
    rwa [hcut.1] at hnames

end

/-- A login is sound exactly when it is none of these. -/
theorem login_sound_iff (s : Store) (data : Bytes) :
    LoginSound s data ↔ ∀ value account password, ¬ Bypass s data value account password := by
  constructor
  · exact fun hsound value account password hbypass => hbypass.not_sound hsound
  · intro hno user h
    obtain ⟨a, ⟨value, hparse, hreq⟩, huser⟩ := loginResult_success.1 h
    obtain ⟨account, password, hnames, hread, rfl, hpw⟩ := loginRequest_some.1 hreq
    refine ⟨value, account, password, hparse, hnames, ?_⟩
    by_contra hhas
    rw [huser, passWord_getD] at hpw
    exact hno value account password ⟨hparse, hnames, hread, opens_of_stored hhas hpw, hhas⟩

/-- `{"user":"x","password":"","stastus":1}` -/
def nobodyLogin : Bytes :=
  [123, 34, 117, 115, 101, 114, 34, 58, 34, 120, 34, 44, 34, 112, 97, 115, 115, 119, 111, 114, 100, 34, 58,
    34, 34, 44, 34, 115, 116, 97, 115, 116, 117, 115, 34, 58, 49, 125]

def nobodyLoginRoot : Value :=
  .object [(ascii "password", .string []), (ascii "stastus", .int 1), (ascii "user", .string (ascii "x"))]

set_option maxRecDepth 10000 in
theorem parse_nobodyLogin : Json.parse nobodyLogin = .ok (some nobodyLoginRoot) := rfl

theorem login_as_nobody :
    Store.Runs Store.Room (Store.start Store.oneUser 0) Store.oneUserLoaded ∧
      Json.parse nobodyLogin = .ok (some nobodyLoginRoot) ∧
      LoginNames nobodyLoginRoot (.name (ascii "x")) [] ∧
      (∃ user, loginResult Store.oneUserLoaded nobodyLogin = .ok (.success user)) ∧
      ¬ LoginSound Store.oneUserLoaded nobodyLogin := by
  have hnames : LoginNames nobodyLoginRoot (.name (ascii "x")) [] := ⟨rfl, rfl⟩
  have hcache : ∀ u ∈ Store.oneUserLoaded.users.cachedUsers, Account.names (.name (ascii "x")) u = false := by decide
  have htable : ∀ r ∈ Store.oneUserLoaded.table, Account.namesRow (.name (ascii "x")) r = false := by decide
  have hnone : ¬ Store.oneUserLoaded.HasAccount (.name (ascii "x")) [] := by
    rintro (⟨u, hu, hname, -⟩ | ⟨r, hr, hname, -⟩)
    · cases (hcache u hu).symm.trans hname
    · cases (htable r hr).symm.trans hname
  have hbypass : Bypass Store.oneUserLoaded nobodyLogin nobodyLoginRoot (.name (ascii "x")) [] :=
    ⟨parse_nobodyLogin, hnames, ⟨rfl, rfl⟩, .inl ⟨hcache, rfl⟩, hnone⟩
  exact ⟨Store.oneUserLoaded_runs _, parse_nobodyLogin, hnames, hbypass.success, hbypass.not_sound⟩

end IMServer
