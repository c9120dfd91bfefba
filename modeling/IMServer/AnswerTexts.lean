import IMServer.Requests

/-!
# What a client reads in an answer

The handlers write their answers with `toStyledString`. A client that gives the text to the same library
reads the members they set: the code of what happened, and of a user who has logged in the four numbers
and seven strings that stand in the answer. His password, `_customFaceFmt` and `_ownerid` do not.
-/

namespace IMServer

open Json

/-- What the library returns for a member that was set to an `int` or a string. -/
def Json.Value.Reads (v : Value) : Value → Prop
  | .int i => v.asInt = .ok i
  | .string s => v.asString = .ok (cTrunc s)
  | _ => False

/-- What can be set in an answer. -/
def Json.Value.isScalar : Value → Bool
  | .int _ => true
  | .string _ => true
  | _ => false

theorem Json.reads_reread {x : Value} (h : x.isScalar = true) : x.reread.Reads x := by
  cases x with
  | int i => exact asInt_rereadInt i
  | string s => exact congrArg Except.ok (cTrunc_of_notMem (zero_notMem_cTrunc s))
  | null => cases h
  | uint u => cases h
  | real d => cases h
  | bool b => cases h
  | array items => cases h
  | object members => cases h

/-- An object of numbers and strings is read as it was written. -/
theorem Json.parse_toStyledString {ms : List (Bytes × Value)} (hsorted : AssocMap.Sorted ms)
    (hnames : ∀ m ∈ ms, 0 ∉ m.1) (hscalar : ∀ m ∈ ms, m.2.isScalar = true) :
    ∃ root, parse (Value.object ms).toStyledString = .ok (some root) ∧ ∀ m ∈ ms, (root.member m.1).Reads m.2 := by
  have hwf : (Value.object ms).WellFormed Value.Writable := by
    refine .object hsorted hnames fun m hm => ?_
    have hx := hscalar m hm
    cases hm : m.2 with
    | int i => exact .int fun d hd => (by cases hd)
    | string s => exact .string fun d hd => (by cases hd)
    | null => rw [hm] at hx; cases hx
    | uint u => rw [hm] at hx; cases hx
    | real d => rw [hm] at hx; cases hx
    | bool b => rw [hm] at hx; cases hx
    | array items => rw [hm] at hx; cases hx
    | object members => rw [hm] at hx; cases hx
  have hblank : Blank Style.styledWriter.indentation := by decide
  obtain ⟨document, hwrite, hparse⟩ := parse_style hblank hwf
  rw [Value.toStyledString, hwrite]
  refine ⟨_, hparse, fun m hm => ?_⟩
  have hfind : AssocMap.find (Value.rereadMembers ms) m.1 = some m.2.reread := by
    have hmem : (m.1, m.2.reread) ∈ ms.map fun m => (m.1, m.2.reread) := List.mem_map.2 ⟨m, hm, rfl⟩
    have hs : AssocMap.Sorted (ms.map fun m => (m.1, m.2.reread)) := List.pairwise_map.2 hsorted
    rw [Value.rereadMembers_eq]
    exact AssocMap.find_of_mem (AssocMap.nodup_of_sorted hs) hmem
  rw [Value.reread, Value.member, hfind]
  exact reads_reread (hscalar m hm)

/-- What was set last under each name is read back. -/
theorem parse_response (ms : List (String × Value)) (hdistinct : (ms.map fun p => ascii p.1).Nodup)
    (hnames : ∀ name ∈ ms.map (fun p => ascii p.1), 0 ∉ name) (hscalar : ∀ p ∈ ms, p.2.isScalar = true) :
    ∃ root, parse (Value.object (response ms)).toStyledString = .ok (some root) ∧
      ∀ p ∈ ms, (root.member (ascii p.1)).Reads p.2 := by
  have heq : response ms = (ms.map fun p => (ascii p.1, p.2)).foldl (fun m e => AssocMap.insert e.1 e.2 m) [] := by
    rw [response, List.foldl_map]
  have hsorted : AssocMap.Sorted (response ms) := by
    rw [heq]
    exact AssocMap.sorted_foldl_insert .nil _
  have hfind : ∀ p ∈ ms, AssocMap.find (response ms) (ascii p.1) = some p.2 := by
    intro p hp
    rw [heq]
    refine AssocMap.find_foldl_insert ?_ [] (List.mem_map.2 ⟨p, hp, rfl⟩)
    rw [List.map_map]
    exact hdistinct
  have hclean : ∀ m ∈ response ms, 0 ∉ m.1 := by
    intro m hm
    obtain ⟨p, hp, rfl⟩ := mem_response hm
    exact hnames _ (List.mem_map.2 ⟨p, hp, rfl⟩)
  have hscalars : ∀ m ∈ response ms, m.2.isScalar = true := by
    intro m hm
    obtain ⟨p, hp, rfl⟩ := mem_response hm
    exact hscalar p hp
  obtain ⟨root, hparse, hread⟩ := parse_toStyledString hsorted hclean hscalars
  exact ⟨root, hparse, fun p hp => hread _ (AssocMap.mem_of_find (hfind p hp))⟩

/-- The code in the answer `text`. -/
def HasCode (text : Bytes) (code : Int32) : Prop :=
  ∃ root, parse text = .ok (some root) ∧ (root.member (ascii "code")).asInt = .ok code

theorem hasCode_getJsonString (code : Int32) (msg : String) : HasCode (getJsonString code msg) code := by
  have hdistinct : [ascii "code", ascii "msg"].Nodup := by decide
  have hnames : ∀ name ∈ [ascii "code", ascii "msg"], 0 ∉ name := by decide
  obtain ⟨root, hparse, hread⟩ := parse_response [("code", .int code), ("msg", .string (ascii msg))] hdistinct
    hnames (by simp [Value.isScalar])
  exact ⟨root, hparse, hread ("code", .int code) (List.mem_cons_self ..)⟩

theorem parse_success (user : User) :
    ∃ root, parse (LoginResult.success user).text = .ok (some root) ∧
      (root.member (ascii "code")).asInt = .ok resLoginSuccess ∧
      (∀ p ∈ [("userid", user.userId), ("facetype", user.faceType), ("gender", user.gender),
        ("birthday", user.birthDay)], (root.member (ascii p.1)).asInt = .ok p.2) ∧
      ∀ p ∈ [("username", user.userName), ("nickname", user.nickName), ("customface", user.customFace),
        ("_signature", user.signature), ("_adress", user.adress), ("_pthone", user.pthone), ("_mail", user.mail)],
        (root.member (ascii p.1)).asString = .ok (cTrunc p.2) := by
  have hdistinct : (["code", "msg", "userid", "username", "nickname", "facetype", "customface", "gender", "birthday",
    "_signature", "_adress", "_pthone", "_mail"].map ascii).Nodup := by decide
  have hnames : ∀ name ∈ ["code", "msg", "userid", "username", "nickname", "facetype", "customface", "gender",
    "birthday", "_signature", "_adress", "_pthone", "_mail"].map ascii, 0 ∉ name := by decide
  obtain ⟨root, hparse, hread⟩ := parse_response [("code", .int resLoginSuccess),
    ("msg", .string (ascii "user is not exist or password is incorrecr!")),
    ("userid", .int user.userId), ("username", .string user.userName), ("nickname", .string user.nickName),
    ("facetype", .int user.faceType), ("customface", .string user.customFace), ("gender", .int user.gender),
    ("birthday", .int user.birthDay), ("_signature", .string user.signature), ("_adress", .string user.adress),
    ("_pthone", .string user.pthone), ("_mail", .string user.mail)] hdistinct hnames (by simp [Value.isScalar])
  simp only [List.forall_mem_cons] at hread
  obtain ⟨hcode, -, huserid, husername, hnickname, hfacetype, hcustomface, hgender, hbirthday, hsignature, hadress,
    hpthone, hmail, -⟩ := hread
  refine ⟨root, hparse, hcode, ?_, ?_⟩
  · simp only [List.forall_mem_cons]
    exact ⟨huserid, hfacetype, hgender, hbirthday, fun p hp => by cases hp⟩
  · simp only [List.forall_mem_cons]
    exact ⟨husername, hnickname, hcustomface, hsignature, hadress, hpthone, hmail, fun p hp => by cases hp⟩

/-! ### What happened -/

/-- How a registration ends, with its code. -/
inductive Registration (s : Store) (data : Bytes) : Int32 → Store → Prop
  | parseFailed (hparse : parse data = .ok none) : Registration s data resParseFailed s
  | typeError {root : Value} (hparse : parse data = .ok (some root)) (htypes : registerRequest root = .ok none) :
    Registration s data resJosntypeError s
  | notAdded {root : Value} {userName nickName passWord : Bytes} {user : User} {s' : Store}
    (hparse : parse data = .ok (some root))
    (htypes : registerRequest root = .ok (some (userName, nickName, passWord)))
    (hadd : s.addUser { User.new s.uninit with userName := userName, nickName := nickName, passWord := passWord } =
      (false, user, s')) : Registration s data resRegisterFaied s'
  | added {root : Value} {userName nickName passWord : Bytes} {user : User} {s' : Store}
    (hparse : parse data = .ok (some root))
    (htypes : registerRequest root = .ok (some (userName, nickName, passWord)))
    (hadd : s.addUser { User.new s.uninit with userName := userName, nickName := nickName, passWord := passWord } =
      (true, user, s')) : Registration s data resRegisterSuccess s'

/-- How a login ends, with its code and the user it found. -/
inductive LoginEnd (s : Store) (data : Bytes) : Int32 → Option User → Prop
  | parseFailed (hparse : parse data = .ok none) : LoginEnd s data resParseFailed none
  | typeError {value : Value} (hparse : parse data = .ok (some value)) (htypes : loginRequest value = .ok none) :
    LoginEnd s data resJosntypeError none
  | noRegister {value : Value} {account : Account} {password : Bytes} {user : User}
    (hparse : parse data = .ok (some value)) (htypes : loginRequest value = .ok (some (account, password)))
    (hfind : findUser s.users account (User.new s.uninit) = (false, user)) : LoginEnd s data resLoginNoregister none
  | noPassword {value : Value} {account : Account} {password : Bytes} {user : User}
    (hparse : parse data = .ok (some value)) (htypes : loginRequest value = .ok (some (account, password)))
    (hfind : findUser s.users account (User.new s.uninit) = (true, user)) (hpassword : user.passWord ≠ password) :
    LoginEnd s data resLoginNopassword none
  | success {value : Value} {account : Account} {password : Bytes} {user : User}
    (hparse : parse data = .ok (some value)) (htypes : loginRequest value = .ok (some (account, password)))
    (hfind : findUser s.users account (User.new s.uninit) = (true, user)) (hpassword : user.passWord = password) :
    LoginEnd s data resLoginSuccess (some user)

theorem registerResult_code {s s' : Store} {data res : Bytes} (h : registerResult s data = .ok (res, s')) :
    ∃ code, Registration s data code s' ∧ HasCode res code := by
  obtain ⟨root, hparse, h⟩ := Except.bind_eq_ok.1 h
  cases root with
  | none =>
    cases h
    exact ⟨_, .parseFailed hparse, hasCode_getJsonString _ _⟩
  | some root =>
    obtain ⟨request, htypes, h⟩ := Except.bind_eq_ok.1 h
    cases request with
    | none =>
      cases h
      exact ⟨_, .typeError hparse htypes, hasCode_getJsonString _ _⟩
    | some request =>
      obtain ⟨userName, nickName, passWord⟩ := request
      simp only at h
      split at h
      · next hadd =>
        cases h
        exact ⟨_, .notAdded hparse htypes hadd, hasCode_getJsonString _ _⟩
      · next hadd =>
        cases h
        exact ⟨_, .added hparse htypes hadd, hasCode_getJsonString _ _⟩

/-- A client that reads the text of an answer finds the code of what happened in it, and after a login the
members of the user, strings up to their first zero byte. -/
theorem answers_are_read_back (s : Store) (data : Bytes) :
    (∀ r, loginResult s data = .ok r →
      ∃ code found, LoginEnd s data code found ∧ HasCode r.text code ∧
        ∀ user, found = some user → ∃ root, parse r.text = .ok (some root) ∧
          (∀ p ∈ [("userid", user.userId), ("facetype", user.faceType), ("gender", user.gender),
            ("birthday", user.birthDay)], (root.member (ascii p.1)).asInt = .ok p.2) ∧
          ∀ p ∈ [("username", user.userName), ("nickname", user.nickName), ("customface", user.customFace),
            ("_signature", user.signature), ("_adress", user.adress), ("_pthone", user.pthone), ("_mail", user.mail)],
            (root.member (ascii p.1)).asString = .ok (cTrunc p.2)) ∧
      ∀ res s', registerResult s data = .ok (res, s') → ∃ code, Registration s data code s' ∧ HasCode res code := by
  refine ⟨fun r h => ?_, fun res s' h => registerResult_code h⟩
  obtain ⟨value, hparse, h⟩ := Except.bind_eq_ok.1 h
  cases value with
  | none =>
    cases h
    exact ⟨_, none, .parseFailed hparse, hasCode_getJsonString _ _, fun _ h => by cases h⟩
  | some value =>
    obtain ⟨request, htypes, h⟩ := Except.bind_eq_ok.1 h
    cases request with
    | none =>
      cases h
      exact ⟨_, none, .typeError hparse htypes, hasCode_getJsonString _ _, fun _ h => by cases h⟩
    | some request =>
      obtain ⟨account, password⟩ := request
      simp only at h
      split at h
      · next hfind =>
        cases h
        exact ⟨_, none, .noRegister hparse htypes hfind, hasCode_getJsonString _ _, fun _ h => by cases h⟩
      · next user hfind =>
        split at h
        · next hpassword =>
          cases h
          exact ⟨_, none, .noPassword hparse htypes hfind hpassword, hasCode_getJsonString _ _, fun _ h => by cases h⟩
        · next hpassword =>
          cases h
          obtain ⟨root, hroot, hcode, hread⟩ := parse_success user
          refine ⟨_, some user, .success hparse htypes hfind (not_not.1 hpassword), ⟨root, hroot, hcode⟩, ?_⟩
          rintro _ ⟨⟩
          exact ⟨root, hroot, hread⟩

end IMServer
