import IMServer.Packet
import IMServer.UserManager
import IMServer.Json.Reader
import IMServer.Json.Writers

/-!
# `ClientSession`

The handlers of the three requests that are answered and the switch that calls them. A handler
reads members of the parsed document with `operator[]`, which may change it, so the document is
passed along.
-/

namespace IMServer

/-! ### `MSG_TYPE_…` and `RES` -/

def msgTypeHeartbeat : Int32 := 1000
def msgTypeRegister : Int32 := 1001
def msgTypeLogin : Int32 := 1002

def resParseFailed : Int32 := 400
def resJosntypeError : Int32 := 401
def resRegisterFaied : Int32 := 402
def resLoginNoregister : Int32 := 403
def resLoginNopassword : Int32 := 404
def resRegisterSuccess : Int32 := 200
def resLoginSuccess : Int32 := 201

/-- One call of `conn->send`. -/
structure Reply where
  /-- the body the handler built in its `BinaryWriter` -/
  body : Bytes
  /-- the bytes passed to the connection -/
  out : Bytes
deriving DecidableEq

structure ClientSession where
  seq : Int32 := 0
  /-- what was passed to `conn->send`, in order -/
  sent : List Reply := []
deriving DecidableEq

def response {α : Type} (members : List (String × α)) : List (Bytes × α) :=
  members.foldl (fun m p => AssocMap.insert (ascii p.1) p.2 m) []

def getJsonString (code : Int32) (msg : String) : Bytes :=
  (Json.Value.object (response [("code", .int code), ("msg", .string (ascii msg))])).toStyledString

/-! ### Registration -/

def registerRequest (root : Json.Value) : Except Fault (Option (Bytes × Bytes × Bytes)) := do
  let (username, root) ← root.resolveReference (ascii "username")
  if !username.isString then return none
  let (nickname, root) ← root.resolveReference (ascii "nickname")
  if !nickname.isString then return none
  let (password, root) ← root.resolveReference (ascii "password")
  if password.isString then return none
  let (value, root) ← root.resolveReference (ascii "username")
  let userName ← value.asString
  let (value, root) ← root.resolveReference (ascii "nicknime")
  let nickName ← value.asString
  let (value, _) ← root.resolveReference (ascii "password")
  let passWord ← value.asString
  return some (userName, nickName, passWord)

def registerResult (s : Store) (data : Bytes) : Except Fault (Bytes × Store) := do
  match ← Json.parse data with
  | none => return (getJsonString resParseFailed "json parse faied", s)
  | some root =>
    match ← registerRequest root with
    | none => return (getJsonString resJosntypeError "json type error", s)
    | some (userName, nickName, passWord) =>
      let user := { User.new s.uninit with userName := userName, nickName := nickName, passWord := passWord }
      match s.addUser user with
      | (false, _, s) => return (getJsonString resRegisterFaied "register failed", s)
      | (true, _, s) => return (getJsonString resRegisterSuccess "register success", s)

/-! ### Login -/

inductive Account
  | name (sAccount : Bytes)
  | id (iAccount : Int32)
deriving DecidableEq

def loginRequest (value : Json.Value) : Except Fault (Option (Account × Bytes)) := do
  let (password, value) ← value.resolveReference (ascii "password")
  if !password.isString then return none
  let (stastus, value) ← value.resolveReference (ascii "stastus")
  if !stastus.isInt then return none
  let (member, value) ← value.resolveReference (ascii "password")
  let password ← member.asString
  let (member, value) ← value.resolveReference (ascii "status")
  let _ ← member.asInt
  let (user, value) ← value.resolveReference (ascii "user")
  if user.isString then
    let (member, _) ← value.resolveReference (ascii "user")
    return some (.name (← member.asString), password)
  else
    let (member, _) ← value.resolveReference (ascii "user")
    return some (.id (← member.asInt), password)

def findUser (um : UserManager) (account : Account) (user : User) : Bool × User :=
  match account with
  | .name sAccount =>
    match um.getUserInfoFromCached sAccount user with
    | (true, user) => (true, user)
    | (false, user) => um.getUserInfoFromDB sAccount user
  | .id iAccount =>
    match um.getUserInfoFromCachedId iAccount user with
    | (true, user) => (true, user)
    | (false, user) => um.getUserInfoFromDBId iAccount user

/-- Which of the replies of `onLoginResponse` is reached. -/
inductive LoginResult
  | parseFailed
  | typeError
  | noRegister
  | noPassword
  | success (user : User)
deriving DecidableEq

def loginResult (s : Store) (data : Bytes) : Except Fault LoginResult := do
  match ← Json.parse data with
  | none => return .parseFailed
  | some value =>
    match ← loginRequest value with
    | none => return .typeError
    | some (account, password) =>
      match findUser s.users account (User.new s.uninit) with
      | (false, _) => return .noRegister
      | (true, user) => if user.passWord ≠ password then return .noPassword else return .success user

def successResponse (user : User) : List (Bytes × Json.Value) :=
  response [("code", .int resLoginSuccess),
    ("msg", .string (ascii "user is not exist or password is incorrecr!")),
    ("userid", .int user.userId), ("username", .string user.userName), ("nickname", .string user.nickName),
    ("facetype", .int user.faceType), ("customface", .string user.customFace), ("gender", .int user.gender),
    ("birthday", .int user.birthDay), ("_signature", .string user.signature), ("_adress", .string user.adress),
    ("_pthone", .string user.pthone), ("_mail", .string user.mail)]

def LoginResult.text : LoginResult → Bytes
  | parseFailed => getJsonString resParseFailed "json parse faied"
  | typeError => getJsonString resJosntypeError "json josn type error"
  | noRegister => getJsonString resLoginNoregister "user is not exist or password is incorrecr!"
  | noPassword => getJsonString resLoginNopassword "user is not exist or password is incorrecr!"
  | success user => (Json.Value.object (successResponse user)).toStyledString

/-! ### The session -/

namespace ClientSession

def send (c : ClientSession) (body : Bytes) : ClientSession :=
  { c with sent := c.sent ++ [⟨body, framed body⟩] }

def answer (c : ClientSession) (cmd : Int32) (res : Bytes) : Except Fault ClientSession := do
  return c.send (← packetBody cmd c.seq res)

/-- The handler frames its reply itself, with a length of type `size_t`. -/
def onHeartbeatResponse (c : ClientSession) : Except Fault ClientSession := do
  let out ← packetBody msgTypeHeartbeat c.seq []
  let writer := BinaryWriter.writeData {} (sizeBytes (UInt64.ofNat out.length))
  return { c with sent := c.sent ++ [⟨out, writer.getMsg ++ out⟩] }

def onRegisterResponse (s : Store) (c : ClientSession) (data : Bytes) : Except Fault (Store × ClientSession) := do
  let (res, s) ← registerResult s data
  return (s, ← c.answer msgTypeRegister res)

def onLoginResponse (s : Store) (c : ClientSession) (data : Bytes) : Except Fault ClientSession := do
  let res ← loginResult s data
  c.answer msgTypeLogin res.text

/-- The switch of `process`. The other commands it lists have no handler. -/
def dispatch (s : Store) (c : ClientSession) (cmd : Int32) (data : Bytes) :
    Except Fault (Store × ClientSession) := do
  if cmd = msgTypeHeartbeat then return (s, ← c.onHeartbeatResponse)
  else if cmd = msgTypeRegister then c.onRegisterResponse s data
  else if cmd = msgTypeLogin then return (s, ← c.onLoginResponse s data)
  else return (s, c)

/-- A message that is rejected after its sequence number was read has changed `_seq`. -/
def process (p : Store × ClientSession) (msg : Bytes) : Except Fault ((Store × ClientSession) × Bool) := do
  let (s, c) := p
  match ← decode msg with
  | .rejected none => return ((s, c), false)
  | .rejected (some seq) => return ((s, { c with seq := seq }), false)
  | .packet cmd seq data => return (← dispatch s { c with seq := seq } cmd data, true)

end ClientSession

end IMServer
