import IMServer.Decimal
import IMServer.Lib.Sql
import Mathlib.Data.List.Sort

/-!
# The database

The `user` table as `MysqlManager` declares it, the statements the server submits, and what they
do: a successful `INSERT` adds exactly the row its text names, the columns it does not name take the
`DEFAULT` declared for them, and a `SELECT` delivers its rows as text.
-/

namespace IMServer

structure FieldInfo where
  sName : String
  sType : String
  sDesc : String

/-- `mFields` of the table `user`, in the order of the constructor. -/
def userFields : List FieldInfo := [
  ⟨"id", "bigint(20) NOT NULL AUTO_INCREMENT COMMENT '自增ID'", "bigint(20)"⟩,
  ⟨"user_id", "bigint(20) NOT NULL COMMENT '用户ID'", "bigint(20)"⟩,
  ⟨"username", "varchar(64) NOT NULL COMMENT '用户名(手机号)'", "varchar(64)"⟩,
  ⟨"nickname", "varchar(64) NOT NULL COMMENT '用户昵称'", "varchar(64)"⟩,
  ⟨"password", "varchar(64) NOT NULL COMMENT '用户密码'", "varchar(64)"⟩,
  ⟨"facetype", "int(10) DEFAULT 0 COMMENT '用户头像类型'", "int(10)"⟩,
  ⟨"customface", "varchar(32) DEFAULT NULL COMMENT '自定义头像名'", "varchar(32)"⟩,
  ⟨"customfacefmt", "varchar(6) DEFAULT NULL COMMENT '自定义头像格式'", "varchar(6)"⟩,
  ⟨"gender", "int(2)  DEFAULT 0 COMMENT '性别'", "int(2)"⟩,
  ⟨"birthday", "bigint(20)  DEFAULT 19900101 COMMENT '生日'", "bigint(20)"⟩,
  ⟨"signature", "varchar(256) DEFAULT NULL COMMENT '个性签名'", "varchar(256)"⟩,
  ⟨"address", "varchar(256) DEFAULT NULL COMMENT '地址'", "varchar(256)"⟩,
  ⟨"phonenumber", "varchar(64) DEFAULT NULL COMMENT '电话'", "varchar(64)"⟩,
  ⟨"mail", "varchar(256) DEFAULT NULL COMMENT '邮箱'", "varchar(256)"⟩,
  ⟨"owner_id", "bigint(20) DEFAULT 0 COMMENT '群账号群主userid'", "bigint(20)"⟩,
  ⟨"register_time", "datetime NOT NULL COMMENT '注册时间'", "datetime"⟩,
  ⟨"remark", "varchar(64) NULL COMMENT '备注'", "varchar(64)"⟩,
  ⟨"update_time", "timestamp NOT NULL DEFAULT CURRENT_TIMESTAMP ON UPDATE CURRENT_TIMESTAMP COMMENT '更新时间'",
    "timestamp"⟩]

def words : List Char → List (List Char)
  | [] => [[]]
  | c :: cs =>
    if c = ' ' then [] :: words cs
    else
      match words cs with
      | [] => [[c]]
      | w :: ws => (c :: w) :: ws

def defaultWord : List (List Char) → Option (List Char)
  | w :: v :: ws => if w = "DEFAULT".toList then some v else defaultWord (v :: ws)
  | _ => none

/-- The declared default of a column of `user`; `none` is `NULL`. -/
def columnDefault (column : String) : Option Bytes := do
  let info ← userFields.find? fun info => info.sName.toList = column.toList
  let word ← defaultWord (words info.sType.toList)
  if word = "NULL".toList then none else some (word.map fun c => UInt8.ofNat c.toNat)

def intDefault (column : String) : Option Int := (columnDefault column).map fun s => (atoi s).toInt

structure UserRow where
  userId : Int
  username : Bytes
  nickname : Bytes
  password : Bytes
  facetype : Option Int := intDefault "facetype"
  customface : Option Bytes := columnDefault "customface"
  gender : Option Int := intDefault "gender"
  birthday : Option Int := intDefault "birthday"
  signature : Option Bytes := columnDefault "signature"
  address : Option Bytes := columnDefault "address"
  phonenumber : Option Bytes := columnDefault "phonenumber"
  mail : Option Bytes := columnDefault "mail"
deriving DecidableEq

structure Server where
  users : List UserRow := []
  /-- the pairs of `user_relationship` -/
  relations : List (Int × Int) := []
deriving DecidableEq

inductive Statement
  | setNames
  | insertUser (userId : Int32) (username nickname password : Bytes)
  | selectUsers
  | selectRelation (userid : Int32)
deriving DecidableEq

namespace Statement

def text : Statement → Bytes
  | setNames => ascii "set names utf8"
  | insertUser userId username nickname password =>
    ascii "INSERT INTO user(user_id,username,nickname,password,register_time)" ++ ascii "VALUES(" ++
      intToString userId.toInt ++ ascii ",'" ++ username ++ ascii "','" ++ nickname ++ ascii "','" ++
      password ++ ascii "',NOW())"
  | selectUsers =>
    ascii "SELECT user_id, username, nickname, password,  facetype, customface, gender, birthday, " ++
      ascii "signature, address, phonenumber, mail FROM user ORDER BY  user_id DESC"
  | selectRelation userid =>
    ascii "SELECT user_id1, user_id2 FROM user_relationship WHERE user_id1=" ++ intToString userid.toInt ++
      ascii " OR user_id2=" ++ intToString userid.toInt ++ ascii " ;"

end Statement

def insertHeader : List Sql.Token := [
  .word (ascii "INSERT"), .word (ascii "INTO"), .word (ascii "user"), .symbol 40, .word (ascii "user_id"),
  .symbol 44, .word (ascii "username"), .symbol 44, .word (ascii "nickname"), .symbol 44,
  .word (ascii "password"), .symbol 44, .word (ascii "register_time"), .symbol 41, .word (ascii "VALUES"),
  .symbol 40]

/-- The values of the `INSERT` that reaches the database: `mysql_query` takes a C string. -/
def insertedValues (userId : Int32) (username nickname password : Bytes) : Option (List (List Sql.Token)) :=
  Sql.valuesBehind insertHeader (cTrunc (Statement.insertUser userId username nickname password).text)

/-- The row the text names, with what its literals denote. A text that is not one `INSERT` of such a row is
taken at its word. -/
def insertedRow (userId : Int32) (username nickname password : Bytes) : UserRow :=
  match insertedValues userId username nickname password with
  | some [_, [.string u], [.string n], [.string p], _] =>
    { userId := userId.toInt, username := u, nickname := n, password := p }
  | _ => { userId := userId.toInt, username, nickname, password }

@[simp] theorem insertedRow_userId (userId : Int32) (username nickname password : Bytes) :
    (insertedRow userId username nickname password).userId = userId.toInt := by
  unfold insertedRow
  split <;> rfl

/-- A second value that is the name's own literal, whatever the others are. -/
theorem insertedRow_username {userId : Int32} {username nickname password : Bytes} {vs : List (List Sql.Token)}
    (h : insertedValues userId username nickname password = some vs) (hname : vs[1]? = some [.string username]) :
    (insertedRow userId username nickname password).username = username := by
  rw [insertedRow, h]
  split
  · next heq =>
    cases heq
    cases hname
    rfl
  · rfl

namespace Server

def apply (s : Server) : Statement → Server
  | .insertUser userId username nickname password =>
    { s with users := s.users ++ [insertedRow userId username nickname password] }
  | _ => s

def usersDesc (s : Server) : List UserRow := s.users.insertionSort fun a b => b.userId ≤ a.userId

def resultRows (s : Server) : Statement → Option (List (List (Option Bytes)))
  | .selectUsers => some <| s.usersDesc.map fun r =>
      [some (intToString r.userId), some r.username, some r.nickname, some r.password,
        r.facetype.map intToString, r.customface, r.gender.map intToString, r.birthday.map intToString,
        r.signature, r.address, r.phonenumber, r.mail]
  | .selectRelation userid => some <|
      (s.relations.filter fun p => p.1 = userid.toInt ∨ p.2 = userid.toInt).map fun p =>
        [some (intToString p.1), some (intToString p.2)]
  | _ => none

def columnNames : Statement → List String
  | .selectUsers => ["user_id", "username", "nickname", "password", "facetype", "customface", "gender",
      "birthday", "signature", "address", "phonenumber", "mail"]
  | .selectRelation _ => ["user_id1", "user_id2"]
  | _ => []

theorem usersDesc_perm (s : Server) : s.usersDesc.Perm s.users := List.perm_insertionSort _ _

theorem length_resultRows {s : Server} {stmt : Statement} {rows : List (List (Option Bytes))}
    (h : s.resultRows stmt = some rows) : ∀ row ∈ rows, row.length = (columnNames stmt).length := by
  cases stmt with
  | setNames => cases h
  | insertUser i u n p => cases h
  | selectUsers =>
    cases h
    intro row hrow
    obtain ⟨r, -, rfl⟩ := List.mem_map.1 hrow
    rfl
  | selectRelation i =>
    cases h
    intro row hrow
    obtain ⟨p, -, rfl⟩ := List.mem_map.1 hrow
    rfl

end Server

/-- What a registration leaves to the table: no picture, female, born on the first of January 1990. -/
theorem columnDefaults : intDefault "facetype" = some 0 ∧ columnDefault "customface" = none ∧
    intDefault "gender" = some 0 ∧ intDefault "birthday" = some 19900101 ∧
    columnDefault "signature" = none ∧ columnDefault "address" = none ∧
    columnDefault "phonenumber" = none ∧ columnDefault "mail" = none := by
  refine ⟨?_, ?_, ?_, ?_, ?_, ?_, ?_, ?_⟩ <;> decide +kernel

end IMServer
