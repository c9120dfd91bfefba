import IMServer.ClientCalls
import IMServer.Database
import IMServer.Rows
import IMServer.Lib.AssocMap

/-!
# `MysqlManager::init`

The database server as far as its schema goes, and how the manager looks for the database and its
tables and creates what is missing. Which text of a `CREATE TABLE` the server can parse, and what
table it makes of it, is a parameter.
-/

namespace IMServer

structure TableInfo where
  sName : String
  sKey : String
  mFields : List FieldInfo

def chatmsgInfo : TableInfo where
  sName := "chatmsg"
  sKey := "PRIMARY KEY (id), INDEX id (id)"
  mFields := [
    ⟨"id", "bigint(20) NOT NULL AUTO_INCREMENT COMMENT '自增ID'", "bigint(20)"⟩,
    ⟨"senderid", "bigint(20) NOT NULL COMMENT '发送者id'", "bigint(20)"⟩,
    ⟨"targetid", "bigint(20) NOT NULL COMMENT '接收者id'", "bigint(20)"⟩,
    ⟨"msgcontent", "blob NOT NULL COMMENT '聊天内容'", "blob"⟩,
    ⟨"create_time", "timestamp NOT NULL DEFAULT CURRENT_TIMESTAMP ON UPDATE CURRENT_TIMESTAMP COMMENT '更新时间'",
      "timestamp"⟩,
    ⟨"remark", "varchar(64) NULL COMMENT '备注'", "varchar(64)"⟩]

def userInfo : TableInfo where
  sName := "user"
  sKey := "PRIMARY KEY (user_id), INDEX user_id (user_id), KEY  id  ( id )"
  mFields := userFields

def relationshipInfo : TableInfo where
  sName := "user_relationship"
  sKey := "PRIMARY KEY (id), INDEX id (id)"
  mFields := [
    ⟨"id", "bigint(20) NOT NULL AUTO_INCREMENT COMMENT '自增ID'", "bigint(20)"⟩,
    ⟨"user_id1", "bigint(20) NOT NULL COMMENT '用户ID'", "bigint(20)"⟩,
    ⟨"user_id2", "bigint(20) NOT NULL COMMENT '用户ID'", "bigint(20)"⟩,
    ⟨"remark", "varchar(64) NULL COMMENT '备注'", "varchar(64)"⟩,
    ⟨"create_time", "timestamp NOT NULL DEFAULT CURRENT_TIMESTAMP ON UPDATE CURRENT_TIMESTAMP COMMENT '更新时间'",
      "timestamp"⟩]

/-- `_mTables`, in the order of its keys. -/
def mTables : List TableInfo := [chatmsgInfo, userInfo, relationshipInfo]

def utf8 (s : String) : Bytes := s.toUTF8.toList

/-- The text of `createTable`; the fields come in the order of their names. -/
def TableInfo.text (info : TableInfo) : Bytes :=
  let fields := info.mFields.insertionSort fun a b => a.sName ≤ b.sName
  utf8 ("create table if not exists " ++ info.sName ++ "(" ++
    ",".intercalate (fields.map fun field => field.sName ++ " " ++ field.sType) ++
    (if info.sKey.isEmpty then "" else "," ++ info.sKey) ++ ") default charset=utf-8,ENGINE=InnoDB;")

/-! ### The server -/

structure Table where
  /-- the rows of `DESC`, one for each column -/
  desc : List (List (Option Bytes))
  rows : List (List (Option Bytes))
  desc_ne_nil : desc ≠ []
  length_desc : ∀ row ∈ desc, row.length = 6

def descColumns : List Bytes :=
  [ascii "Field", ascii "Type", ascii "Null", ascii "Key", ascii "Default", ascii "Extra"]

def Table.descResult (t : Table) : Res := ⟨descColumns, t.desc, t.length_desc⟩

structure SchemaServer where
  port : UInt32
  databases : List (Bytes × List (Bytes × Table)) := []
  /-- no name is empty or holds a zero byte -/
  names_ok : ∀ name, (AssocMap.find databases name).isSome → name ≠ [] ∧ 0 ∉ name

inductive SchemaStatement
  | showDatabases
  | desc (table : Bytes)
  | createDatabase (name : Bytes)
  | createTable (table text : Bytes)

namespace SchemaServer

def hasDatabase (s : SchemaServer) (name : Bytes) : Bool := (AssocMap.find s.databases name).isSome

def table (s : SchemaServer) (database table : Bytes) : Option Table :=
  (AssocMap.find s.databases database).bind (AssocMap.find · table)

def setDatabase (s : SchemaServer) (name : Bytes) (tables : List (Bytes × Table)) (h : name ≠ [] ∧ 0 ∉ name) :
    SchemaServer where
  port := s.port
  databases := AssocMap.insert name tables s.databases
  names_ok name' h' := by
    rw [AssocMap.find_insert] at h'
    split at h'
    · next heq => exact heq ▸ h
    · exact s.names_ok name' h'

/-- `CREATE TABLE IF NOT EXISTS` in a database that exists -/
def addTable (s : SchemaServer) (database table : Bytes) (new : Table) : SchemaServer :=
  match h : AssocMap.find s.databases database with
  | none => s
  | some tables =>
    if (AssocMap.find tables table).isSome then s
    else s.setDatabase database (AssocMap.insert table new tables) (s.names_ok _ (by rw [h]; rfl))

/-- `ER_DB_CREATE_EXISTS`, `ER_NO_DB_ERROR`, `ER_PARSE_ERROR` and `ER_NO_SUCH_TABLE` -/
def dbCreateExists : UInt32 := 1007
def noDbError : UInt32 := 1046
def parseError : UInt32 := 1064
def noSuchTable : UInt32 := 1146

/-- What the server does with a statement it has received, in the database `current`: the error code, and
what there is then. -/
def exec (parse : Bytes → Option Table) (s : SchemaServer) (current : Option Bytes) :
    SchemaStatement → Option UInt32 × SchemaServer
  | .showDatabases => (none, s)
  | .desc table =>
    match current with
    | none => (some noDbError, s)
    | some database => if (s.table database table).isSome then (none, s) else (some noSuchTable, s)
  | .createDatabase name =>
    if h : name ≠ [] ∧ 0 ∉ name then
      if s.hasDatabase name then (some dbCreateExists, s) else (none, s.setDatabase name [] h)
    else (some parseError, s)
  | .createTable table text =>
    match parse text, current with
    | none, _ => (some parseError, s)
    | some _, none => (some noDbError, s)
    | some new, some database =>
      if s.hasDatabase database then (none, s.addTable database table new) else (some noDbError, s)

/-- The result set of a statement that has one. -/
def resultSet (s : SchemaServer) (current : Option Bytes) : SchemaStatement → Option Res
  | .showDatabases => some ⟨[ascii "Database"], s.databases.map fun p => [some p.1], fun row hrow => by
      obtain ⟨p, -, rfl⟩ := List.mem_map.1 hrow
      rfl⟩
  | .desc table => (current.bind (s.table · table)).map Table.descResult
  | _ => none

end SchemaServer

/-- The client library in front of the server. What fails of itself is given in advance, as in `Client`. -/
structure SchemaClient where
  connects : List Bool := []
  queries : List (Option UInt32) := []
  stores : List Bool := []
  names : List Bool := []
  /-- the database of the connection -/
  current : Option Bytes := none
  server : SchemaServer

namespace SchemaClient

/-- With a database name it succeeds only if there is that database. -/
def realConnect (l : Login) (c : SchemaClient) : Bool × SchemaClient :=
  let c' := { c with connects := c.connects.tail }
  if c.connects.headD true = true ∧ l.port = c.server.port ∧ (l.dbName = [] ∨ c.server.hasDatabase l.dbName) then
    (true, { c' with current := if l.dbName = [] then none else some l.dbName })
  else (false, c')

def submit (parse : Bytes → Option Table) (sql : SchemaStatement) (c : SchemaClient) :
    Option UInt32 × SchemaClient :=
  let c' := { c with queries := c.queries.tail }
  match c.queries.headD none with
  | some errno => (some errno, c')
  | none => ((c.server.exec parse c.current sql).1, { c' with server := (c.server.exec parse c.current sql).2 })

/-- A `CREATE DATABASE` affects one row. -/
def changedRows : SchemaStatement → UInt64
  | .createDatabase _ => 1
  | _ => 0

def storeResult (sql : SchemaStatement) (c : SchemaClient) : Stored × SchemaClient :=
  match c.server.resultSet c.current sql with
  | none => (.noResultSet (changedRows sql), c)
  | some res =>
    (if c.stores.headD true then .result res else .failed res.fields.length, { c with stores := c.stores.tail })

def lib (parse : Bytes → Option Table) : ClientLib SchemaClient SchemaStatement where
  realConnect := realConnect
  setNames _ c := { c with queries := c.queries.tail }
  submit _ := submit parse
  affectedRows _ sql _ := (changedRows sql).toNat
  storeResult _ := storeResult
  storeNames c := (c.names.headD true, { c with names := c.names.tail })

end SchemaClient

/-! ### The manager -/

namespace MysqlTool

section
variable (parse : Bytes → Option Table)

def checkDatabase (t : MysqlTool) (c : SchemaClient) : Except Fault (Bool × MysqlTool × SchemaClient) :=
  match t.queryWith (SchemaClient.lib parse) c .showDatabases with
  | (.error e, _) => .error e
  | (.ok none, t, c) => .ok (false, t, c)
  | (.ok (some result), t, c) => .ok ((result.findRow t.dbname (result.rowsLeft + 1)).1, t, c)

/-- The text is cut off at a zero byte of the name. -/
def createDataBase (t : MysqlTool) (c : SchemaClient) : Bool × MysqlTool × SchemaClient :=
  match t.executeWith (SchemaClient.lib parse) c (.createDatabase (cTrunc t.dbname)) 0 with
  | (_, affectRow, t, c) => (affectRow = 1, t, c)

def checkTable (t : MysqlTool) (c : SchemaClient) (tableName : Bytes) :
    Except Fault (Bool × MysqlTool × SchemaClient) :=
  match t.queryWith (SchemaClient.lib parse) c (.desc tableName) with
  | (.error e, _) => .error e
  | (.ok result, t, c) => .ok (result.isSome, t, c)

def createTable (t : MysqlTool) (c : SchemaClient) (info : TableInfo) : Bool × MysqlTool × SchemaClient :=
  if info.mFields = [] then (false, t, c)
  else
    match t.executeWith (SchemaClient.lib parse) c (.createTable (ascii info.sName) info.text) 0 with
    | (ok, _, t, c) => (ok, t, c)

/-- The loop over the tables. -/
def initTables (t : MysqlTool) (c : SchemaClient) :
    List TableInfo → Except Fault (Bool × MysqlTool × SchemaClient)
  | [] => .ok (true, t, c)
  | info :: infos => do
    match ← t.checkTable parse c (ascii info.sName) with
    | (true, t, c) => initTables t c infos
    | (false, t, c) =>
      match t.createTable parse c info with
      | (true, t, c) => initTables t c infos
      | (false, t, c) => return (false, t, c)

/-- `MysqlManager::init`; `l` are its arguments. -/
def init (c : SchemaClient) (l : Login) : Except Fault (Bool × MysqlTool × SchemaClient) :=
  match connectWith (SchemaClient.lib parse) {} c l with
  | (false, t, c) => .ok (false, t, c)
  | (true, t, c) => do
    match ← t.checkDatabase parse c with
    | (true, t, c) => t.initTables parse c mTables
    | (false, t, c) =>
      match t.createDataBase parse c with
      | (true, t, c) => t.initTables parse c mTables
      | (false, t, c) => return (false, t, c)

end

end MysqlTool

end IMServer
