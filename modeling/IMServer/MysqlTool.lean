import IMServer.QueryResult

/-!
# `MysqlTool`

The connection to the database, over any client library: what its calls return is the library's affair.
A statement is submitted over a connection that is open or is opened again, and once more if the connection
was found lost.
-/

namespace IMServer

/-- The arguments of `mysql_real_connect`. -/
structure Login where
  host : Bytes
  user : Bytes
  pwd : Bytes
  dbName : Bytes
  port : UInt32
deriving DecidableEq

/-- What `c_str()` makes of the strings. -/
def Login.cStrs (l : Login) : Login := ⟨cTrunc l.host, cTrunc l.user, cTrunc l.pwd, cTrunc l.dbName, l.port⟩

/-- What is there after `mysql_store_result`. -/
inductive Stored
  | result (res : Res)
  /-- NULL, because the statement has no result set -/
  | noResultSet (affectedRows : UInt64)
  /-- NULL, because the result set could not be read -/
  | failed (fieldCount : Nat)

namespace Stored

def res : Stored → Option Res
  | result res => some res
  | _ => none

/-- `mysql_affected_rows` -/
def affectedRows : Stored → Nat
  | result res => res.rows.length
  | noResultSet n => n.toNat
  | failed _ => 2 ^ 64 - 1

/-- `mysql_field_count` -/
def fieldCount : Stored → Nat
  | result res => res.fields.length
  | noResultSet _ => 0
  | failed n => n

end Stored

/-- The client library in a state `σ`, for statements `Q`. A `Bool` tells whether the handle it is given
is a connection. -/
structure ClientLib (σ Q : Type) where
  realConnect : Login → σ → Bool × σ
  /-- `mysql_query(handle, "set names utf8")` -/
  setNames : Bool → σ → σ
  /-- `mysql_query` and `mysql_real_query`: the error code, `none` for success -/
  submit : Bool → Q → σ → Option UInt32 × σ
  affectedRows : Bool → Q → σ → Nat
  storeResult : Bool → Q → σ → Stored × σ
  /-- not a call: whether the stores of a `QueryResult` behind the end of `_fieldName` do no harm -/
  storeNames : σ → Bool × σ

structure MysqlTool where
  /-- `_mysql` is not null -/
  mysql : Bool := false
  host : Bytes := []
  user : Bytes := []
  pwd : Bytes := []
  dbname : Bytes := []
  port : Bytes := []
deriving DecidableEq

namespace MysqlTool
variable {σ Q : Type}

/-- `CR_SERVER_GONE_ERROR` -/
def serverGoneError : UInt32 := 2006

def defaultPort : UInt32 := 3306

def closeDB (t : MysqlTool) : MysqlTool := { t with mysql := false }

/-- `_port = port` assigns a number to a string: one character. -/
def connectWith (lib : ClientLib σ Q) (t : MysqlTool) (c : σ) (l : Login) : Bool × MysqlTool × σ :=
  let t := t.closeDB
  match lib.realConnect l.cStrs c with
  | (false, c) => (false, t, c)
  | (true, c) =>
    let t : MysqlTool := ⟨true, l.host, l.user, l.pwd, l.dbName, [UInt8.ofNat l.port.toNat]⟩
    (true, t, lib.setNames t.mysql c)

/-- `connect(_host, _user, _pwd, _dbname)` -/
def saved (t : MysqlTool) : Login := ⟨t.host, t.user, t.pwd, t.dbname, defaultPort⟩

/-- What `query` and `execute` do once there is a connection. -/
def submitOpen (lib : ClientLib σ Q) (t : MysqlTool) (c : σ) (sql : Q) : Bool × MysqlTool × σ :=
  match lib.submit t.mysql sql c with
  | (none, c) => (true, t, c)
  | (some errno, c) =>
    if errno = serverGoneError then
      match t.connectWith lib c t.saved with
      | (false, t, c) => (false, t, c)
      | (true, t, c) =>
        match lib.submit t.mysql sql c with
        | (none, c) => (true, t, c)
        | (some _, c) => (false, t, c)
    else (false, t, c)

/-- What `query` and `execute` do to submit a statement. -/
def submitWith (lib : ClientLib σ Q) (t : MysqlTool) (c : σ) (sql : Q) : Bool × MysqlTool × σ :=
  match (if t.mysql then (true, t, c) else t.connectWith lib c t.saved) with
  | (false, t, c) => (false, t, c)
  | (true, t, c) => t.submitOpen lib c sql

/-- `execute(sql, nAffectedRowCount, nErrno)`, with the count as it was; what is left in `nErrno` is not
looked at by any caller. -/
def executeWith (lib : ClientLib σ Q) (t : MysqlTool) (c : σ) (sql : Q) (count : Nat) :
    Bool × Nat × MysqlTool × σ :=
  match t.submitWith lib c sql with
  | (false, t, c) => (false, count, t, c)
  | (true, t, c) => (true, lib.affectedRows t.mysql sql c, t, c)

/-- `query`: what it returns if it does, the tool and the library. A result of no rows is a null pointer. -/
def queryWith (lib : ClientLib σ Q) (t : MysqlTool) (c : σ) (sql : Q) :
    Except Fault (Option QueryResult) × MysqlTool × σ :=
  match t.submitWith lib c sql with
  | (false, t, c) => (.ok none, t, c)
  | (true, t, c) =>
    let (stored, c) := lib.storeResult t.mysql sql c
    if stored.affectedRows = 0 then (.ok none, t, c)
    else
      let (harmless, c) := lib.storeNames c
      ((QueryResult.new harmless stored.res stored.affectedRows stored.fieldCount).map some, t, c)

end MysqlTool

end IMServer
