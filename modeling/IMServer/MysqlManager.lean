import IMServer.ClientCalls
import IMServer.Database

/-!
# `MysqlManager`

The tool over the server's database. What the calls of the client library will return is given in
advance, call by call, and is arbitrary; a statement that fails has no effect on the database.
-/

namespace IMServer

/-- The client library and the server behind it. A call past the end of its list succeeds. -/
structure Client where
  /-- whether `mysql_real_connect` succeeds -/
  connects : List Bool := []
  /-- `mysql_query` and `mysql_real_query`: the error code, `none` for success -/
  queries : List (Option UInt32) := []
  /-- whether `mysql_store_result` can read the result set of a statement that has one -/
  stores : List Bool := []
  /-- whether the stores behind the end of a `_fieldName` do no harm -/
  names : List Bool := []
  server : Server := {}
deriving DecidableEq

namespace Client

def realConnect (c : Client) : Bool × Client :=
  (c.connects.headD true, { c with connects := c.connects.tail })

def query (c : Client) (sql : Statement) : Option UInt32 × Client :=
  let c' := { c with queries := c.queries.tail }
  match c.queries.headD none with
  | some errno => (some errno, c')
  | none => (none, { c' with server := c.server.apply sql })

def changedRows : Statement → UInt64
  | .insertUser .. => 1
  | _ => 0

def storeResult (c : Client) (sql : Statement) : Stored × Client :=
  match h : c.server.resultRows sql with
  | none => (.noResultSet (changedRows sql), c)
  | some rows =>
    (if c.stores.headD true then
      .result ⟨(Server.columnNames sql).map ascii, rows, fun row hrow => by
        rw [List.length_map]; exact Server.length_resultRows h row hrow⟩
      else .failed (Server.columnNames sql).length, { c with stores := c.stores.tail })

def storeNames (c : Client) : Bool × Client := (c.names.headD true, { c with names := c.names.tail })

def lib : ClientLib Client Statement where
  realConnect _ c := c.realConnect
  setNames _ c := (c.query .setNames).2
  submit _ sql c := c.query sql
  affectedRows _ sql _ := (changedRows sql).toNat
  storeResult _ sql c := c.storeResult sql
  storeNames := storeNames

end Client

structure MysqlManager where
  mysqlToolPtr : Option MysqlTool := none
  client : Client := {}
deriving DecidableEq

namespace MysqlManager

def query (m : MysqlManager) (sql : Statement) : Except Fault (Option QueryResult × MysqlManager) :=
  match m.mysqlToolPtr with
  | none => .ok (none, m)
  | some t =>
    match t.queryWith Client.lib m.client sql with
    | (.error e, _) => .error e
    | (.ok q, t, c) => .ok (q, ⟨some t, c⟩)

def excute (m : MysqlManager) (sql : Statement) : Bool × MysqlManager :=
  match m.mysqlToolPtr with
  | none => (false, m)
  | some t =>
    let (ok, _, t, c) := t.executeWith Client.lib m.client sql 0
    (ok, ⟨some t, c⟩)

end MysqlManager

/-! ### What is left in the database -/

namespace Client

theorem server_query {c c' : Client} {sql : Statement} {errno : Option UInt32}
    (h : c.query sql = (errno, c')) :
    c'.server = if errno = none then c.server.apply sql else c.server := by
  unfold query at h
  split at h
  · cases h; rfl
  · cases h; rfl

@[simp] theorem server_storeResult (c : Client) (sql : Statement) :
    (c.storeResult sql).2.server = c.server := by
  unfold storeResult
  split <;> rfl

theorem storeResult_result {c c' : Client} {sql : Statement} {res : Res}
    (h : c.storeResult sql = (.result res, c')) :
    res.fields = (Server.columnNames sql).map ascii ∧ c.server.resultRows sql = some res.rows := by
  unfold storeResult at h
  split at h
  · cases h
  · next rows hrows =>
    split at h
    · cases h; exact ⟨rfl, hrows⟩
    · cases h

end Client

namespace MysqlTool
variable {t t' : MysqlTool} {c c' : Client} {sql : Statement} {ok : Bool}

theorem server_connectWith {l : Login} (h : t.connectWith Client.lib c l = (ok, t', c')) :
    c'.server = c.server := by
  unfold connectWith at h
  split at h
  · next c₁ hc =>
    cases h
    obtain rfl : c.realConnect.2 = c' := congrArg Prod.snd hc
    rfl
  · next c₁ hc =>
    cases h
    obtain rfl : c.realConnect.2 = c₁ := congrArg Prod.snd hc
    show (c.realConnect.2.query .setNames).2.server = c.server
    rw [Client.server_query (Prod.eta _).symm]
    split <;> rfl

theorem Opens.server {calls : List (Call Statement)} (h : Opens Client.lib t c calls t' c') :
    c'.server = c.server := by
  cases h with
  | already _ => rfl
  | again _ hc => exact server_connectWith hc

theorem Submits.server {calls : List (Call Statement)} (h : Submits Client.lib t c sql calls ok t' c') :
    c'.server = if ok then c.server.apply sql else c.server := by
  cases h with
  | closed _ hc => exact server_connectWith hc
  | accepted ho hs => rw [Client.server_query hs, ho.server]; rfl
  | refused ho hs _ => rw [Client.server_query hs, ho.server]; rfl
  | gone ho hs hc => rw [server_connectWith hc, Client.server_query hs, ho.server]; rfl
  | @retried _ _ _ _ _ _ _ errno ho hs hc hs' =>
    rw [Client.server_query hs', server_connectWith hc, Client.server_query hs, ho.server]
    rcases errno with _ | errno <;> rfl

theorem server_submitWith (h : t.submitWith Client.lib c sql = (ok, t', c')) :
    c'.server = if ok then c.server.apply sql else c.server := by
  obtain ⟨calls, ok', t₁, c₁, hsubmits, hrun, -⟩ := submitWith_submits Client.lib t c sql []
  cases hrun.symm.trans h
  exact hsubmits.server

/-- Whatever `query` comes to, with an error or not. -/
theorem server_queryWith (hsql : c.server.apply sql = c.server) :
    (t.queryWith Client.lib c sql).2.2.server = c.server := by
  rcases hrun : t.submitWith Client.lib c sql with ⟨ok, t₁, c₁⟩
  have hserver : c₁.server = c.server := by
    rw [server_submitWith hrun, hsql]
    split <;> rfl
  rcases ok with _ | _
  · rw [queryWith_refused hrun]
    exact hserver
  rcases hstored : c₁.storeResult sql with ⟨stored, c₂⟩
  have hserver₂ : c₂.server = c.server := by
    rw [← hserver, ← Client.server_storeResult c₁ sql, hstored]
  by_cases hzero : stored.affectedRows = 0
  · rw [queryWith_none hrun hstored hzero]
    exact hserver₂
  · rw [queryWith_some hrun hstored hzero]
    exact hserver₂

end MysqlTool

/-- The result set of `sql` over `s`, none of it fetched. -/
structure QueryResult.Delivers (r : QueryResult) (s : Server) (sql : Statement) (res : Res) : Prop where
  res_eq : r.res = some res
  fields_eq : res.fields = (Server.columnNames sql).map ascii
  rows_eq : s.resultRows sql = some res.rows
  currentRow_eq : r.currentRow = res.fields.map fun name => ({} : Field).setName name

theorem MysqlTool.queryWith_delivers {t t' : MysqlTool} {c c' : Client} {sql : Statement} {r : QueryResult}
    (h : t.queryWith Client.lib c sql = (.ok (some r), t', c')) :
    ∃ res, r.Delivers (c.server.apply sql) sql res := by
  rcases hrun : t.submitWith Client.lib c sql with ⟨_ | _, t₁, c₁⟩
  · rw [queryWith_refused hrun] at h
    cases h
  rcases hstored : c₁.storeResult sql with ⟨stored, c₂⟩
  by_cases hzero : stored.affectedRows = 0
  · rw [queryWith_none hrun hstored hzero] at h
    cases h
  rw [queryWith_some hrun hstored hzero] at h
  obtain ⟨q, hnew, hq⟩ := Except.map_eq_ok.1 (congrArg Prod.fst h)
  cases hq
  rcases stored with res | n | n
  · obtain ⟨hfields, hrows⟩ := Client.storeResult_result hstored
    obtain ⟨hres, -, hcur⟩ := QueryResult.new_currentRow hnew rfl
    rw [server_submitWith hrun] at hrows
    exact ⟨res, hres, hfields, hrows, hcur⟩
  · cases hnew
  · cases hnew

namespace MysqlManager

theorem server_excute {m m' : MysqlManager} {sql : Statement} {ok : Bool} (h : m.excute sql = (ok, m')) :
    m'.client.server = if ok then m.client.server.apply sql else m.client.server := by
  unfold excute at h
  split at h
  · cases h; rfl
  · next t ht =>
    rcases hrun : t.submitWith Client.lib m.client sql with ⟨ok', t₁, c₁⟩
    rw [MysqlTool.executeWith_eq hrun] at h
    cases h
    exact MysqlTool.server_submitWith hrun

theorem query_some {m m' : MysqlManager} {sql : Statement} {r : QueryResult}
    (h : m.query sql = .ok (some r, m')) : ∃ res, r.Delivers (m.client.server.apply sql) sql res := by
  unfold query at h
  split at h
  · cases h
  · split at h
    · cases h
    · next hq =>
      cases h
      exact MysqlTool.queryWith_delivers hq

theorem server_query {m m' : MysqlManager} {sql : Statement} {q : Option QueryResult}
    (h : m.query sql = .ok (q, m')) (hsql : m.client.server.apply sql = m.client.server) :
    m'.client.server = m.client.server := by
  unfold query at h
  split at h
  · cases h; rfl
  · next t _ =>
    split at h
    · cases h
    · next hq =>
      cases h
      have hserver := MysqlTool.server_queryWith (t := t) hsql
      rw [hq] at hserver
      exact hserver

end MysqlManager

end IMServer
