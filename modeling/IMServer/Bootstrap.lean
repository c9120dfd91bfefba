import IMServer.Schema
import Mathlib.Data.List.TakeWhile

/-!
# What `init` leaves behind

Whatever fails, `init` only returns `true` if every table is there. But it logs in with the name of the
database, so it never gets as far as creating a database that is missing; and a table that is missing
is created only by a server that takes the text for it.
-/

namespace IMServer

variable {parse : Bytes → Option Table}

namespace SchemaServer
variable {s s' : SchemaServer} {current : Option Bytes} {sql : SchemaStatement} {d t : Bytes}

/-- Every database and every table of `s` is there in `s'`, the tables as they were. -/
structure Grows (s s' : SchemaServer) : Prop where
  database : ∀ d, s.hasDatabase d = true → s'.hasDatabase d = true
  table : ∀ d t content, s.table d t = some content → s'.table d t = some content
  port : s'.port = s.port

theorem Grows.refl (s : SchemaServer) : s.Grows s := ⟨fun _ h => h, fun _ _ _ h => h, rfl⟩

theorem Grows.trans {s'' : SchemaServer} (h : s.Grows s') (h' : s'.Grows s'') : s.Grows s'' :=
  ⟨fun d hd => h'.database d (h.database d hd), fun d t content hc => h'.table d t content (h.table d t content hc),
    h'.port.trans h.port⟩

theorem find_setDatabase (s : SchemaServer) {name : Bytes} (tables : List (Bytes × Table))
    (h : name ≠ [] ∧ 0 ∉ name) (d : Bytes) :
    AssocMap.find (s.setDatabase name tables h).databases d =
      if name = d then some tables else AssocMap.find s.databases d := AssocMap.find_insert ..

theorem table_setDatabase (s : SchemaServer) {name : Bytes} (tables : List (Bytes × Table))
    (h : name ≠ [] ∧ 0 ∉ name) (d t : Bytes) :
    (s.setDatabase name tables h).table d t = if name = d then AssocMap.find tables t else s.table d t := by
  rw [table, find_setDatabase]
  split <;> rfl

theorem grows_setDatabase {name : Bytes} {tables : List (Bytes × Table)} (h : name ≠ [] ∧ 0 ∉ name)
    (hkeep : ∀ t content, s.table name t = some content → AssocMap.find tables t = some content) :
    s.Grows (s.setDatabase name tables h) := by
  refine ⟨fun d hd => ?_, fun d t content hc => ?_, rfl⟩
  · rw [hasDatabase, find_setDatabase]
    split
    · rfl
    · exact hd
  · rw [table_setDatabase]
    split
    · next heq =>
      subst heq
      exact hkeep t content hc
    · exact hc

theorem addTable_cases (s : SchemaServer) (d t : Bytes) (new : Table) :
    (s.addTable d t new = s ∧ (s.hasDatabase d = true → (s.table d t).isSome = true)) ∨
    (s.table d t = none ∧ s.Grows (s.addTable d t new) ∧
      ∀ t', (s.addTable d t new).table d t' = if t = t' then some new else s.table d t') := by
  unfold addTable
  split
  · next h => exact .inl ⟨rfl, fun hd => by rw [hasDatabase, h] at hd; cases hd⟩
  · next tables h =>
    have htable : ∀ t', s.table d t' = AssocMap.find tables t' := fun t' => by rw [table, h]; rfl
    split
    · next hold => exact .inl ⟨rfl, fun _ => by rw [htable]; exact hold⟩
    · next hnew =>
      have hnone : s.table d t = none := by rw [htable]; exact Option.not_isSome_iff_eq_none.1 hnew
      refine .inr ⟨hnone, grows_setDatabase _ fun t' content hc => ?_, fun t' => ?_⟩
      · rw [AssocMap.find_insert, if_neg]
        · rw [← htable, hc]
        · rintro rfl
          cases hnone.symm.trans hc
      · rw [table_setDatabase, if_pos rfl, AssocMap.find_insert, htable]

theorem grows_addTable (s : SchemaServer) (d t : Bytes) (new : Table) : s.Grows (s.addTable d t new) := by
  rcases s.addTable_cases d t new with ⟨heq, -⟩ | ⟨-, hgrows, -⟩
  · rw [heq]
    exact .refl s
  · exact hgrows

theorem grows_exec (parse : Bytes → Option Table) (s : SchemaServer) (current : Option Bytes)
    (sql : SchemaStatement) : s.Grows (s.exec parse current sql).2 := by
  unfold exec
  split
  · exact .refl s
  · split
    · exact .refl s
    · split <;> exact .refl s
  · split
    · next h =>
      split
      · exact .refl s
      · next hnew =>
        refine grows_setDatabase h fun t content hc => ?_
        rw [table, Option.not_isSome_iff_eq_none.1 hnew] at hc
        cases hc
    · exact .refl s
  · split
    · exact .refl s
    · exact .refl s
    · split
      · exact grows_addTable ..
      · exact .refl s

/-- No error of the server is a lost connection. -/
theorem exec_ne_gone (parse : Bytes → Option Table) (s : SchemaServer) (current : Option Bytes)
    (sql : SchemaStatement) : (s.exec parse current sql).1 ≠ some MysqlTool.serverGoneError := by
  have hcodes : some dbCreateExists ≠ some MysqlTool.serverGoneError ∧
      some noDbError ≠ some MysqlTool.serverGoneError ∧ some parseError ≠ some MysqlTool.serverGoneError ∧
      some noSuchTable ≠ some MysqlTool.serverGoneError := by decide
  obtain ⟨hexists, hnoDb, hparse, hnoTable⟩ := hcodes
  unfold exec
  split
  · exact nofun
  · split
    · exact hnoDb
    · split
      · exact nofun
      · exact hnoTable
  · split
    · split
      · exact hexists
      · exact nofun
    · exact hparse
  · split
    · exact hparse
    · exact hnoDb
    · split
      · exact nofun
      · exact hnoDb

theorem exec_desc_ok (h : (s.exec parse current (.desc t)).1 = none) :
    ∃ d, current = some d ∧ (s.table d t).isSome = true := by
  rcases current with _ | d
  · cases h
  · refine ⟨d, rfl, ?_⟩
    by_contra hnone
    rw [exec] at h
    simp only [if_neg hnone] at h
    cases h

theorem exec_createDatabase_ok (h : (s.exec parse current (.createDatabase d)).1 = none) :
    d ≠ [] ∧ s.hasDatabase d = false := by
  rw [exec] at h
  split at h
  · next hname =>
    split at h
    · cases h
    · next hnew => exact ⟨hname.1, by simpa using hnew⟩
  · cases h

theorem exec_createTable_ok {text : Bytes} (h : (s.exec parse current (.createTable t text)).1 = none) :
    ∃ d, current = some d ∧ ((s.exec parse current (.createTable t text)).2.table d t).isSome = true := by
  unfold exec at h ⊢
  dsimp only at h ⊢
  rcases hparse : parse text with _ | new
  · rw [hparse] at h
    cases h
  rcases current with _ | d
  · rw [hparse] at h
    cases h
  rw [hparse] at h
  dsimp only at h ⊢
  by_cases hd : s.hasDatabase d = true
  · refine ⟨d, rfl, ?_⟩
    rw [if_pos hd]
    rcases s.addTable_cases d t new with ⟨heq, hold⟩ | ⟨-, -, htable⟩
    · rw [heq]
      exact hold hd
    · rw [htable, if_pos rfl]
      rfl
  · rw [if_neg hd] at h
    cases h

end SchemaServer

/-! ### What every run keeps -/

open MysqlTool SchemaClient

section
variable {s₀ : SchemaServer} {dbName : Bytes} {t t' : MysqlTool} {c c' : SchemaClient}
  {sql : SchemaStatement} {ok : Bool}

/-- The tool is for the database `dbName` of a server that was `s₀`; a connection that is open is to that
database, or to none if the name is empty. -/
structure Linked (s₀ : SchemaServer) (dbName : Bytes) (t : MysqlTool) (c : SchemaClient) : Prop where
  dbname : t.dbname = dbName
  grows : s₀.Grows c.server
  current : t.mysql = true → c.current = (if cTrunc dbName = [] then none else some (cTrunc dbName)) ∧
    (cTrunc dbName = [] ∨ c.server.hasDatabase (cTrunc dbName) = true)

theorem Linked.rebase (h : Linked s₀ dbName t c) : Linked c.server dbName t c := ⟨h.dbname, .refl _, h.current⟩

theorem server_realConnect (l : Login) (c : SchemaClient) : (realConnect l c).2.server = c.server := by
  unfold realConnect
  dsimp only
  split <;> rfl

theorem realConnect_true {l : Login} (h : realConnect l c = (true, c')) :
    c'.server = c.server ∧ c'.current = (if l.dbName = [] then none else some l.dbName) ∧
      (l.dbName = [] ∨ c.server.hasDatabase l.dbName = true) := by
  unfold realConnect at h
  dsimp only at h
  split at h
  · next hcond =>
    cases h
    exact ⟨rfl, rfl, hcond.2.2⟩
  · cases h

theorem linked_connect {l : Login} (hgrows : s₀.Grows c.server)
    (h : t.connectWith (lib parse) c l = (true, t', c')) : Linked s₀ l.dbName t' c' := by
  have ht := connectWith_true h
  unfold connectWith at h
  rcases hreal : (lib parse).realConnect l.cStrs c with ⟨_ | _, c₁⟩ <;> rw [hreal] at h
  · cases h
  · cases h
    obtain ⟨hserver, hcurrent, hdb⟩ := realConnect_true hreal
    refine ⟨rfl, ?_, fun _ => ⟨hcurrent, ?_⟩⟩
    · show s₀.Grows c₁.server
      rw [hserver]
      exact hgrows
    · show _ ∨ c₁.server.hasDatabase _ = true
      rw [hserver]
      exact hdb

theorem server_connectWith {l : Login} (h : t.connectWith (lib parse) c l = (false, t', c')) :
    c'.server = c.server := by
  unfold connectWith at h
  rcases hreal : (lib parse).realConnect l.cStrs c with ⟨_ | _, c₁⟩ <;> rw [hreal] at h
  · cases h
    rw [← server_realConnect l.cStrs c]
    exact congrArg (fun p => p.2.server) hreal.symm
  · cases h

theorem submit_cases {errno : Option UInt32} (h : (lib parse).submit true sql c = (errno, c')) :
    c'.current = c.current ∧ c.server.Grows c'.server ∧
      (errno = none → (c.server.exec parse c.current sql).1 = none ∧
        c'.server = (c.server.exec parse c.current sql).2) := by
  have hsubmit : SchemaClient.submit parse sql c = (errno, c') := h
  unfold SchemaClient.submit at hsubmit
  dsimp only at hsubmit
  split at hsubmit
  · cases hsubmit
    exact ⟨rfl, .refl _, nofun⟩
  · cases hsubmit
    exact ⟨rfl, SchemaServer.grows_exec .., fun h => ⟨h, rfl⟩⟩

theorem keptBy_linked (parse : Bytes → Option Table) (sql : SchemaStatement) (s₀ : SchemaServer) (dbName : Bytes) :
    KeptBy (lib parse) sql (Linked s₀ dbName) := by
  constructor
  · intro t c ok t' c' h hc
    rcases ok with _ | _
    · refine ⟨?_, ?_, ?_⟩
      · rw [connectWith_false hc]
        exact h.dbname
      · rw [server_connectWith hc]
        exact h.grows
      · rw [connectWith_false hc]
        exact nofun
    · have hlink := linked_connect h.grows hc
      rwa [show t.saved.dbName = dbName from h.dbname] at hlink
  · intro t c errno c' h hs
    obtain ⟨hcurrent, hgrows, -⟩ := submit_cases hs
    refine ⟨h.dbname, h.grows.trans hgrows, fun hm => ?_⟩
    rw [hcurrent]
    exact ⟨(h.current hm).1, (h.current hm).2.imp_right (hgrows.database _)⟩

/-- A statement that was accepted was executed over the database. -/
theorem Linked.accepted (h : Linked s₀ dbName t c) {calls : List (Call SchemaStatement)}
    (hs : Submits (lib parse) t c sql calls true t' c') :
    Linked s₀ dbName t' c' ∧ ∃ c₁, Linked s₀ dbName t' c₁ ∧ c'.current = c₁.current ∧
      (c₁.server.exec parse c₁.current sql).1 = none ∧ c'.server = (c₁.server.exec parse c₁.current sql).2 := by
  have hkept := keptBy_linked parse sql s₀ dbName
  obtain ⟨c₁, hlink, hsubmit⟩ := hkept.accepted hs rfl h
  obtain ⟨hcurrent, -, hexec⟩ := submit_cases hsubmit
  exact ⟨hkept.submits hs h, c₁, hlink, hcurrent, hexec rfl⟩

theorem server_storeResult (sql : SchemaStatement) (c : SchemaClient) :
    (storeResult sql c).2.server = c.server ∧ (storeResult sql c).2.current = c.current := by
  unfold storeResult
  split <;> exact ⟨rfl, rfl⟩

theorem Linked.storeResult (h : Linked s₀ dbName t c) (sql : SchemaStatement) :
    Linked s₀ dbName t (SchemaClient.storeResult sql c).2 := by
  obtain ⟨hserver, hcurrent⟩ := server_storeResult sql c
  refine ⟨h.dbname, ?_, ?_⟩
  · rw [hserver]
    exact h.grows
  · rw [hserver, hcurrent]
    exact h.current

theorem Linked.storeNames (h : Linked s₀ dbName t c) : Linked s₀ dbName t ((lib parse).storeNames c).2 :=
  ⟨h.dbname, h.grows, h.current⟩

theorem stored_of_wrapped {harmless : Bool} {r : QueryResult} {stored : Stored}
    (hs : (SchemaClient.storeResult sql c).1 = stored)
    (hr : (QueryResult.new harmless stored.res stored.affectedRows stored.fieldCount).map some = .ok (some r)) :
    ∃ res, c.server.resultSet c.current sql = some res ∧
      QueryResult.new harmless (some res) res.rows.length res.fields.length = .ok r := by
  subst hs
  obtain ⟨r', hnew, hr'⟩ := Except.map_eq_ok.1 hr
  cases hr'
  unfold SchemaClient.storeResult at hnew
  rcases hres : c.server.resultSet c.current sql with _ | res
  · rw [hres] at hnew
    cases hnew
  · rw [hres] at hnew
    dsimp only at hnew
    split at hnew
    · exact ⟨res, rfl, hnew⟩
    · cases hnew

/-- A query leaves everything linked, and a result means that the statement was accepted. -/
theorem Linked.queryWith (h : Linked s₀ dbName t c) {q : Except Fault (Option QueryResult)}
    (hq : t.queryWith (lib parse) c sql = (q, t', c')) :
    Linked s₀ dbName t' c' ∧ ∀ r, q = .ok (some r) → ∃ calls c₂,
      Submits (lib parse) t c sql calls true t' c₂ ∧ c'.server = c₂.server ∧
      ∃ res harmless, c₂.server.resultSet c₂.current sql = some res ∧
        QueryResult.new harmless (some res) res.rows.length res.fields.length = .ok r := by
  obtain ⟨calls, ok, t₁, c₁, hsubmits, hrun, -⟩ := submitWith_submits (lib parse) t c sql []
  have hlink := (keptBy_linked parse sql s₀ dbName).submits hsubmits h
  rcases ok with _ | _
  · rw [queryWith_refused hrun] at hq
    cases hq
    exact ⟨hlink, nofun⟩
  rcases hstored : SchemaClient.storeResult sql c₁ with ⟨stored, c₂⟩
  have hlink₂ := hlink.storeResult sql
  have hserver := (server_storeResult sql c₁).1
  rw [hstored] at hlink₂ hserver
  by_cases hzero : stored.affectedRows = 0
  · rw [queryWith_none hrun hstored hzero] at hq
    cases hq
    exact ⟨hlink₂, nofun⟩
  · rw [queryWith_some hrun hstored hzero] at hq
    cases hq
    refine ⟨hlink₂.storeNames, fun r hr => ⟨calls, c₁, hsubmits, hserver, ?_⟩⟩
    obtain ⟨res, hres, hnew⟩ := stored_of_wrapped (congrArg Prod.fst hstored) hr
    exact ⟨res, _, hres, hnew⟩

/-- The current database of an open connection. -/
theorem Linked.current_eq (h : Linked s₀ dbName t c) (hm : t.mysql = true) {d : Bytes} (hd : c.current = some d) :
    d = cTrunc dbName := by
  have hcurrent := (h.current hm).1
  rw [hd] at hcurrent
  split at hcurrent
  · cases hcurrent
  · exact Option.some.inj hcurrent

theorem Linked.checkTable (h : Linked s₀ dbName t c) {name : Bytes}
    (hc : t.checkTable parse c name = .ok (ok, t', c')) :
    Linked s₀ dbName t' c' ∧ (ok = true → (c'.server.table (cTrunc dbName) name).isSome = true) := by
  unfold MysqlTool.checkTable at hc
  rcases hq : t.queryWith (lib parse) c (.desc name) with ⟨_ | result, t₁, c₁⟩ <;> rw [hq] at hc
  · cases hc
  cases hc
  obtain ⟨hlink, hresult⟩ := h.queryWith hq
  refine ⟨hlink, fun hsome => ?_⟩
  obtain ⟨r, rfl⟩ := Option.isSome_iff_exists.1 hsome
  obtain ⟨calls, c₂, hs, hserver₂, -⟩ := hresult r rfl
  obtain ⟨-, c₃, hlink₃, -, hexec, hserver⟩ := h.accepted hs
  obtain ⟨d, hd, htable⟩ := SchemaServer.exec_desc_ok hexec
  obtain ⟨content, hcontent⟩ := Option.isSome_iff_exists.1 htable
  rw [hserver₂, hserver, ← hlink₃.current_eq (hs.mysql rfl) hd,
    (SchemaServer.grows_exec parse _ _ _).table d name content hcontent]
  rfl

theorem Linked.execute (h : Linked s₀ dbName t c) {count n : Nat}
    (hc : t.executeWith (lib parse) c sql count = (ok, n, t', c')) :
    ∃ calls, Submits (lib parse) t c sql calls ok t' c' ∧ Linked s₀ dbName t' c' ∧ (ok = false → n = count) := by
  obtain ⟨calls, ok₁, t₁, c₁, hsubmits, hrun, -⟩ := submitWith_submits (lib parse) t c sql []
  rw [executeWith_eq hrun] at hc
  cases hc
  refine ⟨calls, hsubmits, (keptBy_linked parse sql s₀ dbName).submits hsubmits h, fun hfalse => ?_⟩
  rw [hfalse]
  rfl

theorem Linked.createTable (h : Linked s₀ dbName t c) {info : TableInfo}
    (hc : t.createTable parse c info = (ok, t', c')) :
    Linked s₀ dbName t' c' ∧ (ok = true → (c'.server.table (cTrunc dbName) (ascii info.sName)).isSome = true) := by
  unfold MysqlTool.createTable at hc
  split at hc
  · cases hc
    exact ⟨h, nofun⟩
  rcases he : t.executeWith (lib parse) c (.createTable (ascii info.sName) info.text) 0 with ⟨ok₁, n, t₁, c₁⟩
  rw [he] at hc
  cases hc
  obtain ⟨calls, hs, hlink, -⟩ := h.execute he
  refine ⟨hlink, fun hok => ?_⟩
  subst hok
  obtain ⟨-, c₂, hlink₂, -, hexec, hserver⟩ := h.accepted hs
  obtain ⟨d, hd, htable⟩ := SchemaServer.exec_createTable_ok hexec
  rw [hserver, ← hlink₂.current_eq (hs.mysql rfl) hd]
  exact htable

/-- There is a connection only if there is the database, so it is never created. -/
theorem Linked.createDataBase (parse : Bytes → Option Table) (h : Linked s₀ dbName t c) :
    (t.createDataBase parse c).1 = false := by
  unfold MysqlTool.createDataBase
  rcases he : t.executeWith (lib parse) c (.createDatabase (cTrunc t.dbname)) 0 with ⟨ok, n, t₁, c₁⟩
  obtain ⟨calls, hs, -, hcount⟩ := h.execute he
  refine decide_eq_false fun hone => ?_
  rcases ok with _ | _
  · rw [hcount rfl] at hone
    cases hone
  · obtain ⟨-, c₂, hlink₂, -, hexec, -⟩ := h.accepted hs
    rw [h.dbname] at hexec
    obtain ⟨hne, hnew⟩ := SchemaServer.exec_createDatabase_ok hexec
    rcases (hlink₂.current (hs.mysql rfl)).2 with hnil | hold
    · exact hne hnil
    · rw [hnew] at hold
      cases hold

theorem findRow_new {harmless : Bool} {res : Res} {n : Nat} {r : QueryResult} {name : Bytes}
    (h : QueryResult.new harmless (some res) n res.fields.length = .ok r) (hc : 0 < res.fields.length) :
    (r.findRow name (r.rowsLeft + 1)).1 = res.rows.any (holdsName name) := by
  obtain ⟨hres, -, hcur⟩ := QueryResult.new_currentRow h rfl
  have hleft : r.rowsLeft = res.rows.length := by rw [QueryResult.rowsLeft, hres]; rfl
  rw [hleft]
  exact QueryResult.findRow_eq_any res.rows_length hres (by rw [hcur, List.length_map]) hc

theorem any_holdsName (s : SchemaServer) (name : Bytes) :
    (s.databases.map fun p => [some p.1]).any (holdsName name) = s.hasDatabase name := by
  rw [Bool.eq_iff_iff, List.any_eq_true, SchemaServer.hasDatabase, Option.isSome_iff_ne_none, Ne,
    AssocMap.find_eq_none, not_not]
  constructor
  · rintro ⟨row, hrow, hname⟩
    obtain ⟨p, hp, rfl⟩ := List.mem_map.1 hrow
    exact List.mem_map.2 ⟨p, hp, (of_decide_eq_true hname).symm⟩
  · intro h
    obtain ⟨p, hp, rfl⟩ := List.mem_map.1 h
    exact ⟨_, List.mem_map.2 ⟨p, hp, rfl⟩, decide_eq_true rfl⟩

theorem Linked.checkDatabase (h : Linked s₀ dbName t c) (hc : t.checkDatabase parse c = .ok (ok, t', c')) :
    Linked s₀ dbName t' c' ∧ (ok = true → c'.server.hasDatabase dbName = true) := by
  unfold MysqlTool.checkDatabase at hc
  rcases hq : t.queryWith (lib parse) c .showDatabases with ⟨_ | _ | r, t₁, c₁⟩ <;> rw [hq] at hc
  · cases hc
  · cases hc
    exact ⟨(h.queryWith hq).1, nofun⟩
  · obtain ⟨hlink, hresult⟩ := h.queryWith hq
    obtain ⟨calls, c₂, -, hserver, res, harmless, hres, hnew⟩ := hresult r rfl
    cases hres
    cases hc
    refine ⟨hlink, fun hfound => ?_⟩
    rw [findRow_new hnew Nat.one_pos, hlink.dbname] at hfound
    rw [hserver, ← any_holdsName]
    exact hfound

def HasTables (s : SchemaServer) (database : Bytes) (infos : List TableInfo) : Prop :=
  ∀ info ∈ infos, (s.table database (ascii info.sName)).isSome = true

/-- `true` means that every table is there. -/
theorem Linked.initTables (h : Linked s₀ dbName t c) {infos : List TableInfo}
    (hc : t.initTables parse c infos = .ok (true, t', c')) :
    Linked s₀ dbName t' c' ∧ HasTables c'.server (cTrunc dbName) infos := by
  induction infos generalizing t c s₀ with
  | nil =>
    cases hc
    exact ⟨h, nofun⟩
  | cons info infos ih =>
    have hnext : ∀ {t₁ c₁}, Linked s₀ dbName t₁ c₁ →
        (c₁.server.table (cTrunc dbName) (ascii info.sName)).isSome = true →
        t₁.initTables parse c₁ infos = .ok (true, t', c') →
        Linked s₀ dbName t' c' ∧ HasTables c'.server (cTrunc dbName) (info :: infos) := by
      intro t₁ c₁ hlink htable hrest
      obtain ⟨content, hcontent⟩ := Option.isSome_iff_exists.1 htable
      have hkeep := (ih hlink.rebase hrest).1.grows.table _ _ content hcontent
      refine ⟨(ih hlink hrest).1, List.forall_mem_cons.2 ⟨?_, (ih hlink hrest).2⟩⟩
      rw [hkeep]
      rfl
    unfold MysqlTool.initTables at hc
    obtain ⟨⟨ok, t₁, c₁⟩, hcheck, hc⟩ := Except.bind_eq_ok.1 hc
    obtain ⟨hlink, htable⟩ := h.checkTable hcheck
    rcases ok with _ | _
    · dsimp only at hc
      rcases hcreate : t₁.createTable parse c₁ info with ⟨_ | _, t₂, c₂⟩ <;> rw [hcreate] at hc
      · cases hc
      · obtain ⟨hlink₂, htable₂⟩ := hlink.createTable hcreate
        exact hnext hlink₂ (htable₂ rfl) hc
    · exact hnext hlink (htable rfl) hc

theorem cTrunc_eq_self {s : SchemaServer} {name : Bytes} (h : s.hasDatabase name = true) : cTrunc name = name :=
  cTrunc_of_notMem (s.names_ok name h).2

/-- The one way to `true`: the database would have to be created otherwise, and it never is. -/
theorem init_steps {l : Login} (h : init parse c l = .ok (true, t', c')) :
    ∃ t₁ c₁ t₂ c₂, connectWith (lib parse) {} c l = (true, t₁, c₁) ∧
      t₁.checkDatabase parse c₁ = .ok (true, t₂, c₂) ∧ t₂.initTables parse c₂ mTables = .ok (true, t', c') := by
  unfold init at h
  rcases hc : connectWith (lib parse) {} c l with ⟨_ | _, t₁, c₁⟩ <;> rw [hc] at h
  · cases h
  obtain ⟨⟨ok, t₂, c₂⟩, hcheck, h⟩ := Except.bind_eq_ok.1 h
  rcases ok with _ | _
  · dsimp only at h
    have hfalse := ((linked_connect (.refl _) hc).checkDatabase hcheck).1.createDataBase parse
    rcases hcreate : t₂.createDataBase parse c₂ with ⟨_ | _, t₃, c₃⟩ <;> rw [hcreate] at h hfalse
    · cases h
    · cases hfalse
  · exact ⟨t₁, c₁, t₂, c₂, rfl, hcheck, h⟩

/-- Whatever fails: `true` means that the database and every table is there. -/
theorem init_true {l : Login} (h : init parse c l = .ok (true, t', c')) :
    HasTables c'.server l.dbName mTables ∧ c'.server.hasDatabase l.dbName = true ∧ c.server.Grows c'.server := by
  obtain ⟨t₁, c₁, t₂, c₂, hconnect, hcheck, htables⟩ := init_steps h
  obtain ⟨hlink, hdb⟩ := (linked_connect (.refl _) hconnect).checkDatabase hcheck
  obtain ⟨hlink', hall⟩ := hlink.initTables htables
  have hkeep := (hlink.rebase.initTables htables).1.grows.database _ (hdb rfl)
  rw [cTrunc_eq_self hkeep] at hall
  exact ⟨hall, hkeep, hlink'.grows⟩

end

/-! ### Nothing fails -/

section
variable {t : MysqlTool} {s : SchemaServer} {current : Option Bytes} {names : List Bool} {d : Bytes}

/-- The library in front of `s`, when no call fails of itself; `names` is what becomes of the stores behind
`_fieldName`, object by object. -/
def quiet (current : Option Bytes) (names : List Bool) (s : SchemaServer) : SchemaClient :=
  { current := current, names := names, server := s }

theorem submitWith_quiet (parse : Bytes → Option Table) (s : SchemaServer) (current : Option Bytes)
    (names : List Bool) (hm : t.mysql = true) (sql : SchemaStatement) :
    t.submitWith (lib parse) (quiet current names s) sql =
      ((s.exec parse current sql).1.isNone, t, quiet current names (s.exec parse current sql).2) := by
  have hsubmit : (lib parse).submit t.mysql sql (quiet current names s) =
      ((s.exec parse current sql).1, quiet current names (s.exec parse current sql).2) := rfl
  rw [submitWith, if_pos hm]
  dsimp only
  rw [submitOpen, hsubmit]
  rcases hexec : (s.exec parse current sql).1 with _ | errno
  · rfl
  · have hgone : errno ≠ serverGoneError := by
      rintro rfl
      exact s.exec_ne_gone parse current sql hexec
    dsimp only
    rw [if_neg hgone]
    rfl

/-- A result set with rows is wrapped, if its columns can be named. -/
theorem queryWith_quiet (hm : t.mysql = true) {sql : SchemaStatement} {res : Res}
    (hexec : s.exec parse current sql = (none, s)) (hres : s.resultSet current sql = some res)
    (hrows : res.rows.length ≠ 0) :
    t.queryWith (lib parse) (quiet current names s) sql =
      ((QueryResult.new (names.headD true) (some res) res.rows.length res.fields.length).map some, t,
        quiet current names.tail s) := by
  have hrun := submitWith_quiet parse s current names hm sql
  have hstored : (lib parse).storeResult t.mysql sql (quiet current names s) =
      (.result res, quiet current names s) := by
    have hset : (quiet current names s).server.resultSet (quiet current names s).current sql = some res := hres
    show SchemaClient.storeResult sql (quiet current names s) = _
    rw [SchemaClient.storeResult, hset]
    rfl
  rw [hexec] at hrun
  exact queryWith_some hrun hstored hrows

/-- `DESC` of a table that is there, and of one that is not. -/
theorem checkTable_quiet (parse : Bytes → Option Table) (hm : t.mysql = true) (names : List Bool) (name : Bytes) :
    t.checkTable parse (quiet (some d) names s) name =
      if (s.table d name).isSome then
        if names.headD true then .ok (true, t, quiet (some d) names.tail s) else .error .outOfBounds
      else .ok (false, t, quiet (some d) names s) := by
  rcases htable : s.table d name with _ | content
  · have hexec : s.exec parse (some d) (.desc name) = (some SchemaServer.noSuchTable, s) := by
      rw [SchemaServer.exec, htable]
      rfl
    have hrun := submitWith_quiet parse s (some d) names hm (.desc name)
    rw [hexec] at hrun
    rw [checkTable, queryWith_refused hrun]
    rfl
  · have hexec : s.exec parse (some d) (.desc name) = (none, s) := by
      rw [SchemaServer.exec, htable]
      rfl
    have hres : s.resultSet (some d) (.desc name) = some content.descResult := by
      show (s.table d name).map Table.descResult = _
      rw [htable]
      rfl
    have hrows : content.descResult.rows.length ≠ 0 := fun h => content.desc_ne_nil (List.length_eq_zero_iff.1 h)
    rw [checkTable, queryWith_quiet hm hexec hres hrows]
    cases names.headD true <;> rfl

theorem createTable_quiet (hm : t.mysql = true) (hd : s.hasDatabase d = true) {info : TableInfo}
    (hf : info.mFields ≠ []) :
    t.createTable parse (quiet (some d) names s) info =
      match parse info.text with
      | none => (false, t, quiet (some d) names s)
      | some new => (true, t, quiet (some d) names (s.addTable d (ascii info.sName) new)) := by
  have hrun := submitWith_quiet parse s (some d) names hm
    (.createTable (ascii info.sName) info.text)
  rw [MysqlTool.createTable, if_neg hf, executeWith_eq hrun]
  rcases hparse : parse info.text with _ | new
  · have hexec : s.exec parse (some d) (.createTable (ascii info.sName) info.text) =
        (some SchemaServer.parseError, s) := by
      unfold SchemaServer.exec
      dsimp only
      rw [hparse]
    rw [hexec]
    rfl
  · have hexec : s.exec parse (some d) (.createTable (ascii info.sName) info.text) =
        (none, s.addTable d (ascii info.sName) new) := by
      unfold SchemaServer.exec
      dsimp only
      rw [hparse]
      exact if_pos hd
    rw [hexec]
    rfl

/-- On a server that has a database. -/
theorem checkDatabase_quiet (hm : t.mysql = true) (hd : s.hasDatabase d = true) :
    t.checkDatabase parse (quiet current names s) =
      if names.headD true then .ok (s.hasDatabase t.dbname, t, quiet current names.tail s)
      else .error .outOfBounds := by
  obtain ⟨res, hres⟩ : ∃ res, s.resultSet current .showDatabases = some res := ⟨_, rfl⟩
  have hone : res.fields.length = 1 := by
    cases hres
    rfl
  have hany : ∀ name, res.rows.any (holdsName name) = s.hasDatabase name := by
    intro name
    rw [← any_holdsName]
    cases hres
    rfl
  have hrows : res.rows.length ≠ 0 := by
    intro hzero
    rw [← hany, List.length_eq_zero_iff.1 hzero] at hd
    cases hd
  rw [checkDatabase, queryWith_quiet hm rfl hres hrows]
  cases hname : names.headD true with
  | false =>
    rw [QueryResult.new, if_neg (by rw [hone]; simp)]
    rfl
  | true =>
    obtain ⟨r, hr⟩ := (QueryResult.new_returns true (some res) res.rows.length res.fields.length).2
      ⟨Option.some_ne_none _, .inr rfl⟩
    rw [hr, ← hany, ← findRow_new hr (by rw [hone]; exact Nat.one_pos)]
    rfl

/-- The table is there, or the server takes the text that creates it. -/
def CanHave (parse : Bytes → Option Table) (s : SchemaServer) (d : Bytes) (info : TableInfo) : Prop :=
  (s.table d (ascii info.sName)).isSome = true ∨ (parse info.text).isSome = true

theorem table_addTable_ne (hd : s.hasDatabase d = true) {name name' : Bytes} (hnew : s.table d name = none)
    (hne : name ≠ name') (new : Table) : (s.addTable d name new).table d name' = s.table d name' := by
  rcases s.addTable_cases d name new with ⟨-, hold⟩ | ⟨-, -, htable⟩
  · have hsome := hold hd
    rw [hnew] at hsome
    cases hsome
  · rw [htable, if_neg hne]

/-- How many of the tables are there. -/
def present (s : SchemaServer) (d : Bytes) (infos : List TableInfo) : Nat :=
  infos.countP fun info => (s.table d (ascii info.sName)).isSome

theorem take_succ_all {names : List Bool} {n : Nat} :
    (∀ ok ∈ names.take (n + 1), ok = true) ↔ names.headD true = true ∧ ∀ ok ∈ names.tail.take n, ok = true := by
  cases names with
  | nil => simp
  | cons ok names => rw [List.take_succ_cons, List.forall_mem_cons]; rfl

theorem initTables_quiet (parse : Bytes → Option Table) (hm : t.mysql = true) (hd : s.hasDatabase d = true)
    {infos : List TableInfo} (hf : ∀ info ∈ infos, info.mFields ≠ [])
    (hnd : (infos.map fun info => ascii info.sName).Nodup) (names : List Bool) :
    (∃ t' c', t.initTables parse (quiet (some d) names s) infos = .ok (true, t', c')) ↔
      (∀ info ∈ infos, CanHave parse s d info) ∧ ∀ ok ∈ names.take (present s d infos), ok = true := by
  induction infos generalizing s names with
  | nil => exact iff_of_true ⟨_, _, rfl⟩ ⟨nofun, nofun⟩
  | cons info infos ih =>
    obtain ⟨hf₁, hf⟩ := List.forall_mem_cons.1 hf
    obtain ⟨hname, hnd⟩ := List.nodup_cons.1 hnd
    rw [initTables, checkTable_quiet parse hm, List.forall_mem_cons]
    rcases htable : s.table d (ascii info.sName) with _ | content
    · have hcount : present s d (info :: infos) = present s d infos :=
        List.countP_cons_of_neg (by rw [htable]; exact nofun)
      rw [Option.isSome_none, if_neg Bool.false_ne_true, Except.ok_bind, hcount]
      dsimp only
      rw [createTable_quiet hm hd hf₁]
      rcases hparse : parse info.text with _ | new
      · refine iff_of_false ?_ fun h => ?_
        · rintro ⟨t', c', h⟩
          cases h
        · rcases h.1.1 with hold | haccept
          · rw [htable] at hold
            cases hold
          · rw [hparse] at haccept
            cases haccept
      · have hhead : CanHave parse s d info := .inr (by rw [hparse]; rfl)
        -- the tables behind have other names, and the new one is not theirs
        have hother : ∀ info' ∈ infos,
            (s.addTable d (ascii info.sName) new).table d (ascii info'.sName) = s.table d (ascii info'.sName) := by
          intro info' hmem
          exact table_addTable_ne hd htable (fun h => hname (List.mem_map.2 ⟨info', hmem, h.symm⟩)) new
        have hpresent : present (s.addTable d (ascii info.sName) new) d infos = present s d infos :=
          List.countP_congr fun info' hmem => by rw [hother info' hmem]
        refine (ih ((s.grows_addTable d (ascii info.sName) new).database d hd) hf hnd names).trans ?_
        rw [hpresent]
        refine and_congr_left' ⟨fun h => ⟨hhead, fun info' hmem => ?_⟩, fun h info' hmem => ?_⟩
        · have hcan := h info' hmem
          rwa [CanHave, hother info' hmem] at hcan
        · rw [CanHave, hother info' hmem]
          exact h.2 info' hmem
    · have hhead : CanHave parse s d info := .inl (by rw [htable]; rfl)
      have hcount : present s d (info :: infos) = present s d infos + 1 :=
        List.countP_cons_of_pos (by rw [htable]; rfl)
      rw [Option.isSome_some, if_pos rfl, hcount, take_succ_all]
      cases names.headD true with
      | true =>
        rw [if_pos rfl, Except.ok_bind]
        refine (ih hd hf hnd names.tail).trans ?_
        exact and_congr ⟨fun h => ⟨hhead, h⟩, fun h => h.2⟩ ⟨fun h => ⟨rfl, h⟩, fun h => h.2⟩
      | false =>
        rw [if_neg Bool.false_ne_true]
        refine iff_of_false ?_ fun h => nomatch h.2.1
        rintro ⟨t', c', h⟩
        cases h

theorem mTables_mFields : ∀ info ∈ mTables, info.mFields ≠ [] :=
  List.forall_mem_cons.2 ⟨nofun, List.forall_mem_cons.2 ⟨nofun, List.forall_mem_cons.2 ⟨nofun, nofun⟩⟩⟩

theorem mTables_names : (mTables.map fun info => ascii info.sName).Nodup := by decide

theorem realConnect_quiet {l : Login} (hport : l.port = s.port) :
    realConnect l (quiet none names s) =
      if l.dbName = [] ∨ s.hasDatabase l.dbName = true then
        (true, quiet (if l.dbName = [] then none else some l.dbName) names s)
      else (false, quiet none names s) := by
  unfold realConnect
  dsimp only
  by_cases hdb : l.dbName = [] ∨ s.hasDatabase l.dbName = true
  · rw [if_pos hdb, if_pos ⟨rfl, hport, hdb⟩]
    rfl
  · rw [if_neg hdb, if_neg (fun h => hdb h.2.2)]
    rfl

theorem connected_quiet {l : Login} {t' : MysqlTool} {c' : SchemaClient}
    (h : t.connectWith (lib parse) (quiet none names s) l = (true, t', c')) :
    ∃ current, c' = quiet current names s := by
  unfold connectWith at h
  split at h
  · cases h
  · next c₁ hc =>
    cases h
    have hreal : realConnect l.cStrs (quiet none names s) = (true, c₁) := hc
    unfold realConnect at hreal
    dsimp only at hreal
    split at hreal
    · cases hreal
      exact ⟨_, rfl⟩
    · cases hreal

/-- `SHOW DATABASES` only looks. -/
theorem server_checkDatabase {t' : MysqlTool} {c' : SchemaClient} {ok : Bool} (hm : t.mysql = true)
    (h : t.checkDatabase parse (quiet current names s) = .ok (ok, t', c')) : c'.server = s := by
  have hrun := submitWith_quiet parse s current names hm .showDatabases
  have hserver : (t.queryWith (lib parse) (quiet current names s) .showDatabases).2.2.server = s := by
    rcases (queryWith_state hrun).2 with hstate | hstate | hstate <;> rw [hstate]
    · rfl
    · exact (server_storeResult ..).1
    · exact (server_storeResult .showDatabases _).1
  unfold checkDatabase at h
  split at h
  · cases h
  · next hq =>
    cases h
    rw [hq] at hserver
    exact hserver
  · next hq =>
    cases h
    rw [hq] at hserver
    exact hserver

/-- Nothing creates the database, so it was there. -/
theorem init_database {l : Login} {t' : MysqlTool} {c' : SchemaClient}
    (h : init parse (quiet none names s) l = .ok (true, t', c')) : s.hasDatabase l.dbName = true := by
  obtain ⟨t₁, c₁, t₂, c₂, hconnect, hcheck, -⟩ := init_steps h
  have hdb := ((linked_connect (.refl _) hconnect).checkDatabase hcheck).2 rfl
  have hm : t₁.mysql = true := by rw [connectWith_true hconnect]
  obtain ⟨current, rfl⟩ := connected_quiet hconnect
  rwa [server_checkDatabase hm hcheck] at hdb

/-- The `QueryResult`s that `init` constructs: one for the databases, and one for each table there is. -/
def resultsRead (s : SchemaServer) (dbName : Bytes) : Nat := present s dbName mTables + 1

/-- The server can be reached at the port given. -/
theorem init_quiet (parse : Bytes → Option Table) (s : SchemaServer) (names : List Bool)
    (host user pwd dbName : Bytes) (hdb : s.hasDatabase dbName = true) :
    (∃ t c', init parse (quiet none names s) ⟨host, user, pwd, dbName, s.port⟩ = .ok (true, t, c')) ↔
      (∀ info ∈ mTables, CanHave parse s dbName info) ∧ ∀ ok ∈ names.take (resultsRead s dbName), ok = true := by
  obtain ⟨l, hl⟩ : ∃ l : Login, l = ⟨host, user, pwd, dbName, s.port⟩ := ⟨_, rfl⟩
  have hport : l.cStrs.port = s.port := by
    rw [hl]
    rfl
  have hreal : SchemaClient.realConnect l.cStrs (quiet none names s) = _ := realConnect_quiet hport
  have hname : l.cStrs.dbName = dbName := by
    rw [hl]
    exact cTrunc_eq_self hdb
  rw [hname, if_pos (.inr hdb), if_neg (s.names_ok dbName hdb).1] at hreal
  rw [← hl]
  obtain ⟨t₁, hconnect, hm, hdbname⟩ : ∃ t₁, connectWith (lib parse) {} (quiet none names s) l =
      (true, t₁, quiet (some dbName) names s) ∧ t₁.mysql = true ∧ t₁.dbname = dbName := by
    refine ⟨⟨true, l.host, l.user, l.pwd, l.dbName, [UInt8.ofNat l.port.toNat]⟩, ?_, rfl, by rw [hl]⟩
    rw [connectWith, show (lib parse).realConnect l.cStrs (quiet none names s) = _ from hreal]
    rfl
  rw [init, hconnect]
  dsimp only
  rw [checkDatabase_quiet hm hdb, hdbname, hdb, resultsRead, take_succ_all]
  cases names.headD true with
  | true =>
    rw [if_pos rfl, Except.ok_bind]
    refine (initTables_quiet parse hm hdb mTables_mFields mTables_names names.tail).trans ?_
    exact and_congr_right fun _ => ⟨fun h => ⟨rfl, h⟩, fun h => h.2⟩
  | false =>
    rw [if_neg Bool.false_ne_true]
    refine iff_of_false ?_ fun h => nomatch h.2.1
    rintro ⟨t', c', h⟩
    cases h

end

/-! ### The schema is complete -/

/-- Started on the content `s`: with no call failing and `names` for the outcomes of the stores behind
`_fieldName`, and with anything failing. -/
structure BootstrapComplete (parse : Bytes → Option Table) (s : SchemaServer) (names : List Bool) (l : Login) :
    Prop where
  complete : ∃ t c, init parse { server := s, names := names } l = .ok (true, t, c) ∧
    c.server.hasDatabase l.dbName = true ∧ HasTables c.server l.dbName mTables ∧
    ∀ d name content, s.table d name = some content → c.server.table d name = some content
  truthful : ∀ c t' c', c.server = s → init parse c l = .ok (true, t', c') → HasTables c'.server l.dbName mTables

/-- The database is there, the tables are there or can be created, and the stores do no harm in any of the
results that are read. -/
theorem bootstrap_complete_iff (parse : Bytes → Option Table) (s : SchemaServer) (names : List Bool)
    (host user pwd dbName : Bytes) :
    BootstrapComplete parse s names ⟨host, user, pwd, dbName, s.port⟩ ↔
      s.hasDatabase dbName = true ∧ (∀ info ∈ mTables, CanHave parse s dbName info) ∧
        ∀ ok ∈ names.take (resultsRead s dbName), ok = true := by
  constructor
  · rintro ⟨⟨t, c, htrue, -⟩, -⟩
    have hdb := init_database htrue
    exact ⟨hdb, (init_quiet parse s names host user pwd dbName hdb).1 ⟨t, c, htrue⟩⟩
  · rintro ⟨hdb, hcond⟩
    obtain ⟨t, c, hrun⟩ := (init_quiet parse s names host user pwd dbName hdb).2 hcond
    obtain ⟨htables, hdb', hgrows⟩ := init_true hrun
    exact ⟨⟨t, c, hrun, hdb', htables, hgrows.table⟩, fun c₁ t' c' _ htrue => (init_true htrue).1⟩

/-- A server that has only just been installed. -/
def freshServer : SchemaServer := ⟨3306, [], nofun⟩

/-- What `main` asks for. -/
def mainLogin : Login := ⟨ascii "127.0.0.1", ascii "root", ascii "wanzg666", ascii "IMServer", 3306⟩

def idTable : Table where
  desc := [[some (ascii "id"), some (ascii "bigint(20)"), some (ascii "NO"), some (ascii "PRI"), none, none]]
  rows := []
  desc_ne_nil := nofun
  length_desc := by decide

/-- Without its database the server refuses the connection, and `init` gives up. -/
theorem fresh_server_refused :
    init (fun _ => some idTable) { server := freshServer } mainLogin =
      .ok (false, {}, { server := freshServer }) ∧
      ¬ BootstrapComplete (fun _ => some idTable) freshServer [] mainLogin := by
  have hrefused : init (fun _ => some idTable) { server := freshServer } mainLogin =
    .ok (false, {}, { server := freshServer }) := rfl
  refine ⟨hrefused, fun h => ?_⟩
  obtain ⟨t, c, htrue, -⟩ := h.complete
  cases hrefused.symm.trans htrue

end IMServer
