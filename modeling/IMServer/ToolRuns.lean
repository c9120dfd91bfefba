import IMServer.ClientCalls
import IMServer.UserManager

/-!
# What callers of `MysqlTool` can rely on

A reconnect logs in with what the last successful `connect` has saved, but for the port: that is the
default, because `_port` is a string of one character that nothing reads. A statement takes effect
once if `execute` returns `true`, and else not at all. A result set is wrapped if any row was
affected, whether there is a result set or not.
-/

namespace IMServer

/-! ### Attempts to connect -/

namespace MysqlTool
variable {σ Q : Type} {lib : ClientLib σ Q} {t t' : MysqlTool} {c c' : σ} {sql : Q}
  {calls : List (Call Q)} {ok : Bool}

/-- The attempts to connect among the calls. -/
def attempts (calls : List (Call Q)) : List Login :=
  calls.filterMap fun
    | .realConnect l _ => some l
    | _ => none

@[simp] theorem attempts_append (calls calls' : List (Call Q)) :
    attempts (calls ++ calls') = attempts calls ++ attempts calls' := List.filterMap_append ..

@[simp] theorem attempts_connectCalls (l : Login) (ok : Bool) :
    attempts (connectCalls l ok : List (Call Q)) = [l.cStrs] := by
  rcases ok with _ | _ <;> rfl

/-- There is no connection, or it turns out to be lost. -/
def Reconnects (lib : ClientLib σ Q) (t : MysqlTool) (c : σ) (sql : Q) : Prop :=
  t.mysql = false ∨ (lib.submit true sql c).1 = some serverGoneError

theorem Opens.attempts (h : Opens lib t c calls t' c') :
    (t.mysql = true ∧ attempts calls = [] ∧ c' = c) ∨ (t.mysql = false ∧ attempts calls = [t.saved.cStrs]) := by
  cases h with
  | already h => exact .inl ⟨h, rfl, rfl⟩
  | again h hc => exact .inr ⟨h, attempts_connectCalls _ _⟩

/-- The first submission did not find the connection lost. -/
theorem Opens.attempts_of_ne (h : Opens lib t c calls t' c')
    (he : (lib.submit true sql c').1 ≠ some serverGoneError) :
    (∀ l ∈ MysqlTool.attempts calls, l = t.saved.cStrs) ∧
      (MysqlTool.attempts calls ≠ [] ↔ Reconnects lib t c sql) := by
  rcases h.attempts with ⟨hm, hcalls, rfl⟩ | ⟨hm, hcalls⟩
  · rw [hcalls]
    refine ⟨nofun, iff_of_false (fun h => h rfl) ?_⟩
    rintro (hclosed | hgone)
    · rw [hm] at hclosed
      cases hclosed
    · exact he hgone
  · rw [hcalls]
    exact ⟨fun l hl => List.mem_singleton.1 hl, iff_of_true nofun (.inl hm)⟩

/-- It did, and a reconnect was tried. -/
theorem Opens.attempts_of_gone (h : Opens lib t c calls t' c')
    (hs : (lib.submit true sql c').1 = some serverGoneError) :
    (∀ l ∈ MysqlTool.attempts calls ++ [t'.saved.cStrs], l = t.saved.cStrs) ∧
      (MysqlTool.attempts calls ++ [t'.saved.cStrs] ≠ [] ↔ Reconnects lib t c sql) := by
  rw [h.saved]
  rcases h.attempts with ⟨hm, hcalls, rfl⟩ | ⟨hm, hcalls⟩
  · rw [hcalls]
    exact ⟨fun l hl => List.mem_singleton.1 hl, iff_of_true nofun (.inr hs)⟩
  · rw [hcalls]
    refine ⟨fun l hl => ?_, iff_of_true nofun (.inl hm)⟩
    rcases List.mem_append.1 hl with hl | hl
    · exact List.mem_singleton.1 hl
    · exact List.mem_singleton.1 hl

theorem Submits.attempts (h : Submits lib t c sql calls ok t' c') :
    (∀ l ∈ attempts calls, l = t.saved.cStrs) ∧ (attempts calls ≠ [] ↔ Reconnects lib t c sql) := by
  have hnone : ∀ errno, MysqlTool.attempts [Call.submit true sql errno] = [] := fun _ => rfl
  cases h with
  | closed h hc =>
    rw [attempts_connectCalls]
    exact ⟨fun l hl => List.mem_singleton.1 hl, iff_of_true nofun (.inl h)⟩
  | accepted ho hs =>
    rw [attempts_append, hnone, List.append_nil]
    exact ho.attempts_of_ne (by rw [hs]; exact nofun)
  | refused ho hs he =>
    rw [attempts_append, hnone, List.append_nil]
    exact ho.attempts_of_ne (by rw [hs]; exact fun h => he (Option.some.inj h))
  | gone ho hs hc =>
    rw [attempts_append, ← List.singleton_append, attempts_append, hnone, attempts_connectCalls]
    exact ho.attempts_of_gone (by rw [hs])
  | retried ho hs hc hs' =>
    rw [attempts_append, ← List.singleton_append, attempts_append, attempts_append, hnone, hnone,
      attempts_connectCalls]
    exact ho.attempts_of_gone (by rw [hs])

end MysqlTool

/-- A call of a member function of `MysqlTool`. -/
inductive ToolOp (Q : Type)
  | connect (l : Login)
  | query (sql : Q)
  | execute (sql : Q)
  | closeDB

namespace ToolOp
variable {σ Q : Type}

/-- The statement of `query` and `execute`. -/
def statement : ToolOp Q → Option Q
  | query sql => some sql
  | execute sql => some sql
  | _ => none

/-- One call, with the arguments of the last explicit `connect` that succeeded. -/
def step (lib : ClientLib σ Q) (latest : Option Login) (t : MysqlTool) (c : σ) :
    ToolOp Q → Except Fault (Option Login) × MysqlTool × σ
  | connect l =>
    match t.connectWith lib c l with
    | (ok, t, c) => (.ok (if ok then some l else latest), t, c)
  | query sql =>
    match t.queryWith lib c sql with
    | (q, t, c) => (q.map fun _ => latest, t, c)
  | execute sql =>
    match t.executeWith lib c sql 0 with
    | (_, _, t, c) => (.ok latest, t, c)
  | closeDB => (.ok latest, t.closeDB, c)

/-- The calls of the library that are made in one. -/
def calls (lib : ClientLib σ Q) (latest : Option Login) (t : MysqlTool) (c : σ) (op : ToolOp Q) : List (Call Q) :=
  (op.step lib.logged latest t (c, [])).2.2.2

variable {lib : ClientLib σ Q} {latest : Option Login} {t : MysqlTool} {c : σ} {op : ToolOp Q} {sql : Q}
open MysqlTool

/-- A call with a statement: it submits the statement, keeps what is saved, and connects for nothing else. -/
theorem step_statement (lib : ClientLib σ Q) (latest : Option Login) (t : MysqlTool) (c : σ)
    (h : op.statement = some sql) :
    ∃ calls ok c', Submits lib t c sql calls ok (op.step lib latest t c).2.1 c' ∧
      attempts (op.calls lib latest t c) = attempts calls ∧
      ∀ latest', (op.step lib latest t c).1 = .ok latest' → latest' = latest := by
  obtain ⟨calls, ok, t', c', hsubmits, hrun, hlogged⟩ := submitWith_submits lib t c sql []
  cases op with
  | connect l => cases h
  | closeDB => cases h
  | execute sql' =>
    cases h
    refine ⟨calls, ok, c', ?_, ?_, fun latest' h => (Except.ok.inj h).symm⟩
    · show Submits lib t c sql calls ok (t.executeWith lib c sql 0).2.2.1 c'
      rw [executeWith_eq hrun]
      exact hsubmits
    · show attempts (t.executeWith lib.logged (c, []) sql 0).2.2.2.2 = _
      rw [executeWith_eq hlogged, List.nil_append]
  | query sql' =>
    cases h
    refine ⟨calls, ok, c', ?_, ?_, fun latest' h => ?_⟩
    · show Submits lib t c sql calls ok (t.queryWith lib c sql).2.1 c'
      rw [(queryWith_state hrun).1]
      exact hsubmits
    · show attempts (t.queryWith lib.logged (c, []) sql).2.2.2 = _
      have hstored : attempts (calls ++ [.storeResult t'.mysql]) = attempts calls := by
        rw [attempts_append]
        exact List.append_nil _
      rw [List.nil_append] at hlogged
      rcases (queryWith_state hlogged).2 with h | h | h <;> rw [h]
      · exact hstored
      · exact hstored
    · obtain ⟨-, -, hlatest⟩ := Except.map_eq_ok.1 h
      exact hlatest.symm

end ToolOp

/-! ### Where a reconnect goes -/

section
variable {σ Q : Type} {lib : ClientLib σ Q} {latest : Option Login} {t : MysqlTool} {c : σ}
open MysqlTool

/-- Every attempt of `query` and `execute` is made with the arguments of the last explicit `connect` that
succeeded, if there was one. -/
def SameServer (lib : ClientLib σ Q) : Option Login → MysqlTool → σ → List (ToolOp Q) → Prop
  | _, _, _, [] => True
  | latest, t, c, op :: ops =>
    (op.statement ≠ none → ∀ l ∈ latest, ∀ l' ∈ attempts (op.calls lib latest t c), l' = l.cStrs) ∧
      ∀ latest', (op.step lib latest t c).1 = .ok latest' →
        SameServer lib latest' (op.step lib latest t c).2.1 (op.step lib latest t c).2.2 ops

/-- Whenever a statement finds no connection or a lost one, the last `connect` was to the default port. -/
def AtDefaultPort (lib : ClientLib σ Q) : Option Login → MysqlTool → σ → List (ToolOp Q) → Prop
  | _, _, _, [] => True
  | latest, t, c, op :: ops =>
    (∀ sql, op.statement = some sql → Reconnects lib t c sql → ∀ l ∈ latest, l.port = defaultPort) ∧
      ∀ latest', (op.step lib latest t c).1 = .ok latest' →
        AtDefaultPort lib latest' (op.step lib latest t c).2.1 (op.step lib latest t c).2.2 ops

/-- All but the port is saved. -/
def Saves (latest : Option Login) (t : MysqlTool) : Prop :=
  ∀ l ∈ latest, t.saved = { l with port := defaultPort }

theorem Saves.step (h : Saves latest t) {op : ToolOp Q} {latest' : Option Login}
    (hstep : (op.step lib latest t c).1 = .ok latest') : Saves latest' (op.step lib latest t c).2.1 := by
  cases hop : op.statement with
  | some sql =>
    obtain ⟨calls, ok, c', hsubmits, -, hkeep⟩ := ToolOp.step_statement lib latest t c hop
    rw [hkeep latest' hstep, Saves, hsubmits.saved]
    exact h
  | none =>
    cases op with
    | connect l =>
      rcases hc : t.connectWith lib c l with ⟨ok, t', c'⟩
      have hconnect : (ToolOp.connect l).step lib latest t c = (.ok (if ok then some l else latest), t', c') := by
        rw [ToolOp.step, hc]
      rw [hconnect] at hstep ⊢
      rcases ok with _ | _
      · cases hstep
        rw [connectWith_false hc]
        exact h
      · cases hstep
        rw [connectWith_true hc]
        intro l' hl'
        cases hl'
        rfl
    | query sql => cases hop
    | execute sql => cases hop
    | closeDB =>
      cases hstep
      exact h

theorem attempts_same_iff (h : Saves latest t) {op : ToolOp Q} :
    (op.statement ≠ none → ∀ l ∈ latest, ∀ l' ∈ attempts (op.calls lib latest t c), l' = l.cStrs) ↔
      ∀ sql, op.statement = some sql → Reconnects lib t c sql → ∀ l ∈ latest, l.port = defaultPort := by
  cases hop : op.statement with
  | none => exact iff_of_true (fun h => absurd rfl h) nofun
  | some sql =>
    obtain ⟨calls, ok, c', hsubmits, hcalls, -⟩ := ToolOp.step_statement lib latest t c hop
    obtain ⟨hall, hsome⟩ := hsubmits.attempts
    rw [hcalls]
    constructor
    · intro hsame sql' hsql hrec l hl
      cases hsql
      obtain ⟨l', hl'⟩ := List.exists_mem_of_ne_nil _ (hsome.2 hrec)
      have heq := (hall l' hl').symm.trans (hsame nofun l hl l' hl')
      rw [h l hl] at heq
      exact (congrArg Login.port heq).symm
    · intro hport _ l hl l' hl'
      have hrec := hsome.1 (List.ne_nil_of_mem hl')
      rw [hall l' hl', h l hl, ← hport sql rfl hrec l hl]

theorem sameServer_iff_of_saves (h : Saves latest t) (ops : List (ToolOp Q)) :
    SameServer lib latest t c ops ↔ AtDefaultPort lib latest t c ops := by
  induction ops generalizing latest t c with
  | nil => exact Iff.rfl
  | cons op ops ih =>
    refine and_congr (attempts_same_iff h) (forall_congr' fun latest' => forall_congr' fun hstep => ?_)
    exact ih (h.step hstep)

/-- Any calls, from the construction of the tool on, whatever the library answers. -/
theorem same_server_iff (lib : ClientLib σ Q) (c : σ) (ops : List (ToolOp Q)) :
    SameServer lib none {} c ops ↔ AtDefaultPort lib none {} c ops := by
  refine sameServer_iff_of_saves ?_ ops
  intro l hl
  cases hl

def port3307 : Login := ⟨ascii "127.0.0.1", ascii "root", ascii "wanzg666", ascii "IMServer", 3307⟩

/-- Connected to port 3307 and closed: the next statement goes to port 3306. -/
theorem other_port_lost :
    attempts ((ToolOp.execute .selectUsers).calls Client.lib (some port3307)
      ⟨false, port3307.host, port3307.user, port3307.pwd, port3307.dbName, [UInt8.ofNat 3307]⟩ {}) =
      [{ port3307 with port := 3306 }] ∧
    ¬ SameServer Client.lib none {} {} [.connect port3307, .closeDB, .execute .selectUsers] := by
  refine ⟨rfl, fun ⟨_, h₁⟩ => ?_⟩
  obtain ⟨-, h₂⟩ := h₁ _ rfl
  obtain ⟨h₃, -⟩ := h₂ _ rfl
  have hport := h₃ nofun port3307 rfl { port3307 with port := 3306 } (.head _)
  exact absurd (congrArg Login.port hport) (by decide)

end

/-! ### How often a statement is submitted -/

section
variable {σ Q : Type} {lib : ClientLib σ Q} {t t' : MysqlTool} {c c' : σ} {sql : Q}
  {calls : List (Call Q)} {ok : Bool}
open MysqlTool

structure Submission (Q : Type) where
  handle : Bool
  sql : Q
  errno : Option UInt32

def submissions (calls : List (Call Q)) : List (Submission Q) :=
  calls.filterMap fun
    | .submit handle sql errno => some ⟨handle, sql, errno⟩
    | _ => none

def successes (calls : List (Call Q)) : Nat := (submissions calls).countP fun s => s.errno.isNone

/-- `calls` are made for `sql`, and `ok` is returned. -/
structure SubmitsOnce (sql : Q) (calls : List (Call Q)) (ok : Bool) : Prop where
  atMostTwice : (submissions calls).length ≤ 2
  connected : ∀ s ∈ submissions calls, s.handle = true ∧ s.sql = sql
  true_iff : ok = true ↔ successes calls = 1
  false_iff : ok = false ↔ successes calls = 0
  /-- between two submissions the connection was found lost and made again -/
  again : 2 ≤ (submissions calls).length → ∃ before l errno, submissions before = [] ∧
    calls = before ++ [.submit true sql (some serverGoneError), .realConnect l true, .setNames true,
      .submit true sql errno]

@[simp] theorem submissions_append (calls calls' : List (Call Q)) :
    submissions (calls ++ calls') = submissions calls ++ submissions calls' := List.filterMap_append ..

@[simp] theorem submissions_connectCalls (l : Login) (ok : Bool) :
    submissions (connectCalls l ok : List (Call Q)) = [] := by
  rcases ok with _ | _ <;> rfl

@[simp] theorem submissions_cons_submit (handle : Bool) (sql : Q) (errno : Option UInt32) (calls : List (Call Q)) :
    submissions (.submit handle sql errno :: calls) = ⟨handle, sql, errno⟩ :: submissions calls := rfl

@[simp] theorem submissions_nil : submissions ([] : List (Call Q)) = [] := rfl

theorem MysqlTool.Opens.submissions (h : Opens lib t c calls t' c') : submissions calls = [] := by
  cases h with
  | already h => rfl
  | again h hc => exact submissions_connectCalls _ _

theorem submitsOnce (h : Submits lib t c sql calls ok t' c') : SubmitsOnce sql calls ok := by
  cases h with
  | closed h hc => constructor <;> simp [successes]
  | accepted ho hs => constructor <;> simp [successes, ho.submissions]
  | refused ho hs he => constructor <;> simp [successes, ho.submissions]
  | gone ho hs hc => constructor <;> simp [successes, ho.submissions]
  | @retried before t₁ c₁ c₂ t₃ c₃ c' errno ho hs hc hs' =>
    refine ⟨?_, ?_, ?_, ?_, fun _ => ⟨before, t₁.saved.cStrs, errno, ho.submissions, rfl⟩⟩
    · simp [ho.submissions]
    · simp [ho.submissions]
    · rcases errno with _ | errno <;> simp [successes, ho.submissions]
    · rcases errno with _ | errno <;> simp [successes, ho.submissions]

theorem Store.table_addUser (s : Store) (user : User) :
    (s.addUser user).2.2.table = if (s.addUser user).1 then s.table ++ [s.newRow user] else s.table := by
  rcases addUser_cases s user with ⟨mysql, he, hserver⟩ | ⟨mysql, he, hserver⟩
  · rw [he, table, hserver]
    rfl
  · rw [he, table, hserver]
    rfl

/-- Over any library; and the table of users, over the one of the model. -/
theorem execute_submits_once :
    (∀ (σ Q : Type) (lib : ClientLib σ Q) (t : MysqlTool) (c : σ) (sql : Q) (count : Nat),
      SubmitsOnce sql (t.executeWith lib.logged (c, []) sql count).2.2.2.2 (t.executeWith lib c sql count).1) ∧
    ∀ (s : Store) (user : User),
      (s.addUser user).2.2.table = if (s.addUser user).1 then s.table ++ [s.newRow user] else s.table := by
  refine ⟨fun σ Q lib t c sql count => ?_, Store.table_addUser⟩
  obtain ⟨calls, ok, t', c', hsubmits, hrun, hlogged⟩ := submitWith_submits lib t c sql []
  rw [executeWith_eq hrun, executeWith_eq hlogged]
  exact submitsOnce hsubmits

end

/-! ### What `query` wraps -/

section
variable {σ Q : Type} {lib : ClientLib σ Q} {t t' : MysqlTool} {c c' : σ} {sql : Q}
open MysqlTool

/-- `query` has returned, with a null pointer or with a result set that has as many rows as it says. -/
def Wraps (x : Except Fault (Option QueryResult)) : Prop :=
  ∃ q, x = .ok q ∧ ∀ r ∈ q, (∃ res, r.res = some res) ∧ r.forEachRow 0 (fun n _ => n + 1) = r.rowCount

theorem wraps_none : Wraps (.ok none) := ⟨none, rfl, nofun⟩

theorem wraps_result {harmless : Bool} {res : Res} {r : QueryResult}
    (h : QueryResult.new harmless (some res) res.rows.length res.fields.length = .ok r) : Wraps (.ok (some r)) := by
  obtain ⟨hres, hcount, hcur⟩ := QueryResult.new_currentRow h rfl
  refine ⟨some r, rfl, fun r' hr' => ?_⟩
  cases hr'
  refine ⟨⟨res, hres⟩, ?_⟩
  rw [QueryResult.forEachRow_eq_foldl _ hres (by rw [hcur, List.length_map]), List.foldl_add_const, hcount]
  omega

/-- The library was asked for a result set, found no rows, or one over which a `QueryResult` can be made. -/
def Wrappable (lib : ClientLib σ Q) (sql : Q) (c : σ) : Prop :=
  (lib.storeResult true sql c).1.affectedRows = 0 ∨
    ((lib.storeResult true sql c).1.res ≠ none ∧
      ((lib.storeResult true sql c).1.fieldCount = 0 ∨
        (lib.storeNames (lib.storeResult true sql c).2).1 = true))

/-- The result of the constructor, over what `mysql_store_result` has left. -/
theorem wraps_new_iff (harmless : Bool) (stored : Stored) :
    Wraps ((QueryResult.new harmless stored.res stored.affectedRows stored.fieldCount).map some) ↔
      stored.res ≠ none ∧ (stored.fieldCount = 0 ∨ harmless = true) := by
  rw [← QueryResult.new_returns harmless stored.res stored.affectedRows]
  constructor
  · rintro ⟨q, hq, -⟩
    rcases hnew : QueryResult.new harmless stored.res stored.affectedRows stored.fieldCount with e | r
    · rw [hnew] at hq
      cases hq
    · exact Except.returns_ok r
  · rintro ⟨r, hr⟩
    rw [hr]
    rcases stored with res | n | n
    · exact wraps_result hr
    · cases hr
    · cases hr

/-- For every statement, every tool and whatever the library answers. -/
theorem query_wraps_iff (lib : ClientLib σ Q) (t : MysqlTool) (c : σ) (sql : Q) :
    Wraps (t.queryWith lib c sql).1 ↔
      ∀ calls t' c', Submits lib t c sql calls true t' c' → Wrappable lib sql c' := by
  obtain ⟨calls, ok, t₁, c₁, hsubmits, hrun, -⟩ := submitWith_submits lib t c sql []
  rcases ok with _ | _
  · rw [queryWith_refused hrun]
    refine iff_of_true wraps_none fun calls' t' c' h => ?_
    cases hrun.symm.trans h.submitWith_eq
  have honly : (∀ calls t' c', Submits lib t c sql calls true t' c' → Wrappable lib sql c') ↔
      Wrappable lib sql c₁ := by
    refine ⟨fun h => h calls t₁ c₁ hsubmits, fun h calls' t' c' hsub => ?_⟩
    cases hrun.symm.trans hsub.submitWith_eq
    exact h
  have hstored : lib.storeResult t₁.mysql sql c₁ = lib.storeResult true sql c₁ := by rw [hsubmits.mysql rfl]
  rw [honly, Wrappable]
  by_cases hzero : (lib.storeResult true sql c₁).1.affectedRows = 0
  · rw [queryWith_none hrun hstored hzero]
    exact iff_of_true wraps_none (.inl hzero)
  · rw [queryWith_some hrun hstored hzero, wraps_new_iff]
    exact (or_iff_right hzero).symm

/-- A result set that cannot be stored: the constructor follows a null pointer. -/
theorem failed_store_wrapped :
    (queryWith Client.lib { mysql := true } { stores := [false] } .selectUsers).1 = .error .nullPointer ∧
      ¬ Wraps (queryWith Client.lib { mysql := true } { stores := [false] } .selectUsers).1 := by
  have hnull : (queryWith Client.lib { mysql := true } { stores := [false] } .selectUsers).1 =
    .error .nullPointer := rfl
  refine ⟨hnull, ?_⟩
  rw [hnull]
  rintro ⟨q, hq, -⟩
  cases hq

end

end IMServer
