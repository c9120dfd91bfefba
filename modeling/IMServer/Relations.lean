import IMServer.UserIds

/-!
# Loading the friends

`init` asks for the relations of one user after the other. What the client library makes of a
`SELECT` is one of four outcomes, of which the server can tell only two: no rows are reported like a
failure, a result set that cannot be read is a null pointer that is followed, and the column names of one
that can be are stored where nothing is.
-/

namespace IMServer

/-- What becomes of a `SELECT`. -/
inductive Outcome
  /-- it was not executed -/
  | failed
  /-- `mysql_store_result` could not read the result set -/
  | unread
  /-- there were rows, and the stores behind the end of `_fieldName` did harm -/
  | harmed
  | rows (rows : List (List (Option Bytes)))
deriving DecidableEq

def Outcome.Succeeds (o : Outcome) : Prop := ∃ rs, o = .rows rs

/-- The run ends in the constructor of the `QueryResult`. -/
def Outcome.Ends (o : Outcome) : Prop := o = .unread ∨ o = .harmed

/-- Not read back, or empty. -/
def Outcome.Misreported (o : Outcome) : Prop := o.Ends ∨ o = .rows []

instance : DecidablePred Outcome.Succeeds
  | .failed => isFalse nofun
  | .unread => isFalse nofun
  | .harmed => isFalse nofun
  | .rows rs => isTrue ⟨rs, rfl⟩

/-- What a `QueryResult` is made of, or not. -/
def Client.outcome (c : Client) (sql : Statement) : Outcome :=
  match c.storeResult sql with
  | (.result res, c) => if res.rows ≠ [] ∧ c.storeNames.1 = false then .harmed else .rows res.rows
  | _ => .unread

theorem Client.storeResult_cases {c : Client} {sql : Statement} (hsel : (c.server.resultRows sql).isSome = true) :
    (∃ res c', c.storeResult sql = (.result res, c') ∧ res.fields = (Server.columnNames sql).map ascii) ∨
      ∃ n c', c.storeResult sql = (.failed n, c') := by
  unfold storeResult
  split
  · next hnone => simp [hnone] at hsel
  · rcases c.stores.headD true with _ | _
    · exact .inr ⟨_, _, rfl⟩
    · exact .inl ⟨_, _, rfl, rfl⟩

namespace MysqlManager
variable {m : MysqlManager} {sql : Statement}

def outcome (m : MysqlManager) (sql : Statement) : Outcome :=
  match m.mysqlToolPtr with
  | none => .failed
  | some t =>
    match t.submitWith Client.lib m.client sql with
    | (false, _, _) => .failed
    | (true, _, c) => c.outcome sql

/-- The connection once the statement is through. -/
def after (m : MysqlManager) (sql : Statement) : MysqlManager :=
  match m.mysqlToolPtr with
  | none => m
  | some t =>
    let (_, t, c) := t.queryWith Client.lib m.client sql
    ⟨some t, c⟩

structure Selects (sql : Statement) : Prop where
  apply : ∀ s : Server, s.apply sql = s
  resultRows : ∀ s : Server, (s.resultRows sql).isSome = true
  columnNames : Server.columnNames sql ≠ []

theorem selects_selectUsers : Selects .selectUsers := ⟨fun _ => rfl, fun _ => rfl, nofun⟩

theorem selects_selectRelation (userid : Int32) : Selects (.selectRelation userid) :=
  ⟨fun _ => rfl, fun _ => rfl, nofun⟩

theorem server_after (h : Selects sql) (m : MysqlManager) : (m.after sql).client.server = m.client.server := by
  unfold after
  split
  · rfl
  · exact MysqlTool.server_queryWith (h.apply _)

theorem resultRows_of_outcome (h : Selects sql) {rs : List (List (Option Bytes))}
    (ho : m.outcome sql = .rows rs) : m.client.server.resultRows sql = some rs := by
  unfold outcome at ho
  split at ho
  · cases ho
  · split at ho
    · cases ho
    · next c hs =>
      unfold Client.outcome at ho
      split at ho
      · next res c' hst =>
        split at ho
        · cases ho
        cases ho
        rw [← (Client.storeResult_result hst).2, MysqlTool.server_submitWith hs, if_pos rfl, h.apply]
      · cases ho

/-- What `queryWith` comes to once the statement was accepted. -/
theorem queryWith_cases (h : Selects sql) {t t' : MysqlTool} {c c' : Client}
    (hs : t.submitWith Client.lib c sql = (true, t', c')) :
    (c'.outcome sql = .rows [] ∧ (t.queryWith Client.lib c sql).1 = .ok none) ∨
    ((c'.outcome sql).Ends ∧ ∃ e, (t.queryWith Client.lib c sql).1 = .error e) ∨
    ∃ row rs r, c'.outcome sql = .rows (row :: rs) ∧ (t.queryWith Client.lib c sql).1 = .ok (some r) := by
  rcases Client.storeResult_cases (h.resultRows c'.server) with ⟨res, c₂, hst, hfields⟩ | ⟨n, c₂, hst⟩
  · rcases hrows : res.rows with _ | ⟨row, rs⟩
    · refine .inl ⟨by simp [Client.outcome, hst, hrows], ?_⟩
      rw [MysqlTool.queryWith_none hs hst (congrArg List.length hrows)]
    have hzero : (Stored.result res).affectedRows ≠ 0 := by simp [Stored.affectedRows, hrows]
    rw [MysqlTool.queryWith_some hs hst hzero]
    rcases hnew : QueryResult.new c₂.storeNames.1 (some res) res.rows.length res.fields.length with e | r
    · refine .inr (.inl ⟨.inr ?_, e, congrArg (Except.map some) hnew⟩)
      have hharm : c₂.storeNames.1 = false := by
        by_contra hok
        obtain ⟨r, hr⟩ := (QueryResult.new_returns _ (some res) res.rows.length res.fields.length).2
          ⟨Option.some_ne_none res, .inr (Bool.of_not_eq_false hok)⟩
        cases hnew.symm.trans hr
      simp [Client.outcome, hst, hrows, hharm]
    · refine .inr (.inr ⟨row, rs, r, ?_, congrArg (Except.map some) hnew⟩)
      have hcols : res.fields.length ≠ 0 := by
        rw [hfields, List.length_map]
        exact fun hlen => h.columnNames (List.length_eq_zero_iff.1 hlen)
      obtain ⟨-, hok⟩ := (QueryResult.new_returns _ _ _ _).1 ⟨r, hnew⟩
      simp [Client.outcome, hst, hrows, hok.resolve_left hcols]
  · refine .inr (.inl ⟨.inl (by rw [Client.outcome, hst]), .nullPointer, ?_⟩)
    rw [MysqlTool.queryWith_some hs hst (by simp [Stored.affectedRows])]
    rfl

/-- A failure and an empty result come back as the same null pointer. -/
theorem query_cases (h : Selects sql) (m : MysqlManager) :
    ((m.outcome sql = .failed ∨ m.outcome sql = .rows []) ∧ m.query sql = .ok (none, m.after sql)) ∨
    ((m.outcome sql).Ends ∧ ∃ e, m.query sql = .error e) ∨
    ∃ row rs r, m.outcome sql = .rows (row :: rs) ∧ m.query sql = .ok (some r, m.after sql) := by
  rcases hp : m.mysqlToolPtr with _ | t
  · refine .inl ⟨.inl ?_, ?_⟩
    · rw [outcome, hp]
    · rw [query, after, hp]
  rcases hq : t.queryWith Client.lib m.client sql with ⟨x, t₂, c₂⟩
  rcases hs : t.submitWith Client.lib m.client sql with ⟨_ | _, t', c⟩
  · refine .inl ⟨.inl ?_, ?_⟩
    · simp only [outcome, hp, hs]
    · simp only [query, after, MysqlTool.queryWith_refused hs, hp]
  have ho : m.outcome sql = c.outcome sql := by simp only [outcome, hp, hs]
  rw [ho]
  rcases queryWith_cases h hs with ⟨hout, hx⟩ | ⟨hout, e, hx⟩ | ⟨row, rs, r, hout, hx⟩ <;>
    rw [hq] at hx <;> cases hx
  · exact .inl ⟨.inr hout, by simp only [query, after, hp, hq]⟩
  · exact .inr (.inl ⟨hout, e, by simp only [query, hp, hq]⟩)
  · exact .inr (.inr ⟨row, rs, r, hout, by simp only [query, after, hp, hq]⟩)

/-- The `SELECT`s of the loop of `init`, one for each user. -/
def outcomes (m : MysqlManager) : List Int32 → List Outcome
  | [] => []
  | userid :: ids => m.outcome (.selectRelation userid) :: (m.after (.selectRelation userid)).outcomes ids

end MysqlManager

/-! ### The friends of one user -/

def Server.related (s : Server) (userid : Int32) : List (Int × Int) :=
  s.relations.filter fun p => p.1 = userid.toInt ∨ p.2 = userid.toInt

/-- The end of a pair that `loadRelation` takes for the friend. -/
def otherEnd (userid : Int32) (p : Int × Int) : Int32 :=
  if atoi (intToString p.1) = userid then atoi (intToString p.2) else atoi (intToString p.1)

def befriend (userid : Int32) (friends : Finset Int32) (pairs : List (Int × Int)) : Finset Int32 :=
  pairs.foldl (fun friends p => insert (otherEnd userid p) friends) friends

theorem mem_befriend {userid v : Int32} {friends : Finset Int32} {pairs : List (Int × Int)} :
    v ∈ befriend userid friends pairs ↔ v ∈ friends ∨ ∃ p ∈ pairs, otherEnd userid p = v := by
  induction pairs generalizing friends with
  | nil => simp [befriend]
  | cons p pairs ih =>
    rw [befriend, List.foldl_cons, ← befriend, ih, Finset.mem_insert]
    constructor
    · rintro ((rfl | hv) | ⟨q, hq, rfl⟩)
      · exact .inr ⟨p, .head _, rfl⟩
      · exact .inl hv
      · exact .inr ⟨q, .tail _ hq, rfl⟩
    · rintro (hv | ⟨q, hq, rfl⟩)
      · exact .inl (.inr hv)
      · rcases List.mem_cons.1 hq with rfl | hq
        · exact .inl (.inl rfl)
        · exact .inr ⟨q, hq, rfl⟩

/-- From either end: a pair of the user itself is met at its first end. -/
theorem otherEnd_eq {userid v : Int32} {p : Int × Int} (h₁ : InInt32 p.1) (h₂ : InInt32 p.2)
    (hp : p.1 = userid.toInt ∨ p.2 = userid.toInt) :
    otherEnd userid p = v ↔ p = (userid.toInt, v.toInt) ∨ p = (v.toInt, userid.toInt) := by
  obtain ⟨i, j⟩ := p
  simp only [otherEnd, atoi_intToString_eq h₁, Prod.mk.injEq] at hp ⊢
  by_cases hi : i = userid.toInt
  · rw [if_pos hi, atoi_intToString_eq h₂]
    constructor
    · exact fun hj => .inl ⟨hi, hj⟩
    · rintro (⟨-, hj⟩ | ⟨hv, hj⟩)
      · exact hj
      · rw [hj, ← hi, hv]
  · rw [if_neg hi, atoi_intToString_eq h₁]
    constructor
    · exact fun hv => .inr ⟨hv, hp.resolve_left hi⟩
    · rintro (⟨hu, -⟩ | ⟨hv, -⟩)
      · exact absurd hu hi
      · exact hv

theorem mem_befriend_related {s : Server} (h : ∀ p ∈ s.relations, InInt32 p.1 ∧ InInt32 p.2) {userid v : Int32}
    {friends : Finset Int32} :
    v ∈ befriend userid friends (s.related userid) ↔
      v ∈ friends ∨ (userid.toInt, v.toInt) ∈ s.relations ∨ (v.toInt, userid.toInt) ∈ s.relations := by
  rw [mem_befriend]
  refine or_congr_right ⟨?_, ?_⟩
  · rintro ⟨p, hp, hv⟩
    obtain ⟨hmem, hends⟩ := List.mem_filter.1 hp
    rcases (otherEnd_eq (h p hmem).1 (h p hmem).2 (by simpa using hends)).1 hv with rfl | rfl
    · exact .inl hmem
    · exact .inr hmem
  · rintro (hmem | hmem)
    · refine ⟨_, List.mem_filter.2 ⟨hmem, by simp⟩, ?_⟩
      exact (otherEnd_eq (h _ hmem).1 (h _ hmem).2 (.inl rfl)).2 (.inl rfl)
    · refine ⟨_, List.mem_filter.2 ⟨hmem, by simp⟩, ?_⟩
      exact (otherEnd_eq (h _ hmem).1 (h _ hmem).2 (.inr rfl)).2 (.inr rfl)

namespace Store

theorem relationRow_cells (userid : Int32) (friends : Finset Int32) (f : String → Field) (p : Int × Int) :
    UserManager.relationRow userid friends (List.zipWith Field.setValue
      ((Server.columnNames (.selectRelation userid)).map f)
      [some (intToString p.1), some (intToString p.2)]) = insert (otherEnd userid p) friends := by
  simp only [UserManager.relationRow, otherEnd, Server.columnNames, Field.toInt32, Field.value_setValue,
    List.map_cons, List.map_nil, List.zipWith_cons_cons, List.zipWith_nil_left, List.getD_cons_zero,
    List.getD_cons_succ, Option.getD_some]
  split <;> rfl

/-- Without an answer there is nothing to add, so the set is right whenever the `SELECT` succeeds. -/
theorem loadRelation_cases (s : Store) (userid : Int32) (friends : Finset Int32) :
    (s.mysql.outcome (.selectRelation userid) = .failed ∧
      s.loadRelation userid friends = .ok (false, friends, { s with mysql := s.mysql.after (.selectRelation userid) })) ∨
    ((s.mysql.outcome (.selectRelation userid)).Ends ∧ ∃ e, s.loadRelation userid friends = .error e) ∨
    ∃ rs, s.mysql.outcome (.selectRelation userid) = .rows rs ∧
      s.loadRelation userid friends = .ok (decide (rs ≠ []),
        befriend userid friends (s.mysql.client.server.related userid),
        { s with mysql := s.mysql.after (.selectRelation userid) }) := by
  have hsel := MysqlManager.selects_selectRelation userid
  rcases MysqlManager.query_cases hsel s.mysql with ⟨ho | ho, hq⟩ | ⟨ho, e, hq⟩ | ⟨row, rs, r, ho, hq⟩
  · exact .inl ⟨ho, by rw [loadRelation, hq]; rfl⟩
  · refine .inr (.inr ⟨[], ho, ?_⟩)
    have hnil : s.mysql.client.server.related userid = [] :=
      List.map_eq_nil_iff.1 (Option.some.inj (MysqlManager.resultRows_of_outcome hsel ho))
    rw [loadRelation, hq, hnil]
    rfl
  · exact .inr (.inl ⟨ho, e, by rw [loadRelation, hq]; rfl⟩)
  · refine .inr (.inr ⟨row :: rs, ho, ?_⟩)
    obtain ⟨res, hd⟩ := MysqlManager.query_some hq
    have hrows : res.rows = _ := (Option.some.inj hd.rows_eq).symm
    have hcur : r.currentRow.length = res.fields.length := by rw [hd.currentRow_eq, List.length_map]
    have hfold : r.forEachRow friends (UserManager.relationRow userid) =
        befriend userid friends (s.mysql.client.server.related userid) := by
      rw [QueryResult.forEachRow_eq_foldl _ hd.res_eq hcur, hrows, List.foldl_map, hd.currentRow_eq,
        hd.fields_eq, List.map_map]
      simp only [relationRow_cells]
      rfl
    rw [loadRelation, hq, ← hfold]
    rfl

/-! ### The loop over the users -/

def befriended (s : Server) (u : User) : User :=
  { u with friends := befriend u.userId u.friends (s.related u.userId) }

theorem loadRelations_cons {s s₁ : Store} {u : User} {ok : Bool} {friends : Finset Int32}
    (h : s.loadRelation u.userId u.friends = .ok (ok, friends, s₁)) (us : List User) :
    s.loadRelations (u :: us) = do
      let (us, s) ← s₁.loadRelations us
      return ({ u with friends := friends } :: us, s) := by
  rw [loadRelations, h]
  rfl

/-- A failure is passed over; only the constructor of a result can end the loop. -/
theorem loadRelations_returns (s : Store) (us : List User) :
    (s.loadRelations us).Returns ↔ ∀ o ∈ s.mysql.outcomes (us.map User.userId), ¬ o.Ends := by
  induction us generalizing s with
  | nil => simp [loadRelations, MysqlManager.outcomes]
  | cons u us ih =>
    rw [List.map_cons, MysqlManager.outcomes, List.forall_mem_cons]
    have hnext : ∀ {ok friends}, s.loadRelation u.userId u.friends = .ok (ok, friends,
        { s with mysql := s.mysql.after (.selectRelation u.userId) }) →
        ((s.loadRelations (u :: us)).Returns ↔
          ∀ o ∈ (s.mysql.after (.selectRelation u.userId)).outcomes (us.map User.userId), ¬ o.Ends) := by
      intro ok friends h
      rw [loadRelations_cons h]
      refine (Except.returns_bind (P := True) fun p => iff_true_intro (Except.returns_pure _)).trans ?_
      rw [and_true, ih]
    rcases loadRelation_cases s u.userId u.friends with ⟨ho, h⟩ | ⟨ho, e, h⟩ | ⟨rs, ho, h⟩
    · rw [hnext h, ho, and_iff_right nofun]
    · rw [loadRelations, h]
      exact iff_of_false (Except.not_returns_error e) fun hends => hends.1 ho
    · rw [hnext h, ho, and_iff_right nofun]

theorem loadRelations_succeeds {s : Store} {us : List User}
    (h : ∀ o ∈ s.mysql.outcomes (us.map User.userId), o.Succeeds) :
    ∃ s', s.loadRelations us = .ok (us.map (befriended s.mysql.client.server), s') := by
  induction us generalizing s with
  | nil => exact ⟨s, rfl⟩
  | cons u us ih =>
    rw [List.map_cons, MysqlManager.outcomes] at h
    obtain ⟨rs, ho⟩ := h _ (.head _)
    rcases loadRelation_cases s u.userId u.friends with ⟨ho', -⟩ | ⟨ho', -⟩ | ⟨_, -, hload⟩
    · cases ho.symm.trans ho'
    · rw [ho] at ho'
      exact absurd ho' nofun
    · obtain ⟨s', hs'⟩ := @ih { s with mysql := s.mysql.after (.selectRelation u.userId) }
        fun o ho => h o (.tail _ ho)
      refine ⟨s', ?_⟩
      rw [loadRelations_cons hload, hs', MysqlManager.server_after (MysqlManager.selects_selectRelation _)]
      rfl

/-! ### `init` -/

theorem loadUsers_cases (s : Store) :
    ((s.mysql.outcome .selectUsers = .failed ∨ s.mysql.outcome .selectUsers = .rows []) ∧
      s.loadUsers = .ok (false, { s with mysql := s.mysql.after .selectUsers })) ∨
    ((s.mysql.outcome .selectUsers).Ends ∧ ∃ e, s.loadUsers = .error e) ∨
    ∃ row rs s', s.mysql.outcome .selectUsers = .rows (row :: rs) ∧ s.loadUsers = .ok (true, s') ∧
      s'.mysql = s.mysql.after .selectUsers := by
  rcases MysqlManager.query_cases MysqlManager.selects_selectUsers s.mysql with
    ⟨ho, hq⟩ | ⟨ho, e, hq⟩ | ⟨row, rs, r, ho, hq⟩
  · exact .inl ⟨ho, by rw [loadUsers, hq]; rfl⟩
  · exact .inr (.inl ⟨ho, e, by rw [loadUsers, hq]; rfl⟩)
  · exact .inr (.inr ⟨row, rs, _, ho, by rw [loadUsers, hq]; rfl, rfl⟩)

/-- The users whose relations `init` asks for. -/
def idsLoaded (s : Store) : List Int32 :=
  s.users.cachedUsers.map User.userId ++
    s.mysql.client.server.usersDesc.map fun r => (User.ofRow s.uninit r).userId

def relationOutcomes (s : Store) : List Outcome := (s.mysql.after .selectUsers).outcomes s.idsLoaded

theorem idsLoaded_eq {s s' : Store} (h : s.loadUsers = .ok (true, s')) :
    s'.users.cachedUsers.map User.userId = s.idsLoaded := by
  rw [(loadUsers_true h).1, UserManager.pushAll_cachedUsers, List.map_append, List.map_map]
  rfl

theorem init_true_iff (s : Store) :
    (∃ s', s.init = .ok (true, s')) ↔
      (∃ row rs, s.mysql.outcome .selectUsers = .rows (row :: rs)) ∧ ∀ o ∈ s.relationOutcomes, ¬ o.Ends := by
  rw [init]
  rcases loadUsers_cases s with ⟨ho, h⟩ | ⟨ho, e, h⟩ | ⟨row, rs, s₁, ho, h, hmysql⟩
  · rw [h]
    refine iff_of_false ?_ ?_
    · rintro ⟨s', hs'⟩
      cases hs'
    · rintro ⟨⟨row, rs, hrows⟩, -⟩
      rcases ho with ho | ho <;> cases ho.symm.trans hrows
  · rw [h]
    refine iff_of_false ?_ ?_
    · rintro ⟨s', hs'⟩
      cases hs'
    · rintro ⟨⟨row, rs, hrows⟩, -⟩
      rw [hrows] at ho
      exact absurd ho nofun
  · have hret := loadRelations_returns s₁ s₁.users.cachedUsers
    rw [idsLoaded_eq h, hmysql, ← relationOutcomes] at hret
    rw [← hret, h, Except.ok_bind]
    constructor
    · rintro ⟨s', hs'⟩
      obtain ⟨p, hload, -⟩ := Except.bind_eq_ok.1 hs'
      exact ⟨⟨row, rs, ho⟩, p, hload⟩
    · rintro ⟨-, ⟨us, s₂⟩, hload⟩
      simp only [hload, Except.ok_bind]
      exact ⟨_, rfl⟩

/-- Every relation `SELECT` succeeds: then each user loaded has the friends its pairs give it. -/
theorem init_cachedUsers {s s' : Store} (hall : ∀ o ∈ s.relationOutcomes, o.Succeeds)
    (h : s.init = .ok (true, s')) :
    s'.users.cachedUsers =
      (s.users.cachedUsers ++ s.mysql.client.server.usersDesc.map (User.ofRow s.uninit)).map
        (befriended s.mysql.client.server) := by
  obtain ⟨⟨ok, s₁⟩, hload, h⟩ := Except.bind_eq_ok.1 h
  cases ok with
  | false => cases h
  | true =>
    rcases loadUsers_cases s with ⟨-, hl⟩ | ⟨-, e, hl⟩ | ⟨row, rs, s₂, -, hl, hmysql⟩
    · cases hload.symm.trans hl
    · cases hload.symm.trans hl
    cases hload.symm.trans hl
    have hall' : ∀ o ∈ s₁.mysql.outcomes (s₁.users.cachedUsers.map User.userId), o.Succeeds := by
      rw [idsLoaded_eq hload, hmysql]
      exact hall
    obtain ⟨s₃, hrel⟩ := loadRelations_succeeds hall'
    obtain ⟨husers, hserver, -⟩ := loadUsers_true hload
    simp only [hrel, Except.ok_bind] at h
    cases h
    show s₁.users.cachedUsers.map _ = _
    rw [hserver, husers, UserManager.pushAll_cachedUsers]

structure FriendsSymmetric (relations : List (Int × Int)) (users : List User) : Prop where
  closure : ∀ u ∈ users, ∀ v : Int32, v ∈ u.friends ↔
    (u.userId.toInt, v.toInt) ∈ relations ∨ (v.toInt, u.userId.toInt) ∈ relations
  symm : ∀ a ∈ users, ∀ b ∈ users, b.userId ∈ a.friends ↔ a.userId ∈ b.friends

/-- The friends loaded by `init` are the symmetric closure of the pairs. -/
theorem init_friends_symmetric {mysql : MysqlManager} {uninit : Int32} {s' : Store}
    (hrelations : ∀ p ∈ mysql.client.server.relations, InInt32 p.1 ∧ InInt32 p.2)
    (hall : ∀ o ∈ (start mysql uninit).relationOutcomes, o.Succeeds)
    (h : (start mysql uninit).init = .ok (true, s')) :
    FriendsSymmetric mysql.client.server.relations s'.users.cachedUsers := by
  have hclosure : ∀ u ∈ s'.users.cachedUsers, ∀ v : Int32, v ∈ u.friends ↔
      (u.userId.toInt, v.toInt) ∈ mysql.client.server.relations ∨
        (v.toInt, u.userId.toInt) ∈ mysql.client.server.relations := by
    intro u hu v
    rw [init_cachedUsers hall h] at hu
    obtain ⟨u₀, hu₀, rfl⟩ := List.mem_map.1 hu
    obtain ⟨r, -, rfl⟩ := List.mem_map.1 hu₀
    refine (mem_befriend_related hrelations).trans ⟨fun hv => ?_, .inr⟩
    exact hv.resolve_left (Finset.notMem_empty v)
  refine ⟨hclosure, fun a ha b hb => ?_⟩
  rw [hclosure a ha, hclosure b hb, or_comm]

/-- Three users: a pair both ways round, a pair of one user with itself, one with a stranger. -/
def friendsDemo : MysqlManager where
  mysqlToolPtr := some { mysql := true }
  client := { server := {
    users := [
      { userId := 1, username := ascii "a", nickname := [], password := [] },
      { userId := 2, username := ascii "b", nickname := [], password := [] },
      { userId := 3, username := ascii "c", nickname := [], password := [] }]
    relations := [(1, 2), (2, 1), (1, 1), (9, 2)] } }

theorem init_friends_symmetric_three :
    ∃ s', (start friendsDemo 0).init = .ok (true, s') ∧
      s'.users.cachedUsers.map User.friends = [∅, {1, 9}, {1, 2}] ∧
      FriendsSymmetric friendsDemo.client.server.relations s'.users.cachedUsers := by
  have hrelations : ∀ p ∈ friendsDemo.client.server.relations, InInt32 p.1 ∧ InInt32 p.2 := by
    unfold InInt32
    decide
  exact ⟨_, rfl, by decide, init_friends_symmetric hrelations (by decide) rfl⟩

/-! ### What is reported -/

/-- The three functions tell a failure from an empty result. -/
structure ReportsTruly (s : Store) (userid : Int32) (friends : Finset Int32) : Prop where
  loadUsers : ∃ ok s', s.loadUsers = .ok (ok, s') ∧ (ok = false ↔ ¬ (s.mysql.outcome .selectUsers).Succeeds)
  loadRelation : ∃ ok friends' s', s.loadRelation userid friends = .ok (ok, friends', s') ∧
    (ok = false ↔ ¬ (s.mysql.outcome (.selectRelation userid)).Succeeds)
  init : ∀ s', s.init = .ok (true, s') → ∀ o ∈ s.relationOutcomes, o.Succeeds

/-- The `SELECT`s are executed with at least one row, or not executed; and if the users come, a
relation `SELECT` that is not executed is followed or preceded by one that ends the server. -/
structure Tellable (s : Store) (userid : Int32) : Prop where
  users : ¬ (s.mysql.outcome .selectUsers).Misreported
  relation : ¬ (s.mysql.outcome (.selectRelation userid)).Misreported
  init : (s.mysql.outcome .selectUsers).Succeeds →
    (∃ o ∈ s.relationOutcomes, o.Ends) ∨ .failed ∉ s.relationOutcomes

theorem reports_loadUsers (s : Store) :
    (∃ ok s', s.loadUsers = .ok (ok, s') ∧ (ok = false ↔ ¬ (s.mysql.outcome .selectUsers).Succeeds)) ↔
      ¬ (s.mysql.outcome .selectUsers).Misreported := by
  rcases loadUsers_cases s with ⟨ho | ho, h⟩ | ⟨ho, e, h⟩ | ⟨row, rs, s', ho, h, -⟩
  · simp [h, ho, Outcome.Succeeds, Outcome.Misreported, Outcome.Ends]
  · simp [h, ho, Outcome.Succeeds, Outcome.Misreported]
  · simp [h, ho, Outcome.Misreported]
  · simp [h, ho, Outcome.Succeeds, Outcome.Misreported, Outcome.Ends]

theorem reports_loadRelation (s : Store) (userid : Int32) (friends : Finset Int32) :
    (∃ ok friends' s', s.loadRelation userid friends = .ok (ok, friends', s') ∧
      (ok = false ↔ ¬ (s.mysql.outcome (.selectRelation userid)).Succeeds)) ↔
      ¬ (s.mysql.outcome (.selectRelation userid)).Misreported := by
  rcases loadRelation_cases s userid friends with ⟨ho, h⟩ | ⟨ho, e, h⟩ | ⟨rs, ho, h⟩
  · simp [h, ho, Outcome.Succeeds, Outcome.Misreported, Outcome.Ends]
  · simp [h, ho, Outcome.Misreported]
  · simp [h, ho, Outcome.Succeeds, Outcome.Misreported, Outcome.Ends]

theorem reports_init {s : Store} (h : ¬ (s.mysql.outcome .selectUsers).Misreported) :
    (∀ s', s.init = .ok (true, s') → ∀ o ∈ s.relationOutcomes, o.Succeeds) ↔
      ((s.mysql.outcome .selectUsers).Succeeds →
        (∃ o ∈ s.relationOutcomes, o.Ends) ∨ .failed ∉ s.relationOutcomes) := by
  constructor
  · rintro hinit ⟨rs, ho⟩
    by_contra hbad
    simp only [not_or, not_not, not_exists, not_and] at hbad
    rcases rs with _ | ⟨row, rs⟩
    · exact h (.inr ho)
    obtain ⟨s', hs'⟩ := (init_true_iff s).2 ⟨⟨row, rs, ho⟩, hbad.1⟩
    obtain ⟨rs', heq⟩ := hinit s' hs' _ hbad.2
    cases heq
  · intro hcond s' hs' o ho
    obtain ⟨⟨row, rs, hrows⟩, hread⟩ := (init_true_iff s).1 ⟨s', hs'⟩
    have hfailed := (hcond ⟨_, hrows⟩).resolve_left fun ⟨o', ho', hends⟩ => hread o' ho' hends
    cases o with
    | failed => exact absurd ho hfailed
    | unread => exact absurd (.inl rfl) (hread _ ho)
    | harmed => exact absurd (.inr rfl) (hread _ ho)
    | rows rs => exact ⟨rs, rfl⟩

theorem reports_truly_iff (s : Store) (userid : Int32) (friends : Finset Int32) :
    ReportsTruly s userid friends ↔ Tellable s userid := by
  constructor
  · intro h
    have husers := (reports_loadUsers s).1 h.loadUsers
    exact ⟨husers, (reports_loadRelation s userid friends).1 h.loadRelation, (reports_init husers).1 h.init⟩
  · intro h
    exact ⟨(reports_loadUsers s).2 h.users, (reports_loadRelation s userid friends).2 h.relation,
      (reports_init h.users).2 h.init⟩

/-- A new installation: no users yet, every statement succeeds. -/
def freshDatabase : MysqlManager where
  mysqlToolPtr := some { mysql := true }

theorem empty_table_reported_as_failure :
    (start freshDatabase 0).mysql.outcome .selectUsers = .rows [] ∧
      (start freshDatabase 0).loadUsers = .ok (false, start freshDatabase 0) ∧
      (start freshDatabase 0).init = .ok (false, start freshDatabase 0) ∧
      ¬ ReportsTruly (start freshDatabase 0) 1 ∅ := by
  refine ⟨rfl, rfl, rfl, fun h => ?_⟩
  exact (reports_loadUsers _).1 h.loadUsers (.inr rfl)

end Store

end IMServer
