import IMServer.UserManager

/-!
# User ids

Counter, cache and table move together: every id in the cache is in the table and the other way
round, and the counter is at or above all of them. A registration takes the number behind the
counter, for the statement and again for the record.
-/

namespace IMServer

/-- The ids of a table: pairwise distinct `int32` numbers. -/
structure DistinctIds (rows : List UserRow) : Prop where
  nodup : (rows.map UserRow.userId).Nodup
  int32 : ∀ r ∈ rows, -2 ^ 31 ≤ r.userId ∧ r.userId < 2 ^ 31

namespace Store

def start (mysql : MysqlManager) (uninit : Int32) : Store := { mysql := mysql, uninit := uninit }

/-- `loadUsers` whose `SELECT` did not fail: a table without rows is reported like a failure. -/
def Loads (s₀ s : Store) : Prop := ∃ ok, s₀.loadUsers = .ok (ok, s) ∧ (ok = true ∨ s₀.table = [])

/-- The states reached from `s₀` by `loadUsers` and then `addUser` calls of which each was allowed. -/
inductive Runs (allowed : Store → User → Prop) (s₀ : Store) : Store → Prop
  | load {s : Store} (h : Loads s₀ s) : Runs allowed s₀ s
  | add {s : Store} (h : Runs allowed s₀ s) (user : User) (hok : allowed s user) :
      Runs allowed s₀ (s.addUser user).2.2

def Room (s : Store) (_ : User) : Prop := s.users.currentUserId.toInt < 2 ^ 31 - 1

instance (s : Store) (user : User) : Decidable (s.Room user) := inferInstanceAs (Decidable (_ < _))

structure IdInv (s : Store) : Prop where
  nodup : (s.users.cachedUsers.map User.userId).Nodup
  le : ∀ u ∈ s.users.cachedUsers, u.userId.toInt ≤ s.users.currentUserId.toInt
  ids : ∀ i : Int, i ∈ s.users.cachedUsers.map (·.userId.toInt) ↔ i ∈ s.table.map UserRow.userId

end Store

theorem User.ofRow_userId (uninit : Int32) {r : UserRow} (h : -2 ^ 31 ≤ r.userId ∧ r.userId < 2 ^ 31) :
    (User.ofRow uninit r).userId.toInt = r.userId := ((atoi_intToString_eq h).1 rfl).symm

theorem Int32.toInt_succ {i : Int32} (h : i.toInt < 2 ^ 31 - 1) : (i + 1).toInt = i.toInt + 1 := by
  have hlo := Int32.le_toInt i
  have h1 : (1 : Int32).toInt = 1 := by decide
  rw [Int32.toInt_add, h1, Int.bmod]
  omega

theorem nodup_map_snoc {α β : Type} {f : α → β} {l : List α} {a : α} (h : (l.map f).Nodup)
    (ha : ∀ x ∈ l, f x ≠ f a) : ((l ++ [a]).map f).Nodup := by
  rw [List.map_append]
  refine List.Nodup.append h (List.nodup_singleton _) (List.disjoint_singleton.2 ?_)
  intro hmem
  obtain ⟨x, hx, heq⟩ := List.mem_map.1 hmem
  exact ha x hx heq

namespace Store
variable {s s' s₀ : Store}

theorem map_userId_ofRow (uninit : Int32) {rows : List UserRow} (h : DistinctIds rows) :
    (rows.map (User.ofRow uninit)).map (·.userId.toInt) = rows.map UserRow.userId := by
  rw [List.map_map]
  exact List.map_congr_left fun r hr => User.ofRow_userId uninit (h.int32 r hr)

theorem DistinctIds.perm {rows rows' : List UserRow} (h : DistinctIds rows) (hp : rows'.Perm rows) :
    DistinctIds rows' where
  nodup := (hp.map _).nodup_iff.2 h.nodup
  int32 := fun r hr => h.int32 r (hp.mem_iff.1 hr)

theorem Loads.spec {mysql : MysqlManager} {uninit : Int32} (h : Loads (start mysql uninit) s) :
    s.users = ({} : UserManager).pushAll (mysql.client.server.usersDesc.map (User.ofRow uninit)) ∧
      s.mysql.client.server = mysql.client.server := by
  obtain ⟨ok, h, hsel⟩ := h
  cases ok with
  | true =>
    obtain ⟨husers, hserver, -⟩ := loadUsers_true h
    exact ⟨husers, hserver⟩
  | false =>
    obtain ⟨husers, hserver⟩ := loadUsers_false h
    have hempty : mysql.client.server.users = [] := hsel.resolve_left (by simp)
    refine ⟨?_, hserver⟩
    rw [husers, Server.usersDesc, hempty]
    rfl

theorem Loads.cachedUsers_eq {mysql : MysqlManager} {uninit : Int32} (h : Loads (start mysql uninit) s) :
    s.users.cachedUsers = mysql.client.server.usersDesc.map (User.ofRow uninit) := by
  rw [h.spec.1, UserManager.pushAll_cachedUsers]
  rfl

theorem Loads.table_eq {mysql : MysqlManager} {uninit : Int32} (h : Loads (start mysql uninit) s) :
    s.table = mysql.client.server.users := congrArg Server.users h.spec.2

namespace IdInv

theorem load {mysql : MysqlManager} {uninit : Int32} (hids : DistinctIds mysql.client.server.users)
    (h : Loads (start mysql uninit) s) : IdInv s := by
  obtain ⟨husers, hserver⟩ := h.spec
  have hperm := Server.usersDesc_perm mysql.client.server
  have hdesc := DistinctIds.perm hids hperm
  have hmap := map_userId_ofRow uninit hdesc
  have hcached := h.cachedUsers_eq
  refine ⟨?_, ?_, ?_⟩
  · refine List.Nodup.of_map Int32.toInt ?_
    rw [List.map_map, hcached]
    exact hmap ▸ hdesc.nodup
  · intro u hu
    rw [hcached] at hu
    rw [husers]
    exact Int32.le_iff_toInt_le.1 ((UserManager.le_currentUserId_pushAll _ _).2 u hu)
  · intro i
    rw [hcached, hmap, table, hserver]
    exact (hperm.map _).mem_iff

theorem add (h : IdInv s) (user : User) (hroom : s.Room user) : IdInv (s.addUser user).2.2 := by
  have hsucc := Int32.toInt_succ hroom
  rcases addUser_cases s user with ⟨mysql, he, hserver⟩ | ⟨mysql, he, hserver⟩
  · rw [he]
    refine ⟨?_, ?_, ?_⟩
    · refine nodup_map_snoc h.nodup fun u hu heq => ?_
      have hle := h.le u hu
      rw [heq] at hle
      simp only [registered] at hle
      omega
    · intro u hu
      simp only
      rw [hsucc]
      rcases List.mem_append.1 hu with hu | hu
      · have := h.le u hu; omega
      · rw [List.mem_singleton.1 hu, registered]
        exact Int.le_of_eq hsucc
    · intro i
      have ht := h.ids i
      rw [table] at ht ⊢
      simp only [List.map_append, List.mem_append, hserver, Server.apply, ht]
      simp [registered]
  · rw [he]
    exact ⟨h.nodup, h.le, fun i => by rw [table]; simp only [hserver]; exact h.ids i⟩

end IdInv

theorem Runs.idInv {mysql : MysqlManager} {uninit : Int32} {allowed : Store → User → Prop}
    (hroom : ∀ s user, allowed s user → Room s user)
    (hids : DistinctIds mysql.client.server.users) (h : Runs allowed (start mysql uninit) s) : IdInv s := by
  induction h with
  | load h => exact .load hids h
  | add _ user hok ih => exact ih.add user (hroom _ _ hok)

/-- No id is given twice, whatever the statements' outcomes are: the new one is above all that were
loaded or assigned before, and it is the one in the table. -/
theorem userIds_never_reused {mysql : MysqlManager} {uninit : Int32}
    (hids : DistinctIds mysql.client.server.users) (h : Runs Room (start mysql uninit) s) :
    IdInv s ∧ ∀ user : User, s.Room user →
      (∀ user' s', s.addUser user = (true, user', s') →
        (∀ u ∈ s.users.cachedUsers, u.userId.toInt < user'.userId.toInt) ∧
        s'.users.cachedUsers = s.users.cachedUsers ++ [user'] ∧
        ∃ row, s'.table = s.table ++ [row] ∧ row.userId = user'.userId.toInt) ∧
      (∀ user' s', s.addUser user = (false, user', s') →
        s'.users = s.users ∧ user' = user ∧ s'.table = s.table) := by
  have hinv := h.idInv (fun _ _ h => h) hids
  refine ⟨hinv, fun user hroom => ?_⟩
  have hsucc := Int32.toInt_succ hroom
  rcases addUser_cases s user with ⟨mysql, he, hserver⟩ | ⟨mysql, he, hserver⟩
  · refine ⟨fun user' s' h => ?_, fun user' s' h => absurd (he.symm.trans h) (by simp)⟩
    cases he.symm.trans h
    refine ⟨fun u hu => ?_, rfl, _, congrArg Server.users hserver, insertedRow_userId ..⟩
    have := hinv.le u hu
    simp only [registered, hsucc]
    omega
  · refine ⟨fun user' s' h => absurd (he.symm.trans h) (by simp), fun user' s' h => ?_⟩
    cases he.symm.trans h
    exact ⟨rfl, rfl, congrArg Server.users hserver⟩

/-- Two users loaded, then a registration that fails on a duplicate key and one that succeeds. -/
def idsDemo : MysqlManager where
  mysqlToolPtr := some { mysql := true }
  client := {
    queries := [none, some 1062, none]
    server := {
      users := [
        { userId := 10003, username := ascii "a", nickname := [], password := [] },
        { userId := 10007, username := ascii "b", nickname := [], password := [] }] } }

theorem userIds_never_reused_two_rows :
    ∃ s, Runs Room (start idsDemo 0) s ∧
      s.users.cachedUsers.map User.userId = [10007, 10003, 10008] ∧ IdInv s := by
  have hids : DistinctIds idsDemo.client.server.users := ⟨by decide, by decide⟩
  have hload : Runs Room (start idsDemo 0) _ := .load ⟨true, rfl, .inl rfl⟩
  have hrun := (hload.add (User.new 0) (by decide)).add (User.new 0) (by decide)
  exact ⟨_, hrun, by decide, (userIds_never_reused hids hrun).1⟩

def oneUser : MysqlManager where
  mysqlToolPtr := some { mysql := true }
  client := { server := {
    users := [{ userId := 10001, username := ascii "ann", nickname := [], password := ascii "pw" }] } }

def oneUserLoaded : Store :=
  match (start oneUser 0).loadUsers with
  | .ok (_, s) => s
  | .error _ => {}

theorem oneUserLoaded_runs (allowed : Store → User → Prop) : Runs allowed (start oneUser 0) oneUserLoaded :=
  .load ⟨true, rfl, .inl rfl⟩

end Store

end IMServer
