import IMServer.MysqlManager
import Mathlib.Data.Finset.Insert

/-!
# `UserManager`

The users the server knows, kept in a list that is filled from the table at start and grows with
every registration. The lookups in the database are stubs: they report success and fill in nothing.
-/

namespace IMServer

/-- Members without an initialiser are indeterminate. -/
structure User where
  userId : Int32 := 0
  userName : Bytes := []
  passWord : Bytes := []
  nickName : Bytes := []
  signature : Bytes := []
  faceType : Int32 := -1
  customFace : Bytes := []
  customFaceFmt : Bytes := []
  gender : Int32 := 0
  birthDay : Int32
  adress : Bytes := []
  pthone : Bytes := []
  mail : Bytes := []
  ownerid : Int32
  friends : Finset Int32 := ∅
deriving DecidableEq

/-- `User user;` where memory holds `uninit`. -/
def User.new (uninit : Int32) : User := { birthDay := uninit, ownerid := uninit }

structure UserManager where
  cachedUsers : List User := []
  currentUserId : Int32 := 10000
deriving DecidableEq

/-- The singletons `UserManager` and `MysqlManager`. -/
structure Store where
  users : UserManager := {}
  mysql : MysqlManager := {}
  /-- what uninitialised members hold -/
  uninit : Int32 := 0
deriving DecidableEq

namespace UserManager

def fromCached (um : UserManager) (p : User → Bool) (user : User) : Bool × User :=
  match um.cachedUsers.find? p with
  | some u => (true, u)
  | none => (false, user)

def getUserInfoFromCached (um : UserManager) (username : Bytes) (user : User) : Bool × User :=
  um.fromCached (fun u => u.userName = username) user

def getUserInfoFromCachedId (um : UserManager) (userid : Int32) (user : User) : Bool × User :=
  um.fromCached (fun u => u.userId = userid) user

def getUserInfoFromDB (_ : UserManager) (_ : Bytes) (user : User) : Bool × User := (true, user)

def getUserInfoFromDBId (_ : UserManager) (_ : Int32) (user : User) : Bool × User := (true, user)

def loadRow (uninit : Int32) (um : UserManager) (row : List Field) : UserManager :=
  let cell (i : Nat) : Field := row.getD i {}
  let user : User := { User.new uninit with
    userId := (cell 0).toInt32
    userName := (cell 1).getValue
    nickName := (cell 2).getValue
    passWord := (cell 3).getValue
    faceType := (cell 4).toInt32
    customFace := (cell 5).getValue
    gender := (cell 6).toInt32
    birthDay := (cell 7).toInt32
    signature := (cell 8).getValue
    adress := (cell 9).getValue
    pthone := (cell 10).getValue
    mail := (cell 11).getValue }
  { cachedUsers := um.cachedUsers ++ [user]
    currentUserId := if um.currentUserId < user.userId then user.userId else um.currentUserId }

def relationRow (userid : Int32) (friends : Finset Int32) (row : List Field) : Finset Int32 :=
  let cell (i : Nat) : Field := row.getD i {}
  let id1 := (cell 0).toInt32
  let id2 := (cell 1).toInt32
  if id1 = userid then insert id2 friends else insert id1 friends

end UserManager

namespace Store

def addUser (s : Store) (user : User) : Bool × User × Store :=
  match s.mysql.excute (.insertUser (s.users.currentUserId + 1) user.userName user.nickName user.nickName) with
  | (false, mysql) => (false, user, { s with mysql := mysql })
  | (true, mysql) =>
    let currentUserId := s.users.currentUserId + 1
    let user := { user with
      userId := currentUserId, faceType := 0, birthDay := 20000101, gender := 0, ownerid := 0 }
    (true, user, { s with
      users := { cachedUsers := s.users.cachedUsers ++ [user], currentUserId := currentUserId }
      mysql := mysql })

def loadUsers (s : Store) : Except Fault (Bool × Store) := do
  match ← s.mysql.query .selectUsers with
  | (none, mysql) => return (false, { s with mysql := mysql })
  | (some res, mysql) =>
    return (true, { s with users := res.forEachRow s.users (UserManager.loadRow s.uninit), mysql := mysql })

def loadRelation (s : Store) (userid : Int32) (friends : Finset Int32) :
    Except Fault (Bool × Finset Int32 × Store) := do
  match ← s.mysql.query (.selectRelation userid) with
  | (none, mysql) => return (false, friends, { s with mysql := mysql })
  | (some res, mysql) =>
    return (true, res.forEachRow friends (UserManager.relationRow userid), { s with mysql := mysql })

/-- The loop of `init` over the users that are left: a failure is only logged. -/
def loadRelations (s : Store) : List User → Except Fault (List User × Store)
  | [] => return ([], s)
  | iter :: users => do
    let (_, friends, s) ← s.loadRelation iter.userId iter.friends
    let (users, s) ← s.loadRelations users
    return ({ iter with friends := friends } :: users, s)

def init (s : Store) : Except Fault (Bool × Store) := do
  match ← s.loadUsers with
  | (false, s) => return (false, s)
  | (true, s) =>
    let (users, s) ← s.loadRelations s.users.cachedUsers
    return (true, { s with users := { s.users with cachedUsers := users } })

def table (s : Store) : List UserRow := s.mysql.client.server.users

end Store

/-! ### One spec for each -/

/-- The record `loadUsers` makes of a row. -/
def User.ofRow (uninit : Int32) (r : UserRow) : User :=
  { User.new uninit with
    userId := atoi (intToString r.userId)
    userName := r.username
    nickName := r.nickname
    passWord := r.password
    faceType := atoi ((r.facetype.map intToString).getD [])
    customFace := r.customface.getD []
    gender := atoi ((r.gender.map intToString).getD [])
    birthDay := atoi ((r.birthday.map intToString).getD [])
    signature := r.signature.getD []
    adress := r.address.getD []
    pthone := r.phonenumber.getD []
    mail := r.mail.getD [] }

theorem Field.value_setValue (f : Field) (cell : Option Bytes) :
    (f.setValue cell).value = cell.getD [] := by
  cases cell with
  | none => rfl
  | some v =>
    rw [setValue]
    split
    · next h => exact (List.length_eq_zero_iff.1 h).symm
    · rfl

namespace UserManager

def push (um : UserManager) (user : User) : UserManager where
  cachedUsers := um.cachedUsers ++ [user]
  currentUserId := if um.currentUserId < user.userId then user.userId else um.currentUserId

theorem loadRow_cells (uninit : Int32) (um : UserManager) (f : String → Field) (r : UserRow) :
    um.loadRow uninit (List.zipWith Field.setValue ((Server.columnNames .selectUsers).map f)
      [some (intToString r.userId), some r.username, some r.nickname, some r.password,
        r.facetype.map intToString, r.customface, r.gender.map intToString, r.birthday.map intToString,
        r.signature, r.address, r.phonenumber, r.mail]) = um.push (User.ofRow uninit r) := by
  simp [loadRow, push, User.ofRow, Server.columnNames, Field.toInt32, Field.getValue,
    Field.value_setValue]
  rfl

def pushAll (um : UserManager) (us : List User) : UserManager := us.foldl push um

theorem pushAll_cachedUsers (um : UserManager) (us : List User) :
    (um.pushAll us).cachedUsers = um.cachedUsers ++ us := by
  induction us generalizing um with
  | nil => simp [pushAll]
  | cons u us ih =>
    rw [pushAll, List.foldl_cons]
    exact (ih (um.push u)).trans (by simp [push])

theorem le_currentUserId_push (um : UserManager) (u : User) :
    um.currentUserId ≤ (um.push u).currentUserId ∧ u.userId ≤ (um.push u).currentUserId := by
  unfold push
  split
  · next h => exact ⟨Int32.le_of_lt h, Int32.le_refl _⟩
  · next h => exact ⟨Int32.le_refl _, Int32.not_lt.1 h⟩

theorem le_currentUserId_pushAll (um : UserManager) (us : List User) :
    um.currentUserId ≤ (um.pushAll us).currentUserId ∧
      ∀ u ∈ us, u.userId ≤ (um.pushAll us).currentUserId := by
  induction us generalizing um with
  | nil => exact ⟨Int32.le_refl _, by simp⟩
  | cons u us ih =>
    obtain ⟨h₁, h₂⟩ := ih (um.push u)
    obtain ⟨h₃, h₄⟩ := le_currentUserId_push um u
    refine ⟨Int32.le_trans h₃ h₁, fun v hv => ?_⟩
    rcases List.mem_cons.1 hv with rfl | hv
    · exact Int32.le_trans h₄ h₁
    · exact h₂ v hv

end UserManager

namespace Store
variable {s s' : Store}

theorem loadUsers_true (h : s.loadUsers = .ok (true, s')) :
    s'.users = s.users.pushAll (s.mysql.client.server.usersDesc.map (User.ofRow s.uninit)) ∧
      s'.mysql.client.server = s.mysql.client.server ∧ s'.uninit = s.uninit := by
  obtain ⟨⟨q, mysql⟩, hq, h⟩ := Except.bind_eq_ok.1 h
  cases q with
  | none => cases h
  | some r =>
    cases h
    obtain ⟨res, hd⟩ := MysqlManager.query_some hq
    refine ⟨?_, MysqlManager.server_query hq rfl, rfl⟩
    have hrows : res.rows = _ := (Option.some.inj hd.rows_eq).symm
    have hcur : r.currentRow.length = res.fields.length := by rw [hd.currentRow_eq, List.length_map]
    rw [QueryResult.forEachRow_eq_foldl _ hd.res_eq hcur, hrows, List.foldl_map, hd.currentRow_eq,
      hd.fields_eq, List.map_map, UserManager.pushAll, List.foldl_map]
    simp only [UserManager.loadRow_cells]
    rfl

theorem loadUsers_false (h : s.loadUsers = .ok (false, s')) :
    s'.users = s.users ∧ s'.mysql.client.server = s.mysql.client.server := by
  obtain ⟨⟨q, mysql⟩, hq, h⟩ := Except.bind_eq_ok.1 h
  cases q with
  | none => cases h; exact ⟨rfl, MysqlManager.server_query hq rfl⟩
  | some r => cases h

/-- `addUser` with the user as it is kept when the `INSERT` succeeds. -/
def registered (s : Store) (user : User) : User :=
  { user with userId := s.users.currentUserId + 1, faceType := 0, birthDay := 20000101, gender := 0, ownerid := 0 }

/-- The row that the `INSERT` of `addUser` writes. -/
def newRow (s : Store) (user : User) : UserRow :=
  insertedRow (s.users.currentUserId + 1) user.userName user.nickName user.nickName

/-- Either the statement was executed, and then the table, the cache and the counter move together,
or nothing but the connection has changed. -/
theorem addUser_cases (s : Store) (user : User) :
    (∃ mysql, s.addUser user = (true, s.registered user, { s with
        users := { cachedUsers := s.users.cachedUsers ++ [s.registered user]
                   currentUserId := s.users.currentUserId + 1 }
        mysql := mysql }) ∧
      mysql.client.server = s.mysql.client.server.apply
        (.insertUser (s.users.currentUserId + 1) user.userName user.nickName user.nickName)) ∨
    (∃ mysql, s.addUser user = (false, user, { s with mysql := mysql }) ∧
      mysql.client.server = s.mysql.client.server) := by
  unfold addUser
  split
  · next mysql h => exact .inr ⟨mysql, rfl, MysqlManager.server_excute h⟩
  · next mysql h => exact .inl ⟨mysql, rfl, MysqlManager.server_excute h⟩

end Store

end IMServer
