import IMServer.RegistrationSql
import Mathlib.Logic.Relation

/-!
# Names and accounts

A login names its account by the id or by the username. Ids are kept apart by the counter, names by
nothing: neither `addUser` nor the table refuses a name that is taken. As long as every name that is
registered is a new one and stands for itself in the text of its `INSERT`, a name denotes one account,
before and after a restart.
-/

namespace IMServer

theorem find?_of_nodup_map {α β : Type} [DecidableEq β] {f : α → β} {l : List α} (h : (l.map f).Nodup) {a : α}
    (ha : a ∈ l) : l.find? (fun x => f x = f a) = some a := by
  cases hf : l.find? (fun x => f x = f a) with
  | none => exact absurd (List.find?_eq_none.1 hf a ha) (by simp)
  | some b =>
    have hb : f b = f a := by simpa using List.find?_some hf
    rw [List.inj_on_of_nodup_map h (List.mem_of_find?_eq_some hf) ha hb]

/-- What a login can name: the id and the username. -/
def User.account (u : User) : Int × Bytes := (u.userId.toInt, u.userName)

def UserRow.account (r : UserRow) : Int × Bytes := (r.userId, r.username)

namespace UserManager
variable {um : UserManager}

theorem getUserInfoFromCached_mem (h : (um.cachedUsers.map User.userName).Nodup) {u : User}
    (hu : u ∈ um.cachedUsers) (user : User) : um.getUserInfoFromCached u.userName user = (true, u) := by
  rw [getUserInfoFromCached, fromCached, find?_of_nodup_map h hu]

theorem getUserInfoFromCachedId_mem (h : (um.cachedUsers.map User.userId).Nodup) {u : User}
    (hu : u ∈ um.cachedUsers) (user : User) : um.getUserInfoFromCachedId u.userId user = (true, u) := by
  rw [getUserInfoFromCachedId, fromCached, find?_of_nodup_map h hu]

theorem getUserInfoFromCached_not_mem {username : Bytes}
    (h : ∀ u ∈ um.cachedUsers, u.userName ≠ username) (user : User) :
    um.getUserInfoFromCached username user = (false, user) := by
  rw [getUserInfoFromCached, fromCached, List.find?_eq_none.2 (by simpa using h)]

theorem fromCached_snoc_new {p : User → Bool} {u : User} {next : Int32}
    (h : ∀ x ∈ um.cachedUsers, p x = false) (hu : p u = true) (out : User) :
    fromCached ⟨um.cachedUsers ++ [u], next⟩ p out = (true, u) := by
  have hnone : um.cachedUsers.find? p = none := List.find?_eq_none.2 fun x hx => by simp [h x hx]
  rw [fromCached, List.find?_append, hnone, Option.none_or, List.find?_cons_of_pos hu]

theorem fromCached_snoc_other {p : User → Bool} {u : User} {next : Int32} (hu : p u = false) (out : User) :
    fromCached ⟨um.cachedUsers ++ [u], next⟩ p out = um.fromCached p out := by
  rw [fromCached, fromCached, List.find?_append, List.find?_cons_of_neg (by simp [hu]), List.find?_nil,
    Option.or_none]

end UserManager

namespace Store
variable {s s' : Store}

structure OneAccount (s : Store) : Prop where
  nodup : (s.users.cachedUsers.map User.userName).Nodup
  same_record : ∀ u ∈ s.users.cachedUsers, ∀ user,
    s.users.getUserInfoFromCached u.userName user = (true, u) ∧
      s.users.getUserInfoFromCachedId u.userId user = (true, u)
  reload : ∀ mysql uninit s', mysql.client.server = s.mysql.client.server →
    Loads (start mysql uninit) s' → ∀ username user,
    (s'.users.getUserInfoFromCached username user).1 = (s.users.getUserInfoFromCached username user).1 ∧
      (s'.users.getUserInfoFromCached username user).2.userId =
        (s.users.getUserInfoFromCached username user).2.userId

/-- The database executes the `INSERT` of a registration. -/
def inserts (s : Store) (user : User) : Bool :=
  (s.mysql.excute (.insertUser (s.users.currentUserId + 1) user.userName user.nickName user.nickName)).1

/-- The text of the `INSERT`, as it reaches the database, is one `INSERT` of five values, of which the second
is a literal that denotes the name. -/
def ReadsBack (s : Store) (user : User) : Prop :=
  ∃ vs, insertedValues (s.users.currentUserId + 1) user.userName user.nickName user.nickName = some vs ∧
    vs.length = 5 ∧ vs[1]? = some [.string user.userName]

/-- The counter has room, and a name that is registered is not taken and reads back as it is. -/
def FreshName (s : Store) (user : User) : Prop :=
  s.Room user ∧ (s.inserts user = true →
    s.ReadsBack user ∧ ∀ u ∈ s.users.cachedUsers, u.userName ≠ user.userName)

/-- What the row of a registration has for its name. -/
def KeepsName (s : Store) (user : User) : Prop :=
  s.inserts user = true → (s.newRow user).username = user.userName

theorem ReadsBack.username {user : User} (h : s.ReadsBack user) : (s.newRow user).username = user.userName := by
  obtain ⟨vs, hvs, -, hname⟩ := h
  exact insertedRow_username hvs hname

theorem addUser_fst (s : Store) (user : User) : (s.addUser user).1 = s.inserts user := by
  rw [addUser, inserts]
  split
  · next h => rw [h]
  · next h => rw [h]

def Mirrors (s : Store) : Prop := (s.users.cachedUsers.map User.account).Perm (s.table.map UserRow.account)

structure AccountInv (s : Store) : Prop where
  mirrors : Mirrors s
  nodup : (s.users.cachedUsers.map User.userName).Nodup

theorem map_account_ofRow (uninit : Int32) {rows : List UserRow} (h : DistinctIds rows) :
    (rows.map (User.ofRow uninit)).map User.account = rows.map UserRow.account := by
  rw [List.map_map]
  refine List.map_congr_left fun r hr => ?_
  have := User.ofRow_userId uninit (h.int32 r hr)
  simp only [Function.comp, User.account, UserRow.account, this]
  rfl

namespace Mirrors

theorem load {mysql : MysqlManager} {uninit : Int32} (hids : DistinctIds mysql.client.server.users)
    (h : Loads (start mysql uninit) s) : Mirrors s := by
  have hperm := Server.usersDesc_perm mysql.client.server
  have hmap := map_account_ofRow uninit (DistinctIds.perm hids hperm)
  rw [Mirrors, h.cachedUsers_eq, hmap, h.table_eq]
  exact hperm.map _

theorem add (h : Mirrors s) {user : User} (hname : s.KeepsName user) : Mirrors (s.addUser user).2.2 := by
  have hfst := addUser_fst s user
  rcases addUser_cases s user with ⟨mysql, he, hserver⟩ | ⟨mysql, he, hserver⟩
  · rw [he] at hfst
    have hrow : (s.newRow user).account = (s.registered user).account :=
      Prod.ext (insertedRow_userId ..) (hname hfst.symm)
    rw [he, Mirrors, table]
    simp only [hserver, Server.apply, List.map_append]
    rw [List.map_singleton, List.map_singleton, ← hrow]
    exact List.Perm.append_right _ h
  · rw [he, Mirrors, table]
    simp only [hserver]
    exact h

theorem ids_perm (h : Mirrors s) :
    (s.users.cachedUsers.map (·.userId.toInt)).Perm (s.table.map UserRow.userId) := by
  have := h.map Prod.fst
  rw [List.map_map, List.map_map] at this
  exact this

theorem distinctIds (h : Mirrors s) (hid : IdInv s) : DistinctIds s.table := by
  refine ⟨h.ids_perm.nodup_iff.1 ?_, fun r hr => ?_⟩
  · have := hid.nodup.map (f := Int32.toInt) fun _ _ => Int32.toInt_inj.1
    rwa [List.map_map] at this
  · obtain ⟨u, -, hu⟩ := List.mem_map.1 (h.ids_perm.mem_iff.2 (List.mem_map_of_mem hr))
    rw [← hu]
    exact ⟨Int32.le_toInt _, Int32.toInt_lt _⟩

end Mirrors

theorem Runs.mirrors {mysql : MysqlManager} {uninit : Int32} {allowed : Store → User → Prop}
    (hname : ∀ s user, allowed s user → s.KeepsName user)
    (hids : DistinctIds mysql.client.server.users) (h : Runs allowed (start mysql uninit) s) : Mirrors s := by
  induction h with
  | load h => exact .load hids h
  | add _ user hok ih => exact ih.add (hname _ _ hok)

namespace AccountInv

theorem load {mysql : MysqlManager} {uninit : Int32} (hids : DistinctIds mysql.client.server.users)
    (hnames : (mysql.client.server.users.map UserRow.username).Nodup)
    (h : Loads (start mysql uninit) s) : AccountInv s := by
  refine ⟨.load hids h, ?_⟩
  have : s.users.cachedUsers.map User.userName = mysql.client.server.usersDesc.map UserRow.username := by
    rw [h.cachedUsers_eq, List.map_map]
    rfl
  rw [this]
  exact ((Server.usersDesc_perm mysql.client.server).map _).nodup_iff.2 hnames

theorem add (h : AccountInv s) {user : User} (hfresh : s.FreshName user) :
    AccountInv (s.addUser user).2.2 := by
  refine ⟨h.mirrors.add fun hins => (hfresh.2 hins).1.username, ?_⟩
  have hfst := addUser_fst s user
  rcases addUser_cases s user with ⟨mysql, he, -⟩ | ⟨mysql, he, -⟩
  · rw [he] at hfst ⊢
    exact nodup_map_snoc h.nodup (hfresh.2 hfst.symm).2
  · rw [he]
    exact h.nodup

theorem nodup_username (h : AccountInv s) : (s.table.map UserRow.username).Nodup := by
  have := h.mirrors.map Prod.snd
  rw [List.map_map, List.map_map] at this
  exact this.nodup_iff.1 h.nodup

theorem resolve (h : AccountInv s) (h' : AccountInv s') (ht : s'.table = s.table) (username : Bytes)
    (user : User) :
    (s'.users.getUserInfoFromCached username user).1 = (s.users.getUserInfoFromCached username user).1 ∧
      (s'.users.getUserInfoFromCached username user).2.userId =
        (s.users.getUserInfoFromCached username user).2.userId := by
  have hperm : (s'.users.cachedUsers.map User.account).Perm (s.users.cachedUsers.map User.account) := by
    have := h'.mirrors
    rw [Mirrors, ht] at this
    exact this.trans h.mirrors.symm
  by_cases hmem : ∃ u ∈ s.users.cachedUsers, u.userName = username
  · obtain ⟨u, hu, rfl⟩ := hmem
    obtain ⟨u', hu', hacc⟩ := List.mem_map.1 (hperm.mem_iff.2 (List.mem_map_of_mem hu))
    have hname : u'.userName = u.userName := congrArg Prod.snd hacc
    have hid : u'.userId = u.userId := Int32.toInt_inj.1 (congrArg Prod.fst hacc)
    have hfind := UserManager.getUserInfoFromCached_mem h'.nodup hu' user
    rw [hname] at hfind
    rw [hfind, UserManager.getUserInfoFromCached_mem h.nodup hu user]
    exact ⟨rfl, hid⟩
  · have hnot : ∀ u ∈ s.users.cachedUsers, u.userName ≠ username := fun u hu he => hmem ⟨u, hu, he⟩
    have hnot' : ∀ u ∈ s'.users.cachedUsers, u.userName ≠ username := by
      intro u hu he
      obtain ⟨v, hv, hacc⟩ := List.mem_map.1 (hperm.mem_iff.1 (List.mem_map_of_mem hu))
      exact hnot v hv ((congrArg Prod.snd hacc).trans he)
    rw [UserManager.getUserInfoFromCached_not_mem hnot, UserManager.getUserInfoFromCached_not_mem hnot']
    exact ⟨rfl, rfl⟩

end AccountInv

theorem Runs.accountInv {mysql : MysqlManager} {uninit : Int32} (hids : DistinctIds mysql.client.server.users)
    (hnames : (mysql.client.server.users.map UserRow.username).Nodup)
    (h : Runs FreshName (start mysql uninit) s) : AccountInv s := by
  induction h with
  | load h => exact .load hids hnames h
  | add _ user hok ih => exact ih.add hok

/-- A call of `addUser`, whatever becomes of its statement. -/
def Registers (s s' : Store) : Prop := ∃ user, s.Room user ∧ (s.addUser user).2.2 = s'

def BelowCounter (s : Store) : Prop := ∀ u ∈ s.users.cachedUsers, u.userId.toInt ≤ s.users.currentUserId.toInt

namespace BelowCounter

theorem load {mysql : MysqlManager} {uninit : Int32} {ok : Bool}
    (h : (start mysql uninit).loadUsers = .ok (ok, s)) : BelowCounter s := by
  intro u hu
  cases ok with
  | false =>
    rw [(loadUsers_false h).1] at hu
    cases hu
  | true =>
    rw [(loadUsers_true h).1] at hu ⊢
    rw [UserManager.pushAll_cachedUsers] at hu
    exact Int32.le_iff_toInt_le.1 ((UserManager.le_currentUserId_pushAll _ _).2 u hu)

theorem registers (h : BelowCounter s) (hstep : Registers s s') : BelowCounter s' := by
  obtain ⟨user, hroom, rfl⟩ := hstep
  have hsucc := Int32.toInt_succ hroom
  rcases addUser_cases s user with ⟨mysql, he, -⟩ | ⟨mysql, he, -⟩
  · rw [he]
    intro u hu
    show u.userId.toInt ≤ (s.users.currentUserId + 1).toInt
    rcases List.mem_append.1 hu with hu | hu
    · have := h u hu
      omega
    · rw [List.mem_singleton.1 hu]
      exact Int.le_refl _
  · rw [he]
    exact h

theorem run (h : BelowCounter s) (hrun : Relation.ReflTransGen Registers s s') : BelowCounter s' := by
  induction hrun with
  | refl => exact h
  | tail _ hstep ih => exact ih.registers hstep

end BelowCounter

/-- `addUser` of `user` has made the record `user'`, and nothing else can be told apart. -/
structure AddedOnly (s s' : Store) (user user' : User) : Prop where
  userName : user'.userName = user.userName
  nickName : user'.nickName = user.nickName
  passWord : user'.passWord = user.passWord
  byName : ∀ out, s'.users.getUserInfoFromCached user.userName out = (true, user')
  byId : ∀ out, s'.users.getUserInfoFromCachedId user'.userId out = (true, user')
  otherName : ∀ username, username ≠ user.userName → ∀ out,
    s'.users.getUserInfoFromCached username out = s.users.getUserInfoFromCached username out
  otherId : ∀ userid, userid ≠ user'.userId → ∀ out,
    s'.users.getUserInfoFromCachedId userid out = s.users.getUserInfoFromCachedId userid out

/-- Whatever statements failed before, also that of `loadUsers`: the id is new, and with a name that
is new too the scans meet the record where no other is in the way. -/
theorem addUser_adds_only {mysql : MysqlManager} {uninit : Int32} {ok : Bool} {s₀ : Store} {user user' : User}
    (hload : (start mysql uninit).loadUsers = .ok (ok, s₀)) (hrun : Relation.ReflTransGen Registers s₀ s)
    (hroom : s.Room user) (hname : ∀ u ∈ s.users.cachedUsers, u.userName ≠ user.userName)
    (hadd : s.addUser user = (true, user', s')) : AddedOnly s s' user user' := by
  have hbelow : BelowCounter s := (BelowCounter.load hload).run hrun
  have hsucc := Int32.toInt_succ hroom
  rcases addUser_cases s user with ⟨mysql', he, -⟩ | ⟨mysql', he, -⟩
  · cases he.symm.trans hadd
    have hid : ∀ u ∈ s.users.cachedUsers, u.userId ≠ (s.registered user).userId := by
      intro u hu heq
      have hle := hbelow u hu
      rw [heq] at hle
      simp only [registered] at hle
      omega
    refine ⟨rfl, rfl, rfl, fun out => ?_, fun out => ?_, fun username hne out => ?_, fun userid hne out => ?_⟩
    · exact UserManager.fromCached_snoc_new (by simpa using hname) (by simp [registered]) out
    · exact UserManager.fromCached_snoc_new (by simpa using hid) (by simp) out
    · exact UserManager.fromCached_snoc_other (decide_eq_false (Ne.symm hne)) out
    · exact UserManager.fromCached_snoc_other (decide_eq_false (Ne.symm hne)) out
  · cases he.symm.trans hadd

theorem addUser_adds_only_bob :
    ∃ user' s', oneUserLoaded.addUser { User.new 0 with userName := ascii "bob" } = (true, user', s') ∧
      AddedOnly oneUserLoaded s' { User.new 0 with userName := ascii "bob" } user' := by
  have hload : (start oneUser 0).loadUsers = .ok (true, oneUserLoaded) := rfl
  exact ⟨_, _, rfl, addUser_adds_only hload .refl (by decide) (by decide) rfl⟩

end Store

end IMServer
