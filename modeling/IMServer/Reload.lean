import IMServer.AccountNames
import IMServer.Login

/-!
# After a restart

A registration is recorded twice, as a row and as a record of the cache, and after a restart the
row is all there is. The row holds the nickname for the password, and its birthday is the default
of the table, which is not the one `addUser` sets.
-/

namespace IMServer

structure SameRecord (u u' : User) : Prop where
  userId : u.userId = u'.userId
  userName : u.userName = u'.userName
  nickName : u.nickName = u'.nickName
  passWord : u.passWord = u'.passWord
  faceType : u.faceType = u'.faceType
  gender : u.gender = u'.gender
  birthDay : u.birthDay = u'.birthDay

def LoginSucceeds (s : Store) (data : Bytes) : Prop := ∃ user, loginResult s data = .ok (.success user)

/-- The records of `s` are found again in `s'`, and the same logins succeed. -/
structure Agrees (s s' : Store) : Prop where
  records : ∀ u ∈ s.users.cachedUsers, ∃ u' ∈ s'.users.cachedUsers, SameRecord u u'
  logins : ∀ data, LoginSucceeds s data ↔ LoginSucceeds s' data

/-- No character that is special in a SQL literal. -/
def plain (s : Bytes) : Bool := s.all fun b => b ≠ 0 && b ≠ 34 && b ≠ 39 && b ≠ 92

theorem verbatim_of_plain {s : Bytes} (h : plain s = true) : Sql.Verbatim s = true := by
  have hb : ∀ b ∈ s, b ≠ Sql.quote ∧ b ≠ Sql.backslash := by
    intro b hb
    have := List.all_eq_true.1 h b hb
    simp only [Bool.and_eq_true, decide_eq_true_eq] at this
    exact ⟨this.1.2, this.2⟩
  induction s using Sql.Verbatim.induct with
  | case1 => rfl
  | case2 c => simpa [Sql.Verbatim] using hb c (.head _)
  | case3 d cs ih => exact absurd rfl (hb _ (.head _)).2
  | case4 c d cs hne ih =>
    rw [plain, List.all_cons, Bool.and_eq_true] at h
    rw [Sql.Verbatim, if_neg hne, ih h.2 fun b hmem => hb b (.tail _ hmem)]
    simpa using (hb c (.head _)).1

theorem zero_notMem_of_plain {s : Bytes} (h : plain s = true) : 0 ∉ s :=
  fun hmem => absurd (List.all_eq_true.1 h 0 hmem) (by decide)

namespace Store
variable {s s₀ s' : Store}

def registerAll (s : Store) (us : List User) : Store := us.foldl (fun s u => (s.addUser u).2.2) s

def Registrations : Store → List User → Prop
  | _, [] => True
  | s, u :: us =>
    s.Room u ∧ s.inserts u = true ∧ (plain u.userName && plain u.nickName && plain u.passWord) = true ∧
      Registrations (s.addUser u).2.2 us

theorem newRow_plain {u : User} (h : (plain u.userName && plain u.nickName && plain u.passWord) = true) :
    s.newRow u = {
      userId := (s.users.currentUserId + 1).toInt
      username := u.userName
      nickname := u.nickName
      password := u.nickName } := by
  obtain ⟨hnames, -⟩ := Bool.and_eq_true_iff.1 h
  obtain ⟨hu, hn⟩ := Bool.and_eq_true_iff.1 hnames
  exact insertedRow_verbatim _ (verbatim_of_plain hu) (verbatim_of_plain hn) (zero_notMem_of_plain hu)
    (zero_notMem_of_plain hn)

theorem Registrations.runs {us : List User} (hus : Registrations s us)
    (h : Runs (fun s u => s.Room u ∧ s.KeepsName u) s₀ s) :
    Runs (fun s u => s.Room u ∧ s.KeepsName u) s₀ (s.registerAll us) := by
  induction us generalizing s with
  | nil => exact h
  | cons u us ih =>
    obtain ⟨hroom, -, hplain, hrest⟩ := hus
    exact ih hrest (h.add u ⟨hroom, fun _ => by rw [newRow_plain hplain]⟩)

theorem ofRow_inserted (uninit i : Int32) (username nickname : Bytes) :
    User.ofRow uninit { userId := i.toInt, username, nickname, password := nickname } =
      { User.new uninit with
        userId := i, userName := username, nickName := nickname, passWord := nickname,
        faceType := 0, gender := 0, birthDay := 19900101 } := by
  obtain ⟨h₁, h₂, h₃, h₄, h₅, h₆, h₇, h₈⟩ := columnDefaults
  have ha : atoi (intToString 0) = 0 := by decide
  have hb : atoi (intToString 19900101) = 19900101 := by decide
  simp only [User.ofRow, atoi_intToString, h₁, h₂, h₃, h₄, h₅, h₆, h₇, h₈, Option.map_some,
    Option.getD_some, Option.getD_none, ha, hb]
  rfl

theorem mem_registerAll (us : List User) (s : Store) :
    (∀ u ∈ s.users.cachedUsers, u ∈ (s.registerAll us).users.cachedUsers) ∧
      ∀ r ∈ s.table, r ∈ (s.registerAll us).table := by
  induction us generalizing s with
  | nil => exact ⟨fun _ h => h, fun _ h => h⟩
  | cons u us ih =>
    obtain ⟨h₁, h₂⟩ := ih (s.addUser u).2.2
    rcases addUser_cases s u with ⟨mysql, he, hserver⟩ | ⟨mysql, he, hserver⟩
    · refine ⟨fun v hv => h₁ v ?_, fun r hr => h₂ r ?_⟩
      · rw [he]; exact List.mem_append_left _ hv
      · rw [he, table, hserver]; exact List.mem_append_left _ hr
    · refine ⟨fun v hv => h₁ v ?_, fun r hr => h₂ r ?_⟩
      · rw [he]; exact hv
      · rw [he, table, hserver]; exact hr

theorem addUser_inserts {u : User} (h : s.inserts u = true) :
    s.registered u ∈ (s.addUser u).2.2.users.cachedUsers ∧ s.newRow u ∈ (s.addUser u).2.2.table := by
  rw [← addUser_fst] at h
  rcases addUser_cases s u with ⟨mysql, he, hserver⟩ | ⟨mysql, he, -⟩
  · rw [he]
    refine ⟨List.mem_append_right _ (List.mem_singleton_self _), ?_⟩
    rw [table, hserver]
    exact List.mem_append_right _ (List.mem_singleton_self _)
  · rw [he] at h
    cases h

theorem DistinctIds.row_unique {rows : List UserRow} (h : DistinctIds rows) {r r' : UserRow} (hr : r ∈ rows)
    (hr' : r' ∈ rows) (hid : r.userId = r'.userId) : r = r' :=
  List.inj_on_of_nodup_map h.nodup hr hr' hid

/-- A user registered in the run is not found again: the birthday is another. -/
theorem not_agrees_of_registered {u : User} {us : List User} {mysql : MysqlManager} {uninit : Int32}
    (hids : DistinctIds (s.registerAll (u :: us)).table) (hins : s.inserts u = true)
    (hplain : (plain u.userName && plain u.nickName && plain u.passWord) = true)
    (hdb : mysql.client.server.users = (s.registerAll (u :: us)).table)
    (hload : Loads (start mysql uninit) s') : ¬ Agrees (s.registerAll (u :: us)) s' := by
  intro hagree
  obtain ⟨hrec, hrow⟩ := addUser_inserts hins
  rw [newRow_plain hplain] at hrow
  obtain ⟨hkeep, hkeep'⟩ := mem_registerAll us (s.addUser u).2.2
  obtain ⟨u', hu', hsame⟩ := hagree.records _ (hkeep _ hrec)
  rw [hload.cachedUsers_eq] at hu'
  obtain ⟨r, hr, rfl⟩ := List.mem_map.1 hu'
  have hr : r ∈ (s.registerAll (u :: us)).table := by
    rw [← hdb]
    exact (Server.usersDesc_perm _).mem_iff.1 hr
  have hid : r.userId = (s.users.currentUserId + 1).toInt := by
    rw [← User.ofRow_userId uninit (hids.int32 r hr), ← hsame.userId]
    rfl
  have := DistinctIds.row_unique hids hr (hkeep' _ hrow) hid
  subst this
  rw [ofRow_inserted] at hsame
  have hday : (20000101 : Int32) = 19900101 := hsame.birthDay
  exact absurd hday (by decide)

theorem loginSucceeds_iff (s : Store) (data : Bytes) :
    LoginSucceeds s data ↔ ∃ account, LoginRequests data account (storedPassword s.users account) := by
  unfold storedPassword
  constructor
  · rintro ⟨user, h⟩
    obtain ⟨account, hreq, huser⟩ := loginResult_success.1 h
    refine ⟨account, ?_⟩
    rw [← passWord_getD s.uninit, ← huser]
    exact hreq
  · rintro ⟨account, hreq⟩
    rw [← passWord_getD s.uninit] at hreq
    exact ⟨_, loginResult_success.2 ⟨account, hreq, rfl⟩⟩

theorem agrees_of_loads {mysql mysql' : MysqlManager} {uninit uninit' : Int32}
    (h : Loads (start mysql uninit) s) (hdb : mysql'.client.server = mysql.client.server)
    (h' : Loads (start mysql' uninit') s') : Agrees s s' := by
  have hc := h.cachedUsers_eq
  have hc' := h'.cachedUsers_eq
  rw [hdb] at hc'
  refine ⟨fun u hu => ?_, fun data => ?_⟩
  · rw [hc] at hu
    obtain ⟨r, hr, rfl⟩ := List.mem_map.1 hu
    refine ⟨User.ofRow uninit' r, ?_, ⟨rfl, rfl, rfl, rfl, rfl, rfl, rfl⟩⟩
    rw [hc']
    exact List.mem_map_of_mem hr
  · have hnames : ∀ account : Account,
        account.names ∘ User.ofRow uninit = account.names ∘ User.ofRow uninit' := by
      intro account
      cases account <;> rfl
    have hstored : ∀ account : Account, storedPassword s.users account = storedPassword s'.users account := by
      intro account
      rw [storedPassword, storedPassword, hc, hc', List.find?_map, List.find?_map, Option.map_map, Option.map_map,
        hnames account]
      rfl
    simp only [loginSucceeds_iff, hstored]

/-- Cache and database agree after a restart only if nobody was registered since the start. -/
theorem reload_agrees_iff {mysql mysql' : MysqlManager} {uninit uninit' : Int32} {us : List User}
    (hids : DistinctIds mysql.client.server.users) (h₀ : Loads (start mysql uninit) s₀)
    (hus : Registrations s₀ us) (hdb : mysql'.client.server = (s₀.registerAll us).mysql.client.server)
    (hload : Loads (start mysql' uninit') s') : Agrees (s₀.registerAll us) s' ↔ us = [] := by
  constructor
  · intro hagree
    cases us with
    | nil => rfl
    | cons u us =>
      have hrun := hus.runs (.load h₀)
      have htable := (hrun.mirrors (fun _ _ h => h.2) hids).distinctIds (hrun.idInv (fun _ _ h => h.1) hids)
      obtain ⟨-, hins, hplain, -⟩ := hus
      exact absurd hagree (not_agrees_of_registered htable hins hplain (congrArg Server.users hdb) hload)
  · rintro rfl
    exact agrees_of_loads h₀ (hdb.trans h₀.spec.2) hload

def bob : User :=
  { User.new 0 with userName := ascii "bob", nickName := ascii "Bob", passWord := ascii "secret" }

/-- The database with bob in it. -/
def bobInserted : MysqlManager where
  mysqlToolPtr := some { mysql := true }
  client := { server := {
    users := [{ userId := 10001, username := ascii "ann", nickname := [], password := ascii "pw" },
      { userId := 10002, username := ascii "bob", nickname := ascii "Bob", password := ascii "Bob" }] } }

theorem bobInserted_eq : (oneUserLoaded.registerAll [bob]).mysql = bobInserted := by
  have hrow : oneUserLoaded.newRow bob =
      { userId := 10002, username := ascii "bob", nickname := ascii "Bob", password := ascii "Bob" } :=
    newRow_plain (by decide)
  have hmysql : (oneUserLoaded.registerAll [bob]).mysql = { oneUserLoaded.mysql with
      client := { server := { users := oneUserLoaded.table ++ [oneUserLoaded.newRow bob] } } } := rfl
  rw [hmysql, hrow]
  rfl

def bobReloaded : Store :=
  match (start bobInserted 0).loadUsers with
  | .ok (_, s) => s
  | .error _ => {}

theorem bobReloaded_loads : Loads (start (oneUserLoaded.registerAll [bob]).mysql 0) bobReloaded := by
  rw [bobInserted_eq]
  exact ⟨true, rfl, .inl rfl⟩

theorem reload_agrees_iff_bob :
    Registrations oneUserLoaded [bob] ∧ (Agrees (oneUserLoaded.registerAll [bob]) bobReloaded ↔ [bob] = []) := by
  have hus : Registrations oneUserLoaded [bob] := ⟨by decide, by decide, by decide, trivial⟩
  have hids : DistinctIds oneUser.client.server.users := ⟨by decide, by decide⟩
  have hload : Loads (start oneUser 0) oneUserLoaded := ⟨true, rfl, .inl rfl⟩
  exact ⟨hus, reload_agrees_iff hids hload hus rfl bobReloaded_loads⟩

/-- Bob is in the cache with his password, and comes back with his nickname for it and ten years
older. -/
theorem bob_not_reloaded :
    Registrations oneUserLoaded [bob] ∧ Loads (start (oneUserLoaded.registerAll [bob]).mysql 0) bobReloaded ∧
      ((oneUserLoaded.registerAll [bob]).users.getUserInfoFromCached (ascii "bob") bob).2.passWord =
        ascii "secret" ∧
      (bobReloaded.users.getUserInfoFromCached (ascii "bob") bob).2.passWord = ascii "Bob" ∧
      ¬ Agrees (oneUserLoaded.registerAll [bob]) bobReloaded := by
  refine ⟨⟨by decide, by decide, by decide, trivial⟩, bobReloaded_loads, by decide, by decide, ?_⟩
  have hids : DistinctIds (oneUserLoaded.registerAll [bob]).table := by
    rw [table, bobInserted_eq]
    exact ⟨by decide, by decide⟩
  exact not_agrees_of_registered hids (by decide) (by decide) rfl bobReloaded_loads

end Store

end IMServer
