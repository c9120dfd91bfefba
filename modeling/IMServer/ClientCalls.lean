import IMServer.MysqlTool

/-!
# The calls of `MysqlTool`

`MysqlTool` over any client library, with a record of the calls it makes, and every way a statement
can go: at most one reconnect before it is submitted, and at most one after the connection was found
lost.
-/

namespace IMServer

inductive Call (Q : Type)
  | realConnect (login : Login) (ok : Bool)
  | setNames (handle : Bool)
  | submit (handle : Bool) (sql : Q) (errno : Option UInt32)
  | storeResult (handle : Bool)
deriving DecidableEq

namespace ClientLib
variable {σ Q : Type}

/-- The same library with a record of its calls. -/
def logged (lib : ClientLib σ Q) : ClientLib (σ × List (Call Q)) Q where
  realConnect l c :=
    let (ok, c') := lib.realConnect l c.1
    (ok, c', c.2 ++ [.realConnect l ok])
  setNames h c := (lib.setNames h c.1, c.2 ++ [.setNames h])
  submit h sql c :=
    let (errno, c') := lib.submit h sql c.1
    (errno, c', c.2 ++ [.submit h sql errno])
  affectedRows h sql c := lib.affectedRows h sql c.1
  storeResult h sql c :=
    let (stored, c') := lib.storeResult h sql c.1
    (stored, c', c.2 ++ [.storeResult h])
  storeNames c :=
    let (harmless, c') := lib.storeNames c.1
    (harmless, c', c.2)

end ClientLib

/-! ### What can become of a statement -/

namespace MysqlTool
variable {σ Q : Type}

/-- The calls of a `connect` that failed or not. -/
def connectCalls (l : Login) : Bool → List (Call Q)
  | false => [.realConnect l.cStrs false]
  | true => [.realConnect l.cStrs true, .setNames true]

theorem connectWith_logged (lib : ClientLib σ Q) (t : MysqlTool) (c : σ) (l : Login) (log : List (Call Q)) :
    t.connectWith lib.logged (c, log) l =
      ((t.connectWith lib c l).1, (t.connectWith lib c l).2.1, (t.connectWith lib c l).2.2,
        log ++ connectCalls l (t.connectWith lib c l).1) := by
  unfold connectWith
  rcases h : lib.realConnect l.cStrs c with ⟨ok, c₁⟩
  have hlogged : lib.logged.realConnect l.cStrs (c, log) = (ok, c₁, log ++ [.realConnect l.cStrs ok]) := by
    simp only [ClientLib.logged, h]
  rw [hlogged]
  rcases ok with _ | _
  · rfl
  · show (true, _, _, (log ++ [_]) ++ [_]) = (true, _, _, log ++ [_, _])
    rw [List.append_assoc]
    rfl

/-- There is a connection, now or again; `calls` have been made for it. -/
inductive Opens (lib : ClientLib σ Q) (t : MysqlTool) (c : σ) : List (Call Q) → MysqlTool → σ → Prop
  | already (h : t.mysql = true) : Opens lib t c [] t c
  | again {t' c'} (h : t.mysql = false) (hc : t.connectWith lib c t.saved = (true, t', c')) :
    Opens lib t c (connectCalls t.saved true) t' c'

/-- How a statement can be submitted: the calls that are made, and what is returned. -/
inductive Submits (lib : ClientLib σ Q) (t : MysqlTool) (c : σ) (sql : Q) :
    List (Call Q) → Bool → MysqlTool → σ → Prop
  | closed {t' c'} (h : t.mysql = false) (hc : t.connectWith lib c t.saved = (false, t', c')) :
    Submits lib t c sql (connectCalls t.saved false) false t' c'
  | accepted {calls t₁ c₁ c₂} (ho : Opens lib t c calls t₁ c₁) (hs : lib.submit true sql c₁ = (none, c₂)) :
    Submits lib t c sql (calls ++ [.submit true sql none]) true t₁ c₂
  | refused {calls t₁ c₁ c₂ errno} (ho : Opens lib t c calls t₁ c₁)
    (hs : lib.submit true sql c₁ = (some errno, c₂)) (he : errno ≠ serverGoneError) :
    Submits lib t c sql (calls ++ [.submit true sql (some errno)]) false t₁ c₂
  | gone {calls t₁ c₁ c₂ t' c'} (ho : Opens lib t c calls t₁ c₁)
    (hs : lib.submit true sql c₁ = (some serverGoneError, c₂))
    (hc : t₁.connectWith lib c₂ t₁.saved = (false, t', c')) :
    Submits lib t c sql (calls ++ .submit true sql (some serverGoneError) :: connectCalls t₁.saved false)
      false t' c'
  | retried {calls t₁ c₁ c₂ t₃ c₃ c' errno} (ho : Opens lib t c calls t₁ c₁)
    (hs : lib.submit true sql c₁ = (some serverGoneError, c₂))
    (hc : t₁.connectWith lib c₂ t₁.saved = (true, t₃, c₃)) (hs' : lib.submit true sql c₃ = (errno, c')) :
    Submits lib t c sql (calls ++ .submit true sql (some serverGoneError) ::
      (connectCalls t₁.saved true ++ [.submit true sql errno])) errno.isNone t₃ c'

variable {lib : ClientLib σ Q} {t t' : MysqlTool} {c c' : σ} {l : Login} {sql : Q}

theorem connectWith_true (h : t.connectWith lib c l = (true, t', c')) :
    t' = ⟨true, l.host, l.user, l.pwd, l.dbName, [UInt8.ofNat l.port.toNat]⟩ := by
  unfold connectWith at h
  split at h
  · cases h
  · cases h
    rfl

theorem connectWith_false (h : t.connectWith lib c l = (false, t', c')) : t' = t.closeDB := by
  unfold connectWith at h
  split at h
  · cases h
    rfl
  · cases h

theorem Opens.mysql {calls : List (Call Q)} (h : Opens lib t c calls t' c') : t'.mysql = true := by
  cases h with
  | already h => exact h
  | again h hc => rw [connectWith_true hc]

theorem Opens.saved {calls : List (Call Q)} (h : Opens lib t c calls t' c') : t'.saved = t.saved := by
  cases h with
  | already h => rfl
  | again h hc => rw [connectWith_true hc]; rfl

theorem submit_logged (lib : ClientLib σ Q) (h : Bool) (sql : Q) (c : σ) (log : List (Call Q)) :
    lib.logged.submit h sql (c, log) =
      ((lib.submit h sql c).1, (lib.submit h sql c).2, log ++ [.submit h sql (lib.submit h sql c).1]) := rfl

theorem submitOpen_submits {t₁ : MysqlTool} {c₁ : σ} {calls : List (Call Q)} (ho : Opens lib t c calls t₁ c₁)
    (sql : Q) (log : List (Call Q)) :
    ∃ calls' ok t' c', Submits lib t c sql calls' ok t' c' ∧ t₁.submitOpen lib c₁ sql = (ok, t', c') ∧
      t₁.submitOpen lib.logged (c₁, log ++ calls) sql = (ok, t', c', log ++ calls') := by
  have hmysql := ho.mysql
  unfold submitOpen
  rw [hmysql, submit_logged]
  rcases hs : lib.submit true sql c₁ with ⟨_ | errno, c₂⟩
  · exact ⟨_, true, t₁, c₂, .accepted ho hs, rfl, by rw [List.append_assoc]⟩
  dsimp only
  by_cases he : errno = serverGoneError
  · subst he
    rw [if_pos rfl, if_pos rfl, connectWith_logged]
    rcases hc : t₁.connectWith lib c₂ t₁.saved with ⟨_ | _, t₃, c₃⟩
    · refine ⟨_, false, t₃, c₃, .gone ho hs hc, rfl, ?_⟩
      simp only [List.append_assoc, List.singleton_append]
    · have hmysql₃ : t₃.mysql = true := by rw [connectWith_true hc]
      dsimp only
      rw [hmysql₃, submit_logged]
      rcases hs' : lib.submit true sql c₃ with ⟨_ | errno', c₄⟩
      · refine ⟨_, true, t₃, c₄, .retried ho hs hc hs', rfl, ?_⟩
        simp only [List.append_assoc, List.cons_append, List.nil_append]
      · refine ⟨_, false, t₃, c₄, .retried ho hs hc hs', rfl, ?_⟩
        simp only [List.append_assoc, List.cons_append, List.nil_append]
  · rw [if_neg he, if_neg he]
    exact ⟨_, false, t₁, c₂, .refused ho hs he, rfl, by rw [List.append_assoc]⟩

/-- Every way a statement can go, and that the record leaves everything else as it is. -/
theorem submitWith_submits (lib : ClientLib σ Q) (t : MysqlTool) (c : σ) (sql : Q) (log : List (Call Q)) :
    ∃ calls ok t' c', Submits lib t c sql calls ok t' c' ∧ t.submitWith lib c sql = (ok, t', c') ∧
      t.submitWith lib.logged (c, log) sql = (ok, t', c', log ++ calls) := by
  unfold submitWith
  rcases hm : t.mysql with _ | _
  · rw [if_neg nofun, if_neg nofun, connectWith_logged]
    rcases hc : t.connectWith lib c t.saved with ⟨_ | _, t₁, c₁⟩
    · exact ⟨_, false, t₁, c₁, .closed hm hc, rfl, rfl⟩
    · exact submitOpen_submits (.again hm hc) sql log
  · rw [if_pos rfl, if_pos rfl]
    have hopen := submitOpen_submits (show Opens lib t c [] t c from .already hm) sql log
    rwa [List.append_nil] at hopen

variable {calls : List (Call Q)} {ok : Bool}

theorem Opens.submitWith_eq (h : Opens lib t c calls t' c') (sql : Q) :
    t.submitWith lib c sql = t'.submitOpen lib c' sql := by
  cases h with
  | already h => rw [submitWith, if_pos h]
  | again h hc => rw [submitWith, if_neg (by rw [h]; exact nofun), hc]

/-- There is no other way. -/
theorem Submits.submitWith_eq (h : Submits lib t c sql calls ok t' c') : t.submitWith lib c sql = (ok, t', c') := by
  cases h with
  | closed h hc => rw [submitWith, if_neg (by rw [h]; exact nofun), hc]
  | accepted ho hs => rw [ho.submitWith_eq, submitOpen, ho.mysql, hs]
  | refused ho hs he =>
    rw [ho.submitWith_eq, submitOpen, ho.mysql, hs]
    exact if_neg he
  | gone ho hs hc =>
    rw [ho.submitWith_eq, submitOpen, ho.mysql, hs]
    dsimp only
    rw [if_pos rfl, hc]
  | @retried _ _ _ _ _ _ _ errno ho hs hc hs' =>
    have hmysql : t'.mysql = true := by rw [connectWith_true hc]
    rw [ho.submitWith_eq, submitOpen, ho.mysql, hs]
    dsimp only
    rw [if_pos rfl, hc]
    dsimp only
    rw [hmysql, hs']
    rcases errno with _ | errno <;> rfl

theorem Submits.mysql (h : Submits lib t c sql calls ok t' c') (hok : ok = true) : t'.mysql = true := by
  cases h with
  | closed _ hc => cases hok
  | accepted ho _ => exact ho.mysql
  | refused ho _ _ => cases hok
  | gone ho _ hc => cases hok
  | retried ho _ hc _ => rw [connectWith_true hc]

/-- What `connect` and the submissions keep. -/
structure KeptBy (lib : ClientLib σ Q) (sql : Q) (I : MysqlTool → σ → Prop) : Prop where
  connect : ∀ {t c ok t' c'}, I t c → t.connectWith lib c t.saved = (ok, t', c') → I t' c'
  submit : ∀ {t c errno c'}, I t c → lib.submit true sql c = (errno, c') → I t c'

theorem KeptBy.opens {I : MysqlTool → σ → Prop} (hI : KeptBy lib sql I) (h : Opens lib t c calls t' c') (hi : I t c) :
    I t' c' := by
  cases h with
  | already _ => exact hi
  | again _ hc => exact hI.connect hi hc

theorem KeptBy.submits {I : MysqlTool → σ → Prop} (hI : KeptBy lib sql I) (h : Submits lib t c sql calls ok t' c')
    (hi : I t c) : I t' c' := by
  cases h with
  | closed _ hc => exact hI.connect hi hc
  | accepted ho hs => exact hI.submit (hI.opens ho hi) hs
  | refused ho hs _ => exact hI.submit (hI.opens ho hi) hs
  | gone ho hs hc => exact hI.connect (hI.submit (hI.opens ho hi) hs) hc
  | retried ho hs hc hs' => exact hI.submit (hI.connect (hI.submit (hI.opens ho hi) hs) hc) hs'

/-- Where the submission that succeeded was made. -/
theorem KeptBy.accepted {I : MysqlTool → σ → Prop} (hI : KeptBy lib sql I)
    (h : Submits lib t c sql calls ok t' c') (hok : ok = true) (hi : I t c) :
    ∃ c₁, I t' c₁ ∧ lib.submit true sql c₁ = (none, c') := by
  cases h with
  | closed _ _ => cases hok
  | accepted ho hs => exact ⟨_, hI.opens ho hi, hs⟩
  | refused _ _ _ => cases hok
  | gone _ _ _ => cases hok
  | @retried _ _ _ _ _ c₃ _ errno ho hs hc hs' =>
    refine ⟨c₃, hI.connect (hI.submit (hI.opens ho hi) hs) hc, ?_⟩
    rw [hs', Option.isNone_iff_eq_none.1 hok]

theorem executeWith_eq (h : t.submitWith lib c sql = (ok, t', c')) (count : Nat) :
    t.executeWith lib c sql count = (ok, if ok then lib.affectedRows t'.mysql sql c' else count, t', c') := by
  rw [executeWith, h]
  rcases ok with _ | _ <;> rfl

theorem queryWith_refused (h : t.submitWith lib c sql = (false, t', c')) :
    t.queryWith lib c sql = (.ok none, t', c') := by rw [queryWith, h]

theorem queryWith_none (h : t.submitWith lib c sql = (true, t', c')) {stored : Stored} {c'' : σ}
    (hs : lib.storeResult t'.mysql sql c' = (stored, c'')) (hzero : stored.affectedRows = 0) :
    t.queryWith lib c sql = (.ok none, t', c'') := by
  simp only [queryWith, h, hs, if_pos hzero]

theorem queryWith_some (h : t.submitWith lib c sql = (true, t', c')) {stored : Stored} {c'' : σ}
    (hs : lib.storeResult t'.mysql sql c' = (stored, c'')) (hzero : stored.affectedRows ≠ 0) :
    t.queryWith lib c sql = ((QueryResult.new (lib.storeNames c'').1 stored.res stored.affectedRows
      stored.fieldCount).map some, t', (lib.storeNames c'').2) := by
  simp only [queryWith, h, hs, if_neg hzero]

/-- The tool and the library after `query`, whatever it comes to. -/
theorem queryWith_state (h : t.submitWith lib c sql = (ok, t', c')) :
    (t.queryWith lib c sql).2.1 = t' ∧
      ((t.queryWith lib c sql).2.2 = c' ∨ (t.queryWith lib c sql).2.2 = (lib.storeResult t'.mysql sql c').2 ∨
        (t.queryWith lib c sql).2.2 = (lib.storeNames (lib.storeResult t'.mysql sql c').2).2) := by
  rcases ok with _ | _
  · rw [queryWith_refused h]
    exact ⟨rfl, .inl rfl⟩
  rcases hs : lib.storeResult t'.mysql sql c' with ⟨stored, c''⟩
  by_cases hzero : stored.affectedRows = 0
  · rw [queryWith_none h hs hzero]
    exact ⟨rfl, .inr (.inl rfl)⟩
  · rw [queryWith_some h hs hzero]
    exact ⟨rfl, .inr (.inr rfl)⟩

theorem connectWith_saved (h : t.connectWith lib c t.saved = (ok, t', c')) : t'.saved = t.saved := by
  rcases ok with _ | _
  · rw [connectWith_false h]
    rfl
  · rw [connectWith_true h]
    rfl

theorem Submits.saved (h : Submits lib t c sql calls ok t' c') : t'.saved = t.saved := by
  cases h with
  | closed _ hc => exact connectWith_saved hc
  | accepted ho _ => exact ho.saved
  | refused ho _ _ => exact ho.saved
  | gone ho _ hc => exact (connectWith_saved hc).trans ho.saved
  | retried ho _ hc _ => exact (connectWith_saved hc).trans ho.saved

end MysqlTool

end IMServer
