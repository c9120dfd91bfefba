import IMServer.QueryResult
import IMServer.Lib.Traced
import IMServer.Lib.Vec

/-!
# The rows of a result set in memory

`QueryResult` as an object: the vector the rows are read into and the one reserved for the column
names, with a record of every index used on them, and the pointers that `Fetch()` gives to callers.
Each row is stored over the one before in the same block, until `end()` clears it.
-/

namespace IMServer

/-- The field of a column that a cell is in: empty for NULL and for no bytes. -/
def Field.ofCell (name : Bytes) (cell : Option Bytes) : Field where
  name := name
  value := cell.getD []
  isEmpty := (cell.getD []).isEmpty

/-- Nothing of what was in the field before is left. -/
theorem Field.setValue_eq_ofCell (f : Field) (cell : Option Bytes) : f.setValue cell = ofCell f.name cell := by
  rcases cell with _ | _ | ⟨b, value⟩
  · rfl
  · rfl
  · rfl

theorem QueryResult.nextRow_eq {r : QueryResult} {fields : List Bytes} {row : List (Option Bytes)}
    {rows : List (List (Option Bytes))} {h : ∀ x ∈ row :: rows, x.length = fields.length}
    (hres : r.res = some ⟨fields, row :: rows, h⟩) :
    r.nextRow = (true, { r with
      currentRow := List.zipWith Field.setValue r.currentRow row
      res := some ⟨fields, rows, fun x hx => h x (List.mem_cons_of_mem _ hx)⟩ }) := by
  rw [nextRow, hres]

/-- The loop of `checkDatabase`, with at most `fuel` turns. -/
def QueryResult.findRow (dbName : Bytes) : Nat → QueryResult → Bool × QueryResult
  | 0, r => (false, r)
  | fuel + 1, r =>
    match r.nextRow with
    | (false, r) => (false, r.endResult)
    | (true, r) =>
      if dbName = (r.fetch.getD 0 {}).getValue then (true, r.endResult) else findRow dbName fuel r

/-- Whether the first cell of a row is `dbName`. -/
def holdsName (dbName : Bytes) (row : List (Option Bytes)) : Bool := dbName = (row.getD 0 none).getD []

theorem QueryResult.findRow_eq_any {dbName : Bytes} {fields : List Bytes} {rows : List (List (Option Bytes))}
    (h : ∀ row ∈ rows, row.length = fields.length) {r : QueryResult} (hres : r.res = some ⟨fields, rows, h⟩)
    (hcur : r.currentRow.length = fields.length) (hc : 0 < fields.length) :
    (r.findRow dbName (rows.length + 1)).1 = rows.any (holdsName dbName) := by
  induction rows generalizing r with
  | nil =>
    rw [findRow, nextRow, hres]
    rfl
  | cons row rows ih =>
    have hrow : row.length = r.currentRow.length := by rw [hcur]; exact h row (List.mem_cons_self ..)
    rw [List.length_cons, findRow, nextRow, hres]
    have hfirst : ((List.zipWith Field.setValue r.currentRow row).getD 0 {}).getValue =
        (row.getD 0 none).getD [] := by
      rcases hfs : r.currentRow with _ | ⟨f, fs⟩
      · rw [← hcur, hfs] at hc
        cases hc
      rcases row with _ | ⟨cell, row⟩
      · rw [hfs] at hrow
        cases hrow
      rw [List.zipWith_cons_cons, Field.setValue_eq_ofCell]
      rfl
    rw [List.any_cons, holdsName]
    by_cases heq : dbName = ((List.zipWith Field.setValue r.currentRow row).getD 0 {}).getValue
    · rw [decide_eq_true (heq.trans hfirst), Bool.true_or]
      exact congrArg Prod.fst (if_pos heq)
    · rw [decide_eq_false (fun h => heq (h.trans hfirst.symm)), Bool.false_or]
      refine (congrArg Prod.fst (if_neg heq)).trans ?_
      exact ih (fun x hx => h x (List.mem_cons_of_mem _ hx)) rfl (by simp [hrow, hcur])

theorem Res.length_tail {fields : List Bytes} {row : List (Option Bytes)} {rows : List (List (Option Bytes))}
    (h : ∀ x ∈ row :: rows, x.length = fields.length) : ∀ x ∈ rows, x.length = fields.length :=
  (List.forall_mem_cons.1 h).2

inductive IndexUse
  | fieldName (i size : Nat)
  | currentRow (i size : Nat)
deriving DecidableEq

def IndexUse.InRange : IndexUse → Prop
  | fieldName i size => i < size
  | currentRow i size => i < size

/-- `f` applied to `v[i]`. Behind the last element, where the block has room, is no object: a store there ends
the run unless it is `harmless`. -/
def store {α : Type} (harmless : Bool) (use : Nat → Nat → IndexUse) (v : Vec α) (i : Nat) (f : α → α) :
    Traced IndexUse Fault (Vec α) :=
  Traced.note (use i v.size) (if i < v.size ∨ harmless then
    match v.modify i f with
    | some v => .ok v
    | none => .error .outOfBounds
    else .error .outOfBounds)

structure ResultObject where
  currentRow : Vec Field
  fieldName : Vec Bytes
  res : Option Res
  rowCount : Nat
  columnCount : Nat

namespace ResultObject

/-- One turn of the constructor's loop. -/
def nameColumn (harmless : Bool) (res : Res) (p : Vec Bytes × Vec Field) (i : Nat) :
    Traced IndexUse Fault (Vec Bytes × Vec Field) := do
  let fieldName ← store harmless .fieldName p.1 i fun _ => res.fields.getD i []
  -- `setType`; the type is not kept
  let currentRow ← store harmless .currentRow p.2 i id
  let currentRow ← store harmless .currentRow currentRow i fun f => f.setName (res.fields.getD i [])
  return (fieldName, currentRow)

/-- The constructor, with the blocks that the two vectors get. -/
def new (harmless : Bool) (rowAddr nameAddr : Nat) (res : Option Res) (rowCount columnCount : Nat) :
    Traced IndexUse Fault ResultObject := do
  let currentRow := ({} : Vec Field).resize rowAddr columnCount {}
  let fieldName := ({} : Vec Bytes).reserve nameAddr columnCount
  match res with
  | none => ⟨[], .error .nullPointer⟩
  | some res =>
    let (fieldName, currentRow) ← (List.range columnCount).foldlM (nameColumn harmless res) (fieldName, currentRow)
    return ⟨currentRow, fieldName, some res, rowCount, columnCount⟩

def endResult (o : ResultObject) : ResultObject := ⟨o.currentRow.clear, o.fieldName.clear, none, 0, 0⟩

def nextRow (o : ResultObject) : Traced IndexUse Fault (Bool × ResultObject) :=
  match o.res with
  | none => return (false, o)
  | some ⟨_, [], _⟩ => return (false, o.endResult)
  | some ⟨fields, row :: rows, h⟩ => do
    let currentRow ← (List.range o.columnCount).foldlM (fun v i =>
      store false .currentRow v i fun f => f.setValue (row.getD i none)) o.currentRow
    let res : Res := ⟨fields, rows, Res.length_tail h⟩
    return (true, { o with currentRow := currentRow, res := some res })

def fetch (o : ResultObject) : Option Nat := o.currentRow.data

/-- `p[j]` -/
def readField (o : ResultObject) (p : Option Nat) (j : Nat) : Except Fault Field :=
  match o.currentRow.deref p j with
  | some f => .ok f
  | none => .error .outOfBounds

/-- `operator[](int)` -/
def atIndex (o : ResultObject) (j : Nat) : Traced IndexUse Fault Field :=
  Traced.note (.currentRow j o.currentRow.size) (o.readField o.fetch j)

/-- The loop of `operator[](const std::string&)`; `none` if it ends, and with it the function, without
a `return`. -/
def findName (o : ResultObject) (name : Bytes) : List Nat → Traced IndexUse Fault (Option Field)
  | [] => return none
  | i :: is => do
    let eq ← Traced.note (.fieldName i o.fieldName.size) (.ok (decide (o.fieldName.elems[i]? = some name)))
    if eq then return some (← o.atIndex i) else o.findName name is

def atName (o : ResultObject) (name : Bytes) : Traced IndexUse Fault (Option Field) :=
  o.findName name (List.range o.fieldName.size)

def getFieldsName (o : ResultObject) : List Bytes := o.fieldName.elems

/-- After `n` calls of `nextRow`. -/
def after (o : ResultObject) : Nat → Except Fault ResultObject
  | 0 => .ok o
  | n + 1 => do return (← (← o.after n).nextRow.result).2

def rowsLeft (o : ResultObject) : Nat := (o.res.map fun res => res.rows.length).getD 0

/-- The loop of `checkDatabase`, with the pointer it has taken before. -/
def findRow (p : Option Nat) (dbName : Bytes) : Nat → ResultObject → Except Fault (Bool × ResultObject)
  | 0, _ => .error .diverges
  | fuel + 1, o =>
    if p = none then .ok (false, o.endResult)
    else do
      let (more, o) ← o.nextRow.result
      if more then
        if dbName = (← o.readField p 0).getValue then return (true, o.endResult)
        else findRow p dbName fuel o
      else return (false, o.endResult)

/-- The loop of `loadUsers` and `loadRelation`, which takes the pointer in each turn and looks at the
first fields of the row. -/
def loadRows {σ : Type} (cols : Nat) (body : σ → List Field → σ) : Nat → ResultObject → σ → Except Fault σ
  | 0, _, _ => .error .diverges
  | fuel + 1, o, s => do
    let (more, o) ← o.nextRow.result
    if more then
      let row ← (List.range cols).mapM (o.readField o.fetch)
      loadRows cols body fuel o (body s row)
    else return s

end ResultObject

inductive ResultOp
  | nextRow
  | endResult

namespace ResultObject

def step (o : ResultObject) : ResultOp → Except Fault ResultObject
  | .nextRow => do return (← o.nextRow.result).2
  | .endResult => .ok o.endResult

def run (o : ResultObject) (ops : List ResultOp) : Except Fault ResultObject := ops.foldlM step o

end ResultObject

/-! ### The loops over the columns -/

section
variable {α : Type} {harmless : Bool} {use : Nat → Nat → IndexUse} {v : Vec α}

theorem store_mapFirst (harmless : Bool) (use : Nat → Nat → IndexUse) (g : Nat → α → α) {n : Nat} (hn : n < v.size) :
    store harmless use (v.mapFirst n g) n (g n) = ⟨[use n v.size], .ok (v.mapFirst (n + 1) g)⟩ := by
  rw [store, Vec.modify_mapFirst v g hn, Vec.size_mapFirst, if_pos (.inl hn)]
  rfl

theorem foldlM_store (harmless : Bool) (use : Nat → Nat → IndexUse) (g : Nat → α → α) {n : Nat} (hn : n ≤ v.size) :
    (List.range n).foldlM (fun v i => store harmless use v i (g i)) v =
      ⟨(List.range n).map fun i => use i v.size, .ok (v.mapFirst n g)⟩ := by
  induction n with
  | zero => rw [v.mapFirst_zero]; rfl
  | succ n ih =>
    rw [List.range_succ, List.foldlM_append, ih (Nat.le_of_succ_le hn), Traced.bind_ok rfl, List.foldlM_cons,
      store_mapFirst harmless use g hn, Traced.bind_ok rfl]
    simp

/-- A store behind the last element, where the block has room. -/
theorem store_behind {i : Nat} (hv : v.elems = []) (hi : i < v.capacity) (f : α → α) :
    store true use v i f = ⟨[use i 0], .ok v⟩ := by
  have hmodify : v.elems.modify i f = v.elems := by rw [hv, List.modify_nil]
  rw [store, Vec.modify_eq_self hi hmodify, Vec.size, hv, if_pos (.inr rfl)]
  rfl

theorem store_harm {i : Nat} (hi : ¬ i < v.size) (f : α → α) :
    store false use v i f = ⟨[use i v.size], .error .outOfBounds⟩ := by
  rw [store, if_neg (fun h => h.elim hi Bool.false_ne_true)]
  rfl

theorem store_id {i : Nat} (hi : i < v.size) : store harmless use v i id = ⟨[use i v.size], .ok v⟩ := by
  rw [store, Vec.modify_eq_self (Nat.lt_of_lt_of_le hi v.size_le) (List.modify_id ..), if_pos (.inl hi)]
  rfl

end

namespace ResultObject
variable {o o' : ResultObject} {res : Res}

/-- Every name goes behind the end of its vector. -/
theorem nameColumn_eq {names : Vec Bytes} {row : Vec Field} (hnames : names.elems = []) {n : Nat}
    (hn : n < names.capacity) (hrow : n < row.size) :
    nameColumn true res (names, row.mapFirst n fun i f => f.setName (res.fields.getD i [])) n =
      ⟨[.fieldName n 0, .currentRow n row.size, .currentRow n row.size],
        .ok (names, row.mapFirst (n + 1) fun i f => f.setName (res.fields.getD i []))⟩ := by
  have hid : n < (row.mapFirst n fun i f => f.setName (res.fields.getD i [])).size := by simpa using hrow
  have hset := store_mapFirst true .currentRow (fun i f => Field.setName f (res.fields.getD i [])) hrow
  unfold nameColumn
  simp only [store_behind hnames hn, store_id hid, hset, Traced.bind_ok (x := Traced.mk _ (.ok _)) rfl,
    Traced.log_pure, Traced.result_pure, Vec.size_mapFirst]
  rfl

theorem foldlM_nameColumn {names : Vec Bytes} {row : Vec Field} (hnames : names.elems = []) {n : Nat}
    (hn : n ≤ names.capacity) (hrow : n ≤ row.size) :
    (List.range n).foldlM (nameColumn true res) (names, row) =
      ⟨(List.range n).flatMap fun i => [.fieldName i 0, .currentRow i row.size, .currentRow i row.size],
        .ok (names, row.mapFirst n fun i f => f.setName (res.fields.getD i []))⟩ := by
  induction n with
  | zero => rw [row.mapFirst_zero]; rfl
  | succ n ih =>
    rw [List.range_succ, List.foldlM_append, ih (Nat.le_of_succ_le hn) (Nat.le_of_succ_le hrow), Traced.bind_ok rfl,
      List.foldlM_cons, nameColumn_eq hnames hn hrow, Traced.bind_ok rfl]
    simp

/-! ### The object and the result set it stands for -/

def toQueryResult (o : ResultObject) : QueryResult where
  currentRow := o.currentRow.elems
  fieldName := o.fieldName.elems
  res := o.res
  rowCount := o.rowCount
  columnCount := o.columnCount

theorem new_eq (a b : Nat) (res : Res) (rowCount n : Nat) :
    new true a b (some res) rowCount n =
      ⟨(List.range n).flatMap fun i => [.fieldName i 0, .currentRow i n, .currentRow i n],
        .ok ⟨(({} : Vec Field).resize a n {}).mapFirst n fun i f => f.setName (res.fields.getD i []),
          ({} : Vec Bytes).reserve b n, some res, rowCount, n⟩⟩ := by
  have hnames := Vec.elems_reserve ({} : Vec Bytes) b n
  have hsize : (({} : Vec Field).resize a n {}).size = n := by simp [Vec.resize, Vec.size]
  have hcap := Vec.le_capacity_reserve ({} : Vec Bytes) b n
  show ((List.range n).foldlM (nameColumn true res) _ >>= _) = _
  rw [foldlM_nameColumn hnames hcap (Nat.le_of_eq hsize.symm), Traced.bind_ok rfl, hsize]
  simp

/-- Without a column there is no store. -/
theorem new_zero (harmless : Bool) (a b : Nat) (res : Res) (rowCount : Nat) :
    new harmless a b (some res) rowCount 0 = new true a b (some res) rowCount 0 := rfl

/-- The first store is the end. -/
theorem new_harm (a b : Nat) (res : Res) (rowCount n : Nat) :
    new false a b (some res) rowCount (n + 1) = ⟨[.fieldName 0 0], .error .outOfBounds⟩ := by
  have hsize : (({} : Vec Bytes).reserve b (n + 1)).size = 0 := by
    rw [Vec.size, Vec.elems_reserve]
    rfl
  have hfirst : ∀ row, nameColumn false res (({} : Vec Bytes).reserve b (n + 1), row) 0 =
      ⟨[.fieldName 0 0], .error .outOfBounds⟩ := by
    intro row
    rw [nameColumn, store_harm (by rw [hsize]; exact Nat.not_lt_zero _), hsize]
    rfl
  show ((List.range (n + 1)).foldlM (nameColumn false res) _ >>= _) = _
  rw [List.range_succ_eq_map, List.foldlM_cons, hfirst]
  rfl

theorem toQueryResult_new (harmless : Bool) (a b : Nat) (res : Option Res) (rowCount n : Nat) :
    (new harmless a b res rowCount n).result.map toQueryResult = QueryResult.new harmless res rowCount n := by
  rcases res with _ | res
  · rfl
  have htrue : (new true a b (some res) rowCount n).result.map toQueryResult =
      QueryResult.new true (some res) rowCount n := by
    rw [new_eq]
    have hrow : ((({} : Vec Field).resize a n {}).mapFirst n fun i f => f.setName (res.fields.getD i [])).elems =
        (List.range n).map fun i => ({} : Field).setName (res.fields.getD i []) := by
      refine List.ext_getElem ?_ fun i hi hi' => ?_
      · simp [Vec.mapFirst, Vec.resize, Vec.size]
      · have hin : i < n := by simpa using hi'
        simp [Vec.mapFirst, Vec.resize, Vec.size, hin]
    have hnames := Vec.elems_reserve ({} : Vec Bytes) b n
    rw [QueryResult.new, if_pos (.inr rfl)]
    show Except.ok _ = Except.ok _
    rw [toQueryResult]
    simp only [hrow, hnames]
  cases harmless with
  | true => exact htrue
  | false =>
    cases n with
    | zero =>
      rw [new_zero, htrue]
      rfl
    | succ n =>
      rw [new_harm, QueryResult.new, if_neg (by simp)]
      rfl

/-- The constructor has returned, so no store did harm. -/
theorem new_of_ok {harmless : Bool} {a b rowCount n : Nat} {res : Res}
    (h : (new harmless a b (some res) rowCount n).result = .ok o) :
    (new true a b (some res) rowCount n).result = .ok o := by
  cases harmless with
  | true => exact h
  | false =>
    cases n with
    | zero => exact h
    | succ n =>
      rw [new_harm] at h
      cases h

/-- Column count, row vector and result set are in step. -/
structure InStep (o : ResultObject) : Prop where
  size : o.res = none ∨ o.currentRow.size = o.columnCount
  columns : ∀ res, o.res = some res → o.columnCount = res.fields.length

theorem InStep.size_of_some (hin : o.InStep) (h : o.res = some res) : o.currentRow.size = o.columnCount := by
  refine hin.size.resolve_left ?_
  rw [h]
  exact Option.some_ne_none _

theorem nextRow_none (h : o.res = none) : o.nextRow = ⟨[], .ok (false, o)⟩ := by
  rw [nextRow, h]
  rfl

theorem nextRow_nil {fields : List Bytes} {hlen} (h : o.res = some ⟨fields, [], hlen⟩) :
    o.nextRow = ⟨[], .ok (false, o.endResult)⟩ := by
  rw [nextRow, h]
  rfl

theorem nextRow_cons {fields : List Bytes} {row : List (Option Bytes)} {rows : List (List (Option Bytes))} {hlen}
    (hin : o.InStep) (h : o.res = some ⟨fields, row :: rows, hlen⟩) :
    o.nextRow = ⟨(List.range o.columnCount).map fun i => .currentRow i o.columnCount,
      .ok (true, { o with
        currentRow := o.currentRow.mapFirst o.columnCount fun i f => f.setValue (row.getD i none)
        res := some ⟨fields, rows, Res.length_tail hlen⟩ })⟩ := by
  have hsize := hin.size_of_some h
  have hloop := foldlM_store false .currentRow (fun i f => Field.setValue f (row.getD i none))
    (Nat.le_of_eq hsize.symm)
  rw [nextRow, h]
  dsimp only
  rw [hloop, Traced.bind_ok rfl, hsize]
  simp

theorem elems_setValues {v : Vec Field} {row : List (Option Bytes)} (h : row.length = v.size) :
    (v.mapFirst v.size fun i f => f.setValue (row.getD i none)).elems = List.zipWith Field.setValue v.elems row := by
  refine List.ext_getElem? fun i => ?_
  rw [Vec.getElem?_mapFirst, List.getElem?_zipWith]
  rcases Nat.lt_or_ge i v.elems.length with hi | hi
  · have hi' : i < row.length := by rw [h]; exact hi
    simp [List.getElem?_eq_getElem hi, List.getElem?_eq_getElem hi']
  · simp [List.getElem?_eq_none hi]

/-- One call of `nextRow`, of the object and of what it stands for. -/
theorem nextRow_cases (hin : o.InStep) :
    (∃ o', o.nextRow.result = .ok (false, o') ∧ o.toQueryResult.nextRow = (false, o'.toQueryResult) ∧
      o.rowsLeft = 0 ∧ o'.res = none ∧ o'.fetch = o.fetch) ∨
    (∃ o', o.nextRow.result = .ok (true, o') ∧ o.toQueryResult.nextRow = (true, o'.toQueryResult) ∧
      o.rowsLeft = o'.rowsLeft + 1 ∧ o'.InStep ∧ o'.res ≠ none ∧ o'.columnCount = o.columnCount ∧
      o'.fetch = o.fetch) := by
  rcases hres : o.res with _ | ⟨fields, _ | ⟨row, rows⟩, hlen⟩
  · refine .inl ⟨o, by rw [nextRow_none hres], ?_, by rw [rowsLeft, hres]; rfl, hres, rfl⟩
    rw [QueryResult.nextRow, show o.toQueryResult.res = _ from hres]
  · refine .inl ⟨o.endResult, by rw [nextRow_nil hres], ?_, by rw [rowsLeft, hres]; rfl, rfl, rfl⟩
    rw [QueryResult.nextRow, show o.toQueryResult.res = _ from hres]
    rfl
  · have hcols := hin.columns _ hres
    have hsize := hin.size_of_some hres
    refine .inr ⟨_, congrArg Traced.result (nextRow_cons hin hres), ?_, ?_, ⟨.inr ?_, ?_⟩, Option.some_ne_none _,
      rfl, rfl⟩
    · rw [QueryResult.nextRow, show o.toQueryResult.res = _ from hres]
      have hrow : row.length = o.currentRow.size := by
        rw [hsize, hcols]
        exact hlen row (List.mem_cons_self ..)
      have helems := elems_setValues hrow
      rw [hsize] at helems
      dsimp only [toQueryResult]
      rw [helems]
    · rw [rowsLeft, hres]
      rfl
    · exact (Vec.size_mapFirst ..).trans hsize
    · intro res' hres'
      cases hres'
      exact hcols

theorem inStep_endResult (o : ResultObject) : o.endResult.InStep := ⟨.inl rfl, nofun⟩

theorem inStep_new {harmless : Bool} {a b rowCount : Nat} {res : Res}
    (h : (new harmless a b (some res) rowCount res.fields.length).result = .ok o) :
    o.InStep ∧ o.res = some res ∧ o.columnCount = res.fields.length ∧ o.toQueryResult.res = some res ∧
      (0 < res.fields.length → o.fetch = some a) := by
  have h := new_of_ok h
  rw [new_eq] at h
  cases h
  refine ⟨⟨.inr ?_, ?_⟩, rfl, rfl, rfl, ?_⟩
  · refine (Vec.size_mapFirst ..).trans ?_
    simp [Vec.resize, Vec.size]
  · intro res' hres'
    cases hres'
    rfl
  · intro hc
    show (({} : Vec Field).reserve a res.fields.length).block = some a
    rw [Vec.reserve, dif_pos hc]

/-! ### Runs -/

theorem step_ok (hin : o.InStep) (op : ResultOp) : ∃ o', o.step op = .ok o' ∧ o'.InStep := by
  cases op with
  | nextRow =>
    rcases nextRow_cases hin with ⟨o', hnext, -, -, hnone, -⟩ | ⟨o', hnext, -, -, hin', -⟩
    · refine ⟨o', by rw [step, hnext]; rfl, .inl hnone, ?_⟩
      rw [hnone]
      exact nofun
    · exact ⟨o', by rw [step, hnext]; rfl, hin'⟩
  | endResult => exact ⟨_, rfl, o.inStep_endResult⟩

theorem run_ok (hin : o.InStep) (ops : List ResultOp) : ∃ o', o.run ops = .ok o' ∧ o'.InStep := by
  induction ops generalizing o with
  | nil => exact ⟨o, rfl, hin⟩
  | cons op ops ih =>
    obtain ⟨o₁, hstep, hin₁⟩ := step_ok hin op
    obtain ⟨o', hrun, hin'⟩ := ih hin₁
    exact ⟨o', Except.foldlM_cons_ok.2 ⟨o₁, hstep, hrun⟩, hin'⟩

/-! ### The callers -/

theorem readField_fetch {j : Nat} (hj : j < o.currentRow.size) :
    o.readField o.fetch j = .ok o.currentRow.elems[j] := by
  have hderef : o.currentRow.deref o.fetch j = some o.currentRow.elems[j] := by
    rw [Vec.deref, fetch, Vec.data, if_pos rfl]
    exact List.getElem?_eq_getElem hj
  rw [readField, hderef]

theorem mapM_readField {cols : Nat} (h : cols ≤ o.currentRow.size) :
    (List.range cols).mapM (o.readField o.fetch) = .ok (o.currentRow.elems.take cols) := by
  rw [Except.mapM_eq_ok (g := fun j => o.currentRow.elems.getD j {})]
  · refine congrArg _ (List.ext_getElem ?_ fun i hi hi' => ?_)
    · rw [List.length_map, List.length_range, List.length_take]
      exact (Nat.min_eq_left h).symm
    · have hin : i < o.currentRow.elems.length := by
        have : i < cols := by simpa using hi
        exact Nat.lt_of_lt_of_le this h
      simp [hin]
  · intro j hj
    have hj' : j < o.currentRow.elems.length := Nat.lt_of_lt_of_le (List.mem_range.1 hj) h
    rw [readField_fetch hj']
    simp [hj']

/-- What `loadUsers` and `loadRelation` see. -/
theorem loadRows_eq {σ : Type} {cols fuel : Nat} (body : σ → List Field → σ) (hin : o.InStep)
    (hcols : cols ≤ o.columnCount) (hfuel : o.rowsLeft < fuel) (s : σ) :
    loadRows cols body fuel o s =
      .ok (QueryResult.whileRow (fun s row => body s (row.take cols)) fuel o.toQueryResult s) := by
  induction fuel generalizing o s with
  | zero => exact absurd hfuel (Nat.not_lt_zero _)
  | succ fuel ih =>
    rw [loadRows, QueryResult.whileRow]
    rcases nextRow_cases hin with ⟨o', hnext, hq, -⟩ | ⟨o', hnext, hq, hleft, hin', hres, hcount, -⟩
    · rw [hnext, hq]
      rfl
    · have hsize := hin'.size.resolve_left hres
      have hcols' : cols ≤ o'.currentRow.size := by rw [hsize, hcount]; exact hcols
      rw [hnext, hq, Except.ok_bind]
      dsimp only
      rw [if_pos rfl, mapM_readField hcols', Except.ok_bind]
      exact ih hin' (by rw [hcount]; exact hcols) (by omega) _

/-- What `checkDatabase` finds through the pointer it has taken before the first row. -/
theorem findRow_eq {p : Option Nat} (dbName : Bytes) {fuel : Nat} (hin : o.InStep) (hcols : 0 < o.columnCount)
    (hp : o.fetch = p) (hnull : p ≠ none) (hfuel : o.rowsLeft < fuel) :
    ∃ o', findRow p dbName fuel o = .ok ((o.toQueryResult.findRow dbName fuel).1, o') := by
  induction fuel generalizing o with
  | zero => exact absurd hfuel (Nat.not_lt_zero _)
  | succ fuel ih =>
    rw [findRow, QueryResult.findRow, if_neg hnull]
    rcases nextRow_cases hin with ⟨o', hnext, hq, -⟩ | ⟨o', hnext, hq, hleft, hin', hres, hcount, hfetch⟩
    · rw [hnext, hq]
      exact ⟨_, rfl⟩
    · have hsize := hin'.size.resolve_left hres
      have hpos : 0 < o'.currentRow.size := by rw [hsize, hcount]; exact hcols
      have hread := readField_fetch hpos
      have hfirst : o'.toQueryResult.fetch.getD 0 {} = o'.currentRow.elems[0] := by
        show o'.currentRow.elems.getD 0 {} = _
        rw [List.getD_eq_getElem?_getD, List.getElem?_eq_getElem hpos, Option.getD_some]
      rw [hfetch, hp] at hread
      rw [hnext, hq, Except.ok_bind]
      dsimp only
      rw [if_pos rfl, hread, Except.ok_bind, hfirst]
      by_cases heq : dbName = o'.currentRow.elems[0].getValue
      · rw [if_pos heq, if_pos heq]
        exact ⟨_, rfl⟩
      · rw [if_neg heq, if_neg heq]
        exact ih hin' (by rw [hcount]; exact hcols) (by rw [hfetch]; exact hp) (by omega)

/-! ### Row by row -/

/-- The object after `i` rows of `res`; `p` is the pointer that was taken at the start. -/
structure At (res : Res) (p : Option Nat) (i : Nat) (o : ResultObject) : Prop where
  inStep : o.InStep
  rest : ∃ h, o.res = some ⟨res.fields, res.rows.drop i, h⟩
  names : o.currentRow.elems.map Field.name = res.fields
  fetch : o.fetch = p

variable {p : Option Nat} {i : Nat}

theorem At.cells (h : At res p i o) (row : List (Option Bytes)) :
    List.zipWith Field.setValue o.currentRow.elems row = List.zipWith Field.ofCell res.fields row := by
  rw [← h.names, List.zipWith_map_left]
  exact congrArg (List.zipWith · _ _) (funext₂ Field.setValue_eq_ofCell)

theorem At.next (h : At res p i o) (hi : i < res.rows.length) :
    ∃ o', o.nextRow.result = .ok (true, o') ∧
      o'.currentRow.elems = List.zipWith Field.ofCell res.fields res.rows[i] ∧ At res p (i + 1) o' := by
  obtain ⟨hlen, hres⟩ := h.rest
  have hrows : res.rows.drop i = res.rows[i] :: res.rows.drop (i + 1) := List.drop_eq_getElem_cons hi
  have hrow : res.rows[i].length = res.fields.length := res.rows_length _ (List.getElem_mem hi)
  have hnames : (List.zipWith Field.ofCell res.fields res.rows[i]).map Field.name = res.fields :=
    List.ext_getElem (by simp [hrow]) fun j _ _ => by simp [Field.ofCell]
  simp only [hrows] at hres hlen
  have hq := o.toQueryResult.nextRow_eq hres
  rcases nextRow_cases h.inStep with ⟨o', -, hq', -⟩ | ⟨o', hnext, hq', -, hin', -, -, hfetch⟩
  · cases hq.symm.trans hq'
  · obtain ⟨-, hq'⟩ := Prod.mk.inj (hq.symm.trans hq')
    have hcur : List.zipWith Field.setValue o.currentRow.elems res.rows[i] = o'.currentRow.elems :=
      congrArg QueryResult.currentRow hq'
    have helems := hcur.symm.trans (h.cells _)
    refine ⟨o', hnext, helems, hin', ⟨_, (congrArg QueryResult.res hq').symm⟩, ?_, hfetch.trans h.fetch⟩
    rw [helems, hnames]

theorem after_at {n : Nat} (h : At res p 0 o) (hn : n ≤ res.rows.length) :
    ∃ o', o.after n = .ok o' ∧ At res p n o' := by
  induction n with
  | zero => exact ⟨o, rfl, h⟩
  | succ n ih =>
    obtain ⟨oₙ, hafter, hat⟩ := ih (Nat.le_of_succ_le hn)
    obtain ⟨o', hnext, -, hat'⟩ := hat.next hn
    refine ⟨o', ?_, hat'⟩
    rw [after, hafter, Except.ok_bind, hnext]
    rfl

/-- Behind the last row the result set is freed, and no call finds a row any more. -/
theorem after_past {n : Nat} (h : At res p 0 o) (hn : res.rows.length ≤ n) :
    ∃ oₙ o', o.after n = .ok oₙ ∧ oₙ.nextRow.result = .ok (false, o') ∧ o'.res = none := by
  induction n, hn using Nat.le_induction with
  | base =>
    obtain ⟨oₙ, hafter, hat⟩ := after_at h (Nat.le_refl _)
    obtain ⟨hlen, hres⟩ := hat.rest
    simp only [List.drop_length] at hres hlen
    exact ⟨oₙ, _, hafter, by rw [nextRow_nil hres], rfl⟩
  | succ n _ ih =>
    obtain ⟨oₙ, o', hafter, hnext, hnone⟩ := ih
    refine ⟨o', o', ?_, by rw [nextRow_none hnone], hnone⟩
    rw [after, hafter, Except.ok_bind, hnext]
    rfl

theorem at_new {harmless : Bool} {a b rowCount : Nat}
    (h : (new harmless a b (some res) rowCount res.fields.length).result = .ok o) : At res o.fetch 0 o := by
  obtain ⟨hin, hres, -⟩ := inStep_new h
  have hq := toQueryResult_new harmless a b (some res) rowCount res.fields.length
  rw [h] at hq
  have hcur : o.currentRow.elems = _ := (QueryResult.new_currentRow hq.symm rfl).2.2
  refine ⟨hin, ⟨res.rows_length, hres⟩, ?_, rfl⟩
  rw [hcur, List.map_map]
  exact List.map_id _

/-- What the rows of `res` look like through `o`, whose constructor has just returned. -/
structure IteratesExactly (res : Res) (o : ResultObject) : Prop where
  row : ∀ i (hi : i < res.rows.length), ∃ oᵢ o', o.after i = .ok oᵢ ∧ oᵢ.nextRow.result = .ok (true, o') ∧
    o'.currentRow.elems = List.zipWith Field.ofCell res.fields res.rows[i] ∧ o'.fetch = o.fetch ∧
    ∀ j (hj : j < res.fields.length),
      o'.readField o.fetch j = .ok (Field.ofCell res.fields[j] (res.rows[i].getD j none))
  past : ∀ i, res.rows.length ≤ i → ∃ oᵢ o', o.after i = .ok oᵢ ∧ oᵢ.nextRow.result = .ok (false, o')
  size : ∀ ops, ∃ o', o.run ops = .ok o' ∧ (o'.res = none ∨ o'.currentRow.size = o'.columnCount)
  /-- the loop of `checkDatabase` returns, so it has not read a row that was cleared -/
  found : ∀ dbName, ∃ o', findRow o.fetch dbName (res.rows.length + 1) o =
    .ok (res.rows.any (holdsName dbName), o')
  /-- and so does that of `loadUsers` and `loadRelation` -/
  loaded : ∀ (σ : Type) (cols : Nat) (body : σ → List Field → σ) (s : σ), cols ≤ res.fields.length →
    loadRows cols body (res.rows.length + 1) o s =
      .ok (res.rows.foldl (fun s row => body s ((List.zipWith Field.ofCell res.fields row).take cols)) s)

/-- Whatever the stores of the names come to: if the constructor has returned, the rows are read exactly. -/
theorem iterates_exactly {harmless : Bool} {a b rowCount : Nat} {res : Res} (hc : 0 < res.fields.length)
    (hnew : (new harmless a b (some res) rowCount res.fields.length).result = .ok o) : IteratesExactly res o := by
  obtain ⟨hin, hres, hcount, hq, hfetch⟩ := inStep_new hnew
  have hat := at_new hnew
  have hsize : o.currentRow.size = res.fields.length := by
    rw [← hat.names, List.length_map]
    rfl
  have hleft : o.rowsLeft = res.rows.length := by rw [rowsLeft, hres]; rfl
  refine ⟨fun i hi => ?_, fun i hi => ?_, fun ops => ?_, fun dbName => ?_, fun σ cols body s hcols => ?_⟩
  · obtain ⟨oᵢ, hafter, hatᵢ⟩ := after_at hat (Nat.le_of_lt hi)
    obtain ⟨o', hnext, helems, hat'⟩ := hatᵢ.next hi
    refine ⟨oᵢ, o', hafter, hnext, helems, hat'.fetch, fun j hj => ?_⟩
    have hrow := res.rows_length _ (List.getElem_mem hi)
    have hj' : j < o'.currentRow.size := by
      rw [Vec.size, helems, List.length_zipWith]
      omega
    rw [← hat'.fetch, readField_fetch hj']
    simp only [helems, List.getElem_zipWith]
    rw [List.getD_eq_getElem?_getD, List.getElem?_eq_getElem, Option.getD_some]
  · obtain ⟨oᵢ, o', hafter, hnext, -⟩ := after_past hat hi
    exact ⟨oᵢ, o', hafter, hnext⟩
  · obtain ⟨o', hrun, hin'⟩ := run_ok hin ops
    exact ⟨o', hrun, hin'.size⟩
  · obtain ⟨o', hfound⟩ := findRow_eq dbName hin (by rw [hcount]; exact hc) rfl
      (by rw [hfetch hc]; exact nofun) (by rw [hleft]; exact Nat.lt_succ_self _)
    refine ⟨o', hfound.trans ?_⟩
    rw [QueryResult.findRow_eq_any res.rows_length hq hsize hc]
  · rw [loadRows_eq body hin (by rw [hcount]; exact hcols) (by rw [hleft]; exact Nat.lt_succ_self _),
      QueryResult.whileRow_eq_foldl _ res.rows_length hq hsize]
    show Except.ok (res.rows.foldl (fun s row =>
      body s ((List.zipWith Field.setValue o.currentRow.elems row).take cols)) s) = _
    simp only [hat.cells]

/-- Two databases in the answer to `show databases`. -/
def twoDatabases : Res := ⟨[ascii "Database"], [[some (ascii "IMServer")], [none]], by decide⟩

theorem iterates_exactly_databases :
    ∃ o, (new true 8 16 (some twoDatabases) 2 1).result = .ok o ∧ IteratesExactly twoDatabases o :=
  Except.isOk_and rfl fun _ hnew => iterates_exactly (by decide) hnew

/-! ### Columns by name -/

theorem logs_nextRow (hin : o.InStep) : Traced.Logs IndexUse.InRange o.nextRow := by
  rcases hres : o.res with _ | ⟨fields, _ | ⟨row, rows⟩, hlen⟩
  · rw [nextRow_none hres]
    exact nofun
  · rw [nextRow_nil hres]
    exact nofun
  · rw [nextRow_cons hin hres]
    intro u hu
    obtain ⟨i, hi, rfl⟩ := List.mem_map.1 hu
    exact List.mem_range.1 hi

/-- Each column of `res` can be looked up by its name, before and after every row. -/
structure NamesWork (res : Res) (new : Traced IndexUse Fault ResultObject) : Prop where
  constructs : ∃ o, new.result = .ok o ∧ o.getFieldsName = res.fields
  inRange : Traced.Logs IndexUse.InRange new
  lookup : ∀ o n oₙ, new.result = .ok o → n ≤ res.rows.length → o.after n = .ok oₙ →
    Traced.Logs IndexUse.InRange oₙ.nextRow ∧
    ∀ j (hj : j < res.fields.length),
      Traced.Logs IndexUse.InRange (oₙ.atIndex j) ∧ Traced.Logs IndexUse.InRange (oₙ.atName res.fields[j]) ∧
      ∃ f, (oₙ.atIndex j).result = .ok f ∧ (oₙ.atName res.fields[j]).result = .ok (some f)

theorem first_store (harmless : Bool) (a b : Nat) (res : Res) (rowCount n : Nat) :
    IndexUse.fieldName 0 0 ∈ (new harmless a b (some res) rowCount (n + 1)).log := by
  cases harmless with
  | true =>
    rw [new_eq]
    exact List.mem_flatMap.2 ⟨0, List.mem_range.2 n.succ_pos, .head _⟩
  | false =>
    rw [new_harm]
    exact .head _

/-- The first name is stored at index 0 of a vector of size 0; only a result set without columns has no
first name. -/
theorem names_work_iff (harmless : Bool) (a b rowCount : Nat) (res : Res) :
    NamesWork res (new harmless a b (some res) rowCount res.fields.length) ↔ res.fields = [] := by
  constructor
  · intro h
    by_contra hne
    obtain ⟨n, hn⟩ := Nat.exists_eq_succ_of_ne_zero (mt List.length_eq_zero_iff.1 hne)
    rw [hn] at h
    exact Nat.not_lt_zero 0 (h.inRange _ (first_store ..))
  · intro hnil
    have hlen : res.fields.length = 0 := by rw [hnil]; rfl
    refine ⟨?_, ?_, fun o n oₙ hnew hn hafter => ⟨?_, fun j hj => ?_⟩⟩
    · rw [hlen, new_zero, new_eq]
      exact ⟨_, rfl, by rw [hnil]; exact Vec.elems_reserve _ _ _⟩
    · rw [hlen, new_zero, new_eq]
      exact nofun
    · obtain ⟨o', hafter', hat⟩ := after_at (at_new hnew) hn
      obtain rfl := Except.ok_unique hafter hafter'
      exact logs_nextRow hat.inStep
    · omega

theorem column_name_lost :
    ∃ o, (new true 8 16 (some twoDatabases) 2 1).result = .ok o ∧ o.getFieldsName = [] ∧
      (o.atName (ascii "Database")).result = .ok none ∧
      ¬ NamesWork twoDatabases (new true 8 16 (some twoDatabases) 2 1) := by
  refine ⟨_, rfl, rfl, rfl, fun h => ?_⟩
  exact Nat.not_lt_zero 0 (h.inRange (.fieldName 0 0) (.head _))

end ResultObject

end IMServer
