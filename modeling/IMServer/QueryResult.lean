import IMServer.Decimal
import IMServer.Lib.Run

/-!
# `Field` and `QueryResult`

A result set is read row by row into one vector of fields. `Field::setValue` is read with its
undeclared names standing for the members. The column names are stored behind the end of a vector
that is only reserved, into strings that were never constructed: either this does no harm, and the
vector stays empty, or it is the end of the run.
-/

namespace IMServer

structure Field where
  name : Bytes := []
  value : Bytes := []
  isEmpty : Bool := true
deriving DecidableEq

namespace Field

def setName (f : Field) (name : Bytes) : Field := { f with name := name }

def setValue (f : Field) : Option Bytes → Field
  | none => { f with isEmpty := true, value := [] }
  | some value =>
    if value.length = 0 then { f with isEmpty := true, value := [] }
    else { f with value := value, isEmpty := false }

def getValue (f : Field) : Bytes := f.value

def toInt32 (f : Field) : Int32 := atoi f.value

end Field

/-- `MYSQL_RES`: the rows that have not been fetched yet. -/
structure Res where
  fields : List Bytes
  rows : List (List (Option Bytes))
  rows_length : ∀ row ∈ rows, row.length = fields.length

structure QueryResult where
  currentRow : List Field
  fieldName : List Bytes := []
  res : Option Res
  rowCount : Nat
  columnCount : Nat

namespace QueryResult

/-- The constructor; `mysql_fetch_fields` follows the pointer it is given. `harmless` tells what becomes of the
stores behind the end of `_fieldName`. -/
def new (harmless : Bool) (res : Option Res) (rowCount columnCount : Nat) : Except Fault QueryResult :=
  match res with
  | none => .error .nullPointer
  | some res =>
    if columnCount = 0 ∨ harmless then .ok {
      currentRow := (List.range columnCount).map fun i => ({} : Field).setName (res.fields.getD i [])
      res := some res
      rowCount := rowCount
      columnCount := columnCount }
    else .error .outOfBounds

def endResult (_ : QueryResult) : QueryResult where
  currentRow := []
  res := none
  rowCount := 0
  columnCount := 0

def nextRow (r : QueryResult) : Bool × QueryResult :=
  match r.res with
  | none => (false, r)
  | some ⟨_, [], _⟩ => (false, r.endResult)
  | some ⟨fields, row :: rows, h⟩ =>
    (true, { r with
      currentRow := List.zipWith Field.setValue r.currentRow row
      res := some ⟨fields, rows, fun x hx => h x (List.mem_cons_of_mem _ hx)⟩ })

def fetch (r : QueryResult) : List Field := r.currentRow

def rowsLeft (r : QueryResult) : Nat := (r.res.map fun res => res.rows.length).getD 0

/-- `while (res->nextRow()) { Field* row = res->Fetch(); … }` with at most `fuel` turns. -/
def whileRow {σ : Type} (body : σ → List Field → σ) : Nat → QueryResult → σ → σ
  | 0, _, s => s
  | fuel + 1, r, s =>
    match r.nextRow with
    | (false, _) => s
    | (true, r) => whileRow body fuel r (body s r.fetch)

def forEachRow {σ : Type} (r : QueryResult) (s : σ) (body : σ → List Field → σ) : σ :=
  whileRow body (r.rowsLeft + 1) r s

end QueryResult

theorem Field.setValue_setValue (f : Field) (a b : Option Bytes) :
    (f.setValue a).setValue b = f.setValue b := by
  cases a <;> cases b <;> simp only [setValue] <;> (repeat' split) <;> rfl

theorem Field.zipWith_setValue {fs : List Field} {a b : List (Option Bytes)} (h : a.length = fs.length) :
    List.zipWith setValue (List.zipWith setValue fs a) b = List.zipWith setValue fs b := by
  induction fs generalizing a b with
  | nil => simp
  | cons f fs ih =>
    cases a with
    | nil => cases h
    | cons x xs =>
      cases b with
      | nil => simp
      | cons y ys => simp only [List.zipWith_cons_cons, setValue_setValue, ih (Nat.succ.inj h)]

namespace QueryResult

theorem whileRow_eq_foldl {σ : Type} (body : σ → List Field → σ) {fields : List Bytes}
    {rows : List (List (Option Bytes))} (h : ∀ row ∈ rows, row.length = fields.length)
    {r : QueryResult} (hres : r.res = some ⟨fields, rows, h⟩) (hcur : r.currentRow.length = fields.length)
    (s : σ) :
    whileRow body (rows.length + 1) r s =
      rows.foldl (fun s row => body s (List.zipWith Field.setValue r.currentRow row)) s := by
  induction rows generalizing r s with
  | nil =>
    rw [whileRow, nextRow, hres]
    rfl
  | cons row rows ih =>
    have hrow : row.length = r.currentRow.length := by rw [hcur]; exact h row (List.mem_cons_self ..)
    rw [List.length_cons, whileRow, nextRow, hres]
    simp only [fetch]
    rw [ih (fun x hx => h x (List.mem_cons_of_mem _ hx)) rfl (by simp [hrow, hcur])]
    simp only [Field.zipWith_setValue hrow, List.foldl_cons]

theorem forEachRow_eq_foldl {σ : Type} (body : σ → List Field → σ) {r : QueryResult} {res : Res}
    (hres : r.res = some res) (hcur : r.currentRow.length = res.fields.length) (s : σ) :
    r.forEachRow s body =
      res.rows.foldl (fun s row => body s (List.zipWith Field.setValue r.currentRow row)) s := by
  have hleft : r.rowsLeft = res.rows.length := by rw [rowsLeft, hres]; rfl
  rw [forEachRow, hleft]
  exact whileRow_eq_foldl body res.rows_length hres hcur s

/-- The constructor returns exactly if it is given a result set and no store does harm. -/
theorem new_returns (harmless : Bool) (res : Option Res) (n m : Nat) :
    (new harmless res n m).Returns ↔ res ≠ none ∧ (m = 0 ∨ harmless = true) := by
  cases res with
  | none => exact iff_of_false (Except.not_returns_error _) fun h => h.1 rfl
  | some res =>
    rw [new]
    split
    · next h => exact iff_of_true (Except.returns_ok _) ⟨Option.some_ne_none _, h⟩
    · next h => exact iff_of_false (Except.not_returns_error _) fun h' => h h'.2

theorem new_currentRow {harmless : Bool} {res : Res} {n m : Nat} {r : QueryResult}
    (h : new harmless (some res) n m = .ok r) (hm : m = res.fields.length) :
    r.res = some res ∧ r.rowCount = n ∧ r.currentRow = res.fields.map fun name => ({} : Field).setName name := by
  rw [new] at h
  split at h
  swap
  · cases h
  cases h
  subst hm
  refine ⟨rfl, rfl, List.ext_getElem (by simp) fun i hi _ => ?_⟩
  have : i < res.fields.length := by simpa using hi
  simp [List.getElem?_eq_getElem this]

end QueryResult

end IMServer
