import IMServer.Json.Writers

/-!
# What the writers write is read back

A value that is as the library builds it, with finite numbers only, is written by each of the writers
without an assertion failing, and `Reader` reads `Value.reread` of it from the text
(`writers_round_trip`): the same tree, but for the numbers and strings of which `Scalars` says how they
come back. What `Reader` reads is as the library builds it (`parse_wellFormed`), so a document that was
accepted can be written and read again (`documents_round_trip`).
-/

namespace IMServer.Json

namespace Value

/-- As the library builds a value: the members of an object are in the order of their names, which are C
strings, and the numbers and strings satisfy `P`. -/
inductive WellFormed (P : Value → Prop) : Value → Prop
  | null : WellFormed P .null
  | int {i : Int32} : P (.int i) → WellFormed P (.int i)
  | uint {u : UInt32} : P (.uint u) → WellFormed P (.uint u)
  | real {d : Double} : P (.real d) → WellFormed P (.real d)
  | string {s : Bytes} : P (.string s) → WellFormed P (.string s)
  | bool (b : Bool) : WellFormed P (.bool b)
  | array {items : List Value} : (∀ v ∈ items, WellFormed P v) → WellFormed P (.array items)
  | object {members : List (Bytes × Value)} : AssocMap.Sorted members → (∀ m ∈ members, 0 ∉ m.1) →
      (∀ m ∈ members, WellFormed P m.2) → WellFormed P (.object members)

mutual

/-- The value that is read from what was written for a value. -/
def reread : Value → Value
  | .null => .null
  | .int i => rereadInt i
  | .uint u => rereadUInt u
  | .real d => .real d.reread
  | .string s => .string (cTrunc s)
  | .bool b => .bool b
  | .array items => .array (rereadItems items)
  | .object members => .object (rereadMembers members)

def rereadItems : List Value → List Value
  | [] => []
  | v :: items => v.reread :: rereadItems items

def rereadMembers : List (Bytes × Value) → List (Bytes × Value)
  | [] => []
  | (name, v) :: members => (name, v.reread) :: rereadMembers members

end

theorem rereadItems_eq (items : List Value) : rereadItems items = items.map reread := by
  induction items with
  | nil => rfl
  | cons v items ih => rw [rereadItems, ih, List.map_cons]

theorem rereadMembers_eq (members : List (Bytes × Value)) :
    rereadMembers members = members.map fun m => (m.1, m.2.reread) := by
  induction members with
  | nil => rfl
  | cons m members ih => rw [rereadMembers, ih, List.map_cons]

/-- What can be written as JSON: there is no text for an infinite number. -/
def Writable (v : Value) : Prop := ∀ d, v = .real d → d.Valid

/-- Neither an array nor an object that has something in it. -/
def isFlat (v : Value) : Bool := !((v.isArray || v.isObject) && decide (0 < v.size))

end Value

open Value (WellFormed)

/-! ### Texts that only lack the end -/

def ItemsText (t : Bytes) (items : List Value) : Prop := ∀ ws, Blank ws → DenotesItems (t ++ (ws ++ [93])) items

def MembersText (t : Bytes) (members : List (Bytes × Value)) : Prop :=
  ∀ ws, Blank ws → DenotesMembers (t ++ (ws ++ [125])) members

theorem Blank.append {ws ws' : Bytes} (h : Blank ws) (h' : Blank ws') : Blank (ws ++ ws') := by
  intro c hc
  exact (List.mem_append.1 hc).elim (h c) (h' c)

theorem blank_nil : Blank [] := fun c hc => by cases hc

section

variable {ws t ts : Bytes} {v : Value} {items : List Value} {m : Bytes × Value} {members : List (Bytes × Value)}

theorem ItemsText.last (hws : Blank ws) (ht : Denotes t v) : ItemsText (ws ++ t) [v] := by
  intro ws' hws'
  have h := DenotesItems.last hws ht hws'
  rwa [List.append_assoc] at h

theorem ItemsText.cons (hws : Blank ws) (ht : Denotes t v) (hts : ItemsText ts items) :
    ItemsText (ws ++ t ++ 44 :: ts) (v :: items) := by
  intro ws' hws'
  have h := DenotesItems.cons hws ht blank_nil (hts ws' hws')
  rwa [List.append_nil, ← List.cons_append, ← List.append_assoc] at h

theorem ItemsText.denotes (h : ItemsText t items) (hws : Blank ws) : Denotes (91 :: (t ++ (ws ++ [93]))) (.array items) :=
  .array (h ws hws)

theorem MembersText.last (hws : Blank ws) (ht : DenotesMember t m) : MembersText (ws ++ t) [m] := by
  intro ws' hws'
  have h := DenotesMembers.last hws ht hws'
  rwa [List.append_assoc] at h

theorem MembersText.cons (hws : Blank ws) (ht : DenotesMember t m) (hts : MembersText ts members) :
    MembersText (ws ++ t ++ 44 :: ts) (m :: members) := by
  intro ws' hws'
  have h := DenotesMembers.cons hws ht blank_nil (hts ws' hws')
  rwa [List.append_nil, ← List.cons_append, ← List.append_assoc] at h

/-- Members in order are read as they stand. -/
theorem MembersText.denotes (h : MembersText t members) (hsorted : AssocMap.Sorted members) (hws : Blank ws) :
    Denotes (123 :: (t ++ (ws ++ [125]))) (.object members) := by
  have hd := Denotes.object (h ws hws)
  rwa [AssocMap.foldl_insert_sorted (m := []) hsorted] at hd

theorem denotesMember {name ws : Bytes} (hname : 0 ∉ name) (hws : Blank ws) {ws₁ : Bytes} (hws₁ : Blank ws₁)
    (ht : Denotes t v) : DenotesMember (valueToQuotedString name ++ ws ++ 58 :: ws₁ ++ t) (name, v) := by
  have h := DenotesMember.mk (quotedText_valueToQuotedString name) (decodeString_valueToQuotedString name) hws hws₁ ht
  rwa [cTrunc_of_notMem (zero_notMem_cTrunc name), cTrunc_of_notMem hname] at h

end

/-! ### Values with nothing in them -/

/-- What every writer writes for a value that is flat. -/
def flatText : Value → Bytes
  | .null => ascii "null"
  | .int i => intToString i.toInt
  | .uint u => uintToString u.toNat
  | .real d => d.valueToString
  | .string s => valueToQuotedString s
  | .bool b => boolToString b
  | .array _ => ascii "[]"
  | .object _ => ascii "\x7b\x7d"

theorem eq_nil_of_isFlat_array {items : List Value} (h : (Value.array items).isFlat = true) : items = [] := by
  cases items with
  | nil => rfl
  | cons v items => simp [Value.isFlat, Value.isArray, Value.size] at h

theorem eq_nil_of_isFlat_object {members : List (Bytes × Value)} (h : (Value.object members).isFlat = true) :
    members = [] := by
  cases members with
  | nil => rfl
  | cons m members => simp [Value.isFlat, Value.isArray, Value.isObject, Value.size] at h

theorem denotes_flatText {v : Value} (h : v.WellFormed Value.Writable) (hflat : v.isFlat = true) :
    Denotes (flatText v) v.reread := by
  cases h with
  | null => exact .null
  | int _ => exact denotes_intToString _
  | uint _ => exact denotes_uintToString _
  | real hd => exact Double.denotes_valueToString (hd _ rfl)
  | string _ => exact denotes_valueToQuotedString _
  | bool b => exact .bool b
  | array _ =>
    rw [eq_nil_of_isFlat_array hflat]
    exact .emptyArray blank_nil
  | object _ _ _ =>
    rw [eq_nil_of_isFlat_object hflat]
    exact .emptyObject blank_nil

/-! ### `FastWriter` -/

namespace FastWriter

variable {yaml : Bool}

/-- What a value adds to the document. -/
def Writes (yaml : Bool) (v : Value) : Prop :=
  ∀ document, ∃ t, writeValue yaml document v = document ++ t ∧ Denotes t v.reread

theorem writeItems_text {v : Value} {items : List Value} (h : ∀ x ∈ v :: items, Writes yaml x) (first : Bool)
    (document : Bytes) :
    ∃ t, writeItems yaml first document (v :: items) = (if first then document else document ++ [44]) ++ t ∧
      ItemsText t ((v :: items).map Value.reread) := by
  induction items generalizing v first document with
  | nil =>
    obtain ⟨t, ht, hd⟩ := h v (List.mem_cons_self ..) (if first then document else document ++ [44])
    exact ⟨t, ht, .last blank_nil hd⟩
  | cons v' items ih =>
    obtain ⟨t, ht, hd⟩ := h v (List.mem_cons_self ..) (if first then document else document ++ [44])
    obtain ⟨t', ht', hd'⟩ := ih (fun x hx => h x (List.mem_cons_of_mem _ hx)) false
      (writeValue yaml (if first then document else document ++ [44]) v)
    refine ⟨t ++ 44 :: t', ?_, .cons blank_nil hd hd'⟩
    rw [writeItems]
    refine ht'.trans ?_
    rw [ht]
    simp

theorem writeMembers_text {m : Bytes × Value} {members : List (Bytes × Value)}
    (h : ∀ x ∈ m :: members, Writes yaml x.2) (hnames : ∀ x ∈ m :: members, 0 ∉ x.1) (first : Bool)
    (document : Bytes) :
    ∃ t, writeMembers yaml first document (m :: members) = (if first then document else document ++ [44]) ++ t ∧
      MembersText t ((m :: members).map fun x => (x.1, x.2.reread)) := by
  have hcolon : ∃ ws, Blank ws ∧ (if yaml then ascii ": " else ascii ":") = 58 :: ws := by
    cases yaml
    · exact ⟨[], blank_nil, rfl⟩
    · exact ⟨[32], by decide, rfl⟩
  obtain ⟨ws, hws, hcolon⟩ := hcolon
  -- the name, the colon and the value of one member
  have hmember : ∀ x ∈ m :: members, ∀ document, ∃ t,
      writeValue yaml (document ++ valueToQuotedString x.1 ++ if yaml then ascii ": " else ascii ":") x.2 =
        document ++ t ∧ DenotesMember t (x.1, x.2.reread) := by
    intro x hx document
    obtain ⟨t, ht, hd⟩ := h x hx (document ++ valueToQuotedString x.1 ++ if yaml then ascii ": " else ascii ":")
    refine ⟨_, ?_, denotesMember (hnames x hx) blank_nil hws hd⟩
    rw [ht, hcolon]
    simp
  induction members generalizing m first document with
  | nil =>
    obtain ⟨t, ht, hd⟩ := hmember m (List.mem_cons_self ..) (if first then document else document ++ [44])
    exact ⟨t, ht, .last blank_nil hd⟩
  | cons m' members ih =>
    obtain ⟨t, ht, hd⟩ := hmember m (List.mem_cons_self ..) (if first then document else document ++ [44])
    obtain ⟨t', ht', hd'⟩ := ih (fun x hx => h x (List.mem_cons_of_mem _ hx))
      (fun x hx => hnames x (List.mem_cons_of_mem _ hx)) false (_ ++ t) fun x hx => hmember x (List.mem_cons_of_mem _ hx)
    refine ⟨t ++ 44 :: t', ?_, .cons blank_nil hd hd'⟩
    obtain ⟨name, v⟩ := m
    rw [writeMembers]
    refine (congrArg (writeMembers yaml false · (m' :: members)) ht).trans (ht'.trans ?_)
    simp

theorem writeValue_writes {v : Value} (h : v.WellFormed Value.Writable) : Writes yaml v := by
  have hflat {v : Value} (hv : v.WellFormed Value.Writable) (hf : v.isFlat = true)
      (ht : ∀ document, writeValue yaml document v = document ++ flatText v) : Writes yaml v :=
    fun document => ⟨_, ht document, denotes_flatText hv hf⟩
  induction h with
  | null => exact hflat .null rfl fun _ => rfl
  | int hi => exact hflat (.int hi) rfl fun _ => rfl
  | uint hu => exact hflat (.uint hu) rfl fun _ => rfl
  | real hd => exact hflat (.real hd) rfl fun _ => rfl
  | string hs => exact hflat (.string hs) rfl fun _ => rfl
  | bool b => exact hflat (.bool b) rfl fun _ => rfl
  | @array items hitems ih =>
    cases items with
    | nil => exact hflat (.array hitems) rfl fun document => List.append_assoc ..
    | cons v items =>
      intro document
      obtain ⟨t, ht, hd⟩ := writeItems_text ih true (document ++ ascii "[")
      refine ⟨91 :: (t ++ ([] ++ [93])), ?_, ?_⟩
      · rw [writeValue, ht]
        exact (List.append_assoc ..).trans (List.append_assoc ..)
      · rw [Value.reread, Value.rereadItems_eq]
        exact hd.denotes blank_nil
  | @object members hsorted hnames hmembers ih =>
    cases members with
    | nil => exact hflat (.object hsorted hnames hmembers) rfl fun document => List.append_assoc ..
    | cons m members =>
      intro document
      obtain ⟨t, ht, hd⟩ := writeMembers_text ih hnames true (document ++ ascii "\x7b")
      refine ⟨123 :: (t ++ ([] ++ [125])), ?_, ?_⟩
      · rw [writeValue, ht]
        exact (List.append_assoc ..).trans (List.append_assoc ..)
      · rw [Value.reread, Value.rereadMembers_eq]
        exact hd.denotes (List.pairwise_map.2 hsorted) blank_nil

end FastWriter

/-! ### The styled writers -/

namespace Styler

variable {style : Style}

theorem blank_writeIndent (w : Styler) (style : Style) (h : Blank w.indentString) :
    ∃ ws, Blank ws ∧ w.writeIndent style = w.append ws := by
  have hline : Blank ([10] ++ w.indentString) := Blank.append (by decide) h
  unfold writeIndent
  split
  · split
    · exact ⟨_, h, rfl⟩
    · split
      · exact ⟨[], blank_nil, by rw [append, List.append_nil]⟩
      · split
        · exact ⟨_, hline, rfl⟩
        · exact ⟨_, h, rfl⟩
  · exact ⟨_, hline, rfl⟩

theorem writeValue_flat {v : Value} (h : v.isFlat = true) (w : Styler) (style : Style) :
    writeValue w style v = .ok (w.pushValue (flatText v)) := by
  cases v with
  | array items => rw [eq_nil_of_isFlat_array h]; rfl
  | object members => rw [eq_nil_of_isFlat_object h]; rfl
  | null => rfl
  | int i => rfl
  | uint u => rfl
  | real d => rfl
  | string s => rfl
  | bool b => rfl

/-- Where `w` stands between two values. -/
structure Ready (w : Styler) : Prop where
  indentString : Blank w.indentString
  addChildValues : w.addChildValues = false

/-- `w'` is `w` with `t` at the end of the document; `childValues` may have changed. -/
structure Appended (w w' : Styler) (t : Bytes) : Prop where
  document : w'.document = w.document ++ t
  indentString : w'.indentString = w.indentString
  addChildValues : w'.addChildValues = w.addChildValues

theorem Ready.of_appended {w w' : Styler} {t : Bytes} (h : w.Ready) (ha : w.Appended w' t) : w'.Ready :=
  ⟨ha.indentString ▸ h.indentString, ha.addChildValues.trans h.addChildValues⟩

theorem appended_append (w : Styler) (t : Bytes) : w.Appended (w.append t) t := ⟨rfl, rfl, rfl⟩

theorem Appended.trans {w₁ w₂ w₃ : Styler} {t t' : Bytes} (h : w₁.Appended w₂ t) (h' : w₂.Appended w₃ t') :
    w₁.Appended w₃ (t ++ t') :=
  ⟨by rw [h'.document, h.document, List.append_assoc], h'.indentString.trans h.indentString,
    h'.addChildValues.trans h.addChildValues⟩

/-- What a value adds to the document. -/
def Writes (style : Style) (v : Value) : Prop :=
  ∀ w : Styler, w.Ready → ∃ w' ws t, writeValue w style v = .ok w' ∧ w.Appended w' (ws ++ t) ∧ Blank ws ∧
    Denotes t v.reread

theorem Ready.writeIndent {w : Styler} (h : w.Ready) (style : Style) :
    ∃ ws, Blank ws ∧ w.Appended (w.writeIndent style) ws := by
  obtain ⟨ws, hws, heq⟩ := w.blank_writeIndent style h.indentString
  exact ⟨ws, hws, heq ▸ w.appended_append ws⟩

theorem writeItems_text {v : Value} {items : List Value} (h : ∀ x ∈ v :: items, Writes style x) {w : Styler}
    (hw : w.Ready) :
    ∃ w' t, writeItems w style (v :: items) = .ok w' ∧ w.Appended w' t ∧ ItemsText t ((v :: items).map Value.reread) := by
  induction items generalizing v w with
  | nil =>
    obtain ⟨ws₀, hws₀, ha₀⟩ := hw.writeIndent style
    obtain ⟨w₁, ws, t, h₁, ha₁, hws, hd⟩ := h v (List.mem_cons_self ..) _ (hw.of_appended ha₀)
    refine ⟨w₁, _, ?_, ha₀.trans ha₁, ?_⟩
    · rw [writeItems, h₁]
      rfl
    · rw [← List.append_assoc]
      exact .last (hws₀.append hws) hd
  | cons v' items ih =>
    obtain ⟨ws₀, hws₀, ha₀⟩ := hw.writeIndent style
    obtain ⟨w₁, ws, t, h₁, ha₁, hws, hd⟩ := h v (List.mem_cons_self ..) _ (hw.of_appended ha₀)
    have ha₁ := ha₀.trans ha₁
    have ha₂ := ha₁.trans (w₁.appended_append (ascii ","))
    obtain ⟨w₃, t', h₃, ha₃, hd'⟩ := ih (fun x hx => h x (List.mem_cons_of_mem _ hx)) (hw.of_appended ha₂)
    refine ⟨w₃, _, ?_, ha₂.trans ha₃, ?_⟩
    · rw [writeItems, h₁]
      exact h₃
    · rw [← List.append_assoc ws₀, List.append_assoc]
      exact .cons (hws₀.append hws) hd hd'

theorem writeMembers_text {m : Bytes × Value} {members : List (Bytes × Value)}
    (h : ∀ x ∈ m :: members, Writes style x.2) (hnames : ∀ x ∈ m :: members, 0 ∉ x.1) {w : Styler} (hw : w.Ready) :
    ∃ w' t, writeMembers w style (m :: members) = .ok w' ∧ w.Appended w' t ∧
      MembersText t ((m :: members).map fun x => (x.1, x.2.reread)) := by
  -- the indentation, the name, the colon and the value of one member
  have hmember : ∀ x ∈ m :: members, ∀ w : Styler, w.Ready → ∃ w' ws t,
      writeValue ((w.writeWithIndent style (valueToQuotedString x.1)).append (ascii " : ")) style x.2 = .ok w' ∧
        w.Appended w' (ws ++ t) ∧ Blank ws ∧ DenotesMember t (x.1, x.2.reread) := by
    intro x hx w hw
    obtain ⟨ws₀, hws₀, ha₀⟩ := hw.writeIndent style
    have ha₁ := (ha₀.trans (appended_append _ (valueToQuotedString x.1))).trans (appended_append _ (ascii " : "))
    obtain ⟨w₁, ws, t, h₁, ha₂, hws, hd⟩ := h x hx _ (hw.of_appended ha₁)
    have hblank : Blank ([32] ++ ws) := Blank.append (by decide) hws
    have hm := denotesMember (hnames x hx) (show Blank [32] by decide) hblank hd
    refine ⟨w₁, ws₀, _, h₁, ?_, hws₀, hm⟩
    have ha := ha₁.trans ha₂
    have htext : ws₀ ++ valueToQuotedString x.1 ++ ascii " : " ++ (ws ++ t) =
        ws₀ ++ (valueToQuotedString x.1 ++ [32] ++ 58 :: ([32] ++ ws) ++ t) := by
      rw [show ascii " : " = [32, 58, 32] from rfl]
      simp
    rwa [htext] at ha
  induction members generalizing m w with
  | nil =>
    obtain ⟨w₁, ws, t, h₁, ha, hws, hd⟩ := hmember m (List.mem_cons_self ..) w hw
    obtain ⟨name, v⟩ := m
    refine ⟨w₁, _, ?_, ha, .last hws hd⟩
    rw [writeMembers, h₁]
    rfl
  | cons m' members ih =>
    obtain ⟨w₁, ws, t, h₁, ha, hws, hd⟩ := hmember m (List.mem_cons_self ..) w hw
    have ha₂ := ha.trans (w₁.appended_append (ascii ","))
    obtain ⟨w₃, t', h₃, ha₃, hd'⟩ := ih (fun x hx => h x (List.mem_cons_of_mem _ hx))
      (fun x hx => hnames x (List.mem_cons_of_mem _ hx)) (hw.of_appended ha₂)
      (fun x hx => hmember x (List.mem_cons_of_mem _ hx))
    obtain ⟨name, v⟩ := m
    refine ⟨w₃, _, ?_, ha₂.trans ha₃, ?_⟩
    · rw [writeMembers, h₁]
      exact h₃
    · rw [List.append_assoc]
      exact .cons hws hd hd'

/-! ### Arrays -/

/-- The items written to `childValues`. -/
abbrev ChildValues (items : List Value) (ts : List Bytes) : Prop :=
  List.Forall₂ (fun v t => Denotes t v.reread) items ts

theorem pushItems_flat {items : List Value} (h : ∀ v ∈ items, v.WellFormed Value.Writable)
    (hflat : ∀ v ∈ items, v.isFlat = true) (w : Styler) (hadd : w.addChildValues = true) (style : Style)
    (lineLength : Nat) :
    ∃ ts n, pushItems w style w.childValues.length lineLength items =
        .ok ({ w with childValues := w.childValues ++ ts }, n) ∧ ChildValues items ts := by
  induction items generalizing w lineLength with
  | nil => exact ⟨[], lineLength, by rw [pushItems, List.append_nil], .nil⟩
  | cons v items ih =>
    have hpush : w.pushValue (flatText v) = { w with childValues := w.childValues ++ [flatText v] } := by
      rw [pushValue, if_pos hadd]
    obtain ⟨ts, n, hts, hd⟩ := ih (fun x hx => h x (List.mem_cons_of_mem _ hx))
      (fun x hx => hflat x (List.mem_cons_of_mem _ hx)) { w with childValues := w.childValues ++ [flatText v] } hadd
      (lineLength + (flatText v).length)
    refine ⟨flatText v :: ts, n, ?_, .cons (denotes_flatText (h v (List.mem_cons_self ..))
      (hflat v (List.mem_cons_self ..))) hd⟩
    rw [pushItems, writeValue_flat (hflat v (List.mem_cons_self ..)), hpush]
    simp only [Except.ok_bind, List.getElem?_concat_length]
    rw [List.length_append, List.length_singleton] at hts
    rw [hts, List.append_assoc]
    rfl

/-- Either the array has many lines for what it contains, or its items are all in `childValues`. -/
theorem isMultineArray_cases {items : List Value} (h : ∀ v ∈ items, v.WellFormed Value.Writable) {w : Styler}
    (hw : w.Ready) (style : Style) :
    ∃ b w', w.isMultineArray items (fun w n => pushItems w style 0 n items) = .ok (b, w') ∧ w.Appended w' [] ∧
      ((b = true ∧ w'.childValues = []) ∨ ChildValues items w'.childValues) := by
  unfold isMultineArray
  by_cases hmany : rightMargin ≤ items.length * 3 ∨
      items.any (fun v => (v.isArray || v.isObject) && decide (0 < v.size)) = true
  · refine ⟨true, { w with childValues := [] }, ?_, ⟨(List.append_nil _).symm, rfl, rfl⟩, .inl ⟨rfl, rfl⟩⟩
    rw [if_pos hmany]
    rfl
  · have hflat : ∀ v ∈ items, v.isFlat = true := by
      intro v hv
      have hany : items.any (fun v => (v.isArray || v.isObject) && decide (0 < v.size)) = false :=
        Bool.not_eq_true _ ▸ fun he => hmany (.inr he)
      rw [Value.isFlat, Bool.not_eq_eq_eq_not, Bool.not_true]
      exact Bool.not_eq_true _ ▸ List.any_eq_false.1 hany v hv
    obtain ⟨ts, n, hts, hd⟩ := pushItems_flat h hflat { w with childValues := [], addChildValues := true } rfl style
      (4 + (items.length - 1) * 2)
    refine ⟨decide (rightMargin ≤ n), { w with childValues := ts, addChildValues := false }, ?_,
      ⟨(List.append_nil _).symm, rfl, hw.addChildValues.symm⟩, .inr hd⟩
    have hts' : pushItems { w with childValues := [], addChildValues := true } style 0 (4 + (items.length - 1) * 2)
        items = .ok ({ w with childValues := ts, addChildValues := true }, n) := hts
    dsimp only
    rw [if_neg hmany, hts']
    rfl

theorem writeChildValues_text {v : Value} {items : List Value} (done : List Bytes) {ts : List Bytes}
    (h : ChildValues (v :: items) ts) {w : Styler} (hw : w.Ready) (hchild : w.childValues = done ++ ts) (style : Style) :
    ∃ w' t, w.writeChildValues style done.length (v :: items).length = .ok w' ∧ w.Appended w' t ∧
      ItemsText t ((v :: items).map Value.reread) := by
  induction items generalizing v done ts w with
  | nil =>
    cases h with
    | @cons _ t _ ts hd hrest =>
      cases hrest
      obtain ⟨ws, hws, heq⟩ := w.blank_writeIndent style hw.indentString
      have ha := (w.appended_append ws).trans (appended_append _ t)
      refine ⟨_, _, ?_, ha, .last hws hd⟩
      rw [List.length_singleton, writeChildValues, hchild, List.getElem?_concat_length]
      simp only [writeWithIndent, heq]
      rfl
  | cons v' items ih =>
    cases h with
    | @cons _ t _ ts hd hrest =>
      obtain ⟨ws, hws, heq⟩ := w.blank_writeIndent style hw.indentString
      have ha := ((w.appended_append ws).trans (appended_append _ t)).trans (appended_append _ (ascii ","))
      have hchild' : (((w.append ws).append t).append (ascii ",")).childValues = (done ++ [t]) ++ ts :=
        hchild.trans (by simp)
      obtain ⟨w₁, t', h₁, ha₁, hd'⟩ := ih (done ++ [t]) hrest (hw.of_appended ha) hchild'
      refine ⟨w₁, _, ?_, ha.trans ha₁, ?_⟩
      · have hget : (done ++ t :: ts)[done.length]? = some t := by simp
        rw [List.length_cons, writeChildValues, hchild, hget]
        simp only [writeWithIndent, heq, List.length_cons, Nat.add_one_ne_zero, ite_false]
        rw [List.length_append, List.length_singleton] at h₁
        exact h₁
      · rw [List.append_assoc]
        exact .cons hws hd hd'

theorem intercalate_text {v : Value} {items : List Value} {ts : List Bytes} (h : ChildValues (v :: items) ts) :
    ItemsText (32 :: (ascii ", ").intercalate ts) ((v :: items).map Value.reread) := by
  have hspace : Blank [32] := by decide
  induction items generalizing v ts with
  | nil =>
    cases h with
    | @cons _ t _ ts hd hrest =>
      cases hrest
      rw [List.intercalate_singleton]
      exact .last hspace hd
  | cons v' items ih =>
    cases h with
    | @cons _ t _ ts hd hrest =>
      have htail := ih hrest
      obtain ⟨t', ts, rfl⟩ : ∃ t' ts', ts = t' :: ts' := by cases hrest; exact ⟨_, _, rfl⟩
      rw [List.intercalate_cons_cons, List.append_assoc]
      exact .cons hspace hd htail

theorem unindent_indent {w w' : Styler} {t : Bytes} (h : (w.indent style).Appended w' t) :
    ∃ w'', w'.unindent style = .ok w'' ∧ w.Appended w'' t := by
  have hlen : w'.indentString = w.indentString ++ style.indentation := h.indentString
  refine ⟨{ w' with indentString := w.indentString }, ?_, ⟨h.document, rfl, h.addChildValues⟩⟩
  rw [unindent, hlen, if_pos (by rw [List.length_append]; omega)]
  simp

theorem Ready.indent {w : Styler} (hw : w.Ready) (hstyle : Blank style.indentation) (value : Bytes) :
    ((w.writeWithIndent style value).indent style).Ready := by
  obtain ⟨ws, -, ha⟩ := hw.writeIndent style
  have hw' := hw.of_appended (ha.trans (appended_append _ value))
  exact ⟨hw'.indentString.append hstyle, hw'.addChildValues⟩

/-- Something between brackets that have lines of their own. -/
theorem enclosed {w w₁ : Styler} {t : Bytes} (hw : w.Ready) (first last : Bytes)
    (h : ((w.writeWithIndent style first).indent style).Appended w₁ t) :
    ∃ w₂ ws ws', w₁.unindent style = .ok w₂ ∧ Blank ws ∧ Blank ws' ∧
      w.Appended (w₂.writeWithIndent style last) (ws ++ (first ++ (t ++ (ws' ++ last)))) := by
  obtain ⟨ws, hws, ha⟩ := hw.writeIndent style
  obtain ⟨w₂, hun, ha₂⟩ := unindent_indent h
  have ha₂ := (ha.trans (appended_append _ first)).trans ha₂
  obtain ⟨ws', hws', ha₃⟩ := (hw.of_appended ha₂).writeIndent style
  refine ⟨w₂, ws, ws', hun, hws, hws', ?_⟩
  have hall := (ha₂.trans ha₃).trans (appended_append _ last)
  rwa [List.append_assoc, List.append_assoc, List.append_assoc] at hall

theorem writes_array {v : Value} {items : List Value} (hstyle : Blank style.indentation)
    (hwf : ∀ x ∈ v :: items, x.WellFormed Value.Writable) (h : ∀ x ∈ v :: items, Writes style x) :
    Writes style (.array (v :: items)) := by
  intro w hw
  obtain ⟨b, w₁, hmulti, ha₁, hcases⟩ := isMultineArray_cases hwf hw style
  have hw₁ := hw.of_appended ha₁
  rw [writeValue, writeArrayValue, if_neg (by simp), hmulti, Value.reread, Value.rereadItems_eq]
  simp only [Except.ok_bind]
  cases b with
  | false =>
    have hd := hcases.resolve_left fun hc => (by cases hc.1)
    refine ⟨w₁.append (ascii "[ " ++ (ascii ", ").intercalate w₁.childValues ++ ascii " ]"), [], _, ?_,
      ha₁.trans (w₁.appended_append _), blank_nil, (intercalate_text hd).denotes (show Blank [32] by decide)⟩
    simp only [Bool.false_eq_true, ite_false]
    rw [if_neg (by rw [← hd.length_eq]; simp)]
    rfl
  | true =>
    have hready := hw₁.indent hstyle (ascii "[")
    have hchild : ((w₁.writeWithIndent style (ascii "[")).indent style).childValues = w₁.childValues := by
      obtain ⟨ws, -, heq⟩ := w₁.blank_writeIndent style hw₁.indentString
      rw [indent, writeWithIndent, heq]
      rfl
    -- the items are in `childValues` already, or they are written now
    have hbody : ∃ w₂ t, (if w₁.childValues.isEmpty then
        writeItems ((w₁.writeWithIndent style (ascii "[")).indent style) style (v :: items)
        else ((w₁.writeWithIndent style (ascii "[")).indent style).writeChildValues style 0 (v :: items).length) =
          .ok w₂ ∧ ((w₁.writeWithIndent style (ascii "[")).indent style).Appended w₂ t ∧
          ItemsText t ((v :: items).map Value.reread) := by
      rcases hcases with ⟨-, hnil⟩ | hd
      · rw [if_pos (by rw [hnil]; rfl)]
        exact writeItems_text h hready
      · have hne : w₁.childValues.isEmpty = false := by
          generalize w₁.childValues = ts at hd
          cases hd
          rfl
        rw [if_neg (by simp [hne])]
        exact writeChildValues_text [] hd hready hchild style
    obtain ⟨w₂, t, h₂, ha₂, hd⟩ := hbody
    obtain ⟨w₃, ws, ws', hun, hws, hws', ha₃⟩ := enclosed hw₁ (ascii "[") (ascii "]") ha₂
    refine ⟨_, ws, _, ?_, ha₁.trans ha₃, hws, hd.denotes hws'⟩
    have hend : ∀ {body : Except Fault Styler}, body = .ok w₂ → (body >>= fun w => do
        let w ← w.unindent style
        return w.writeWithIndent style (ascii "]")) = .ok (w₃.writeWithIndent style (ascii "]")) := by
      rintro _ rfl
      simp only [Except.ok_bind, hun]
      rfl
    simp only [ite_true, hchild]
    split at h₂
    · next hempty =>
      rw [if_pos hempty]
      exact hend h₂
    · next hempty =>
      rw [if_neg hempty]
      exact hend h₂

theorem writes_object {m : Bytes × Value} {members : List (Bytes × Value)} (hstyle : Blank style.indentation)
    (hsorted : AssocMap.Sorted (m :: members)) (hnames : ∀ x ∈ m :: members, 0 ∉ x.1)
    (h : ∀ x ∈ m :: members, Writes style x.2) : Writes style (.object (m :: members)) := by
  intro w hw
  obtain ⟨w₂, t, h₂, ha₂, hd⟩ := writeMembers_text h hnames (hw.indent hstyle (ascii "\x7b"))
  obtain ⟨w₃, ws, ws', hun, hws, hws', ha₃⟩ := enclosed hw (ascii "\x7b") (ascii "\x7d") ha₂
  rw [writeValue, if_neg (by simp), h₂, Value.reread, Value.rereadMembers_eq]
  refine ⟨_, ws, _, ?_, ha₃, hws, hd.denotes (List.pairwise_map.2 hsorted) hws'⟩
  simp only [Except.ok_bind, hun]
  rfl

theorem writes_flat {v : Value} (h : v.WellFormed Value.Writable) (hflat : v.isFlat = true) : Writes style v := by
  intro w hw
  refine ⟨w.append (flatText v), [], flatText v, ?_, w.appended_append _, blank_nil, denotes_flatText h hflat⟩
  rw [writeValue_flat hflat, pushValue, hw.addChildValues]
  rfl

theorem writeValue_writes (hstyle : Blank style.indentation) {v : Value} (h : v.WellFormed Value.Writable) :
    Writes style v := by
  induction h with
  | null => exact writes_flat .null rfl
  | int hi => exact writes_flat (.int hi) rfl
  | uint hu => exact writes_flat (.uint hu) rfl
  | real hd => exact writes_flat (.real hd) rfl
  | string hs => exact writes_flat (.string hs) rfl
  | bool b => exact writes_flat (.bool b) rfl
  | @array items hitems ih =>
    cases items with
    | nil => exact writes_flat (.array hitems) rfl
    | cons v items => exact writes_array hstyle hitems ih
  | @object members hsorted hnames hmembers ih =>
    cases members with
    | nil => exact writes_flat (.object hsorted hnames hmembers) rfl
    | cons m members => exact writes_object hstyle hsorted hnames ih

end Styler

theorem parse_fastWriter {v : Value} (h : v.WellFormed Value.Writable) (yaml : Bool) :
    parse (FastWriter.write yaml v) = .ok (some v.reread) := by
  obtain ⟨t, ht, hd⟩ := FastWriter.writeValue_writes h []
  rw [FastWriter.write, ht]
  exact parse_of_denotes blank_nil hd (by decide)

theorem parse_style {style : Style} (hstyle : Blank style.indentation) {v : Value} (h : v.WellFormed Value.Writable) :
    ∃ document, style.write v = .ok document ∧ parse document = .ok (some v.reread) := by
  obtain ⟨w, ws, t, hw, ha, hws, hd⟩ := Styler.writeValue_writes hstyle h {} ⟨blank_nil, rfl⟩
  refine ⟨w.document ++ ascii "\n", by rw [Style.write, hw]; rfl, ?_⟩
  rw [ha.document, List.nil_append, List.append_assoc]
  exact parse_of_denotes hws hd (by decide)

theorem blank_indentation {indentation : Bytes} (h : Blank indentation) :
    ∀ style ∈ [Style.styledWriter, Style.styledStreamWriter indentation], Blank style.indentation := by
  simp only [List.forall_mem_cons, List.not_mem_nil, false_imp_iff, implies_true, and_true]
  exact ⟨by decide, h⟩

end IMServer.Json
