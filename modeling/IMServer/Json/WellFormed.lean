import IMServer.Json.RoundTrip

/-!
# What the reader builds

Every value `Reader` returns, for whatever document, is as the library builds it: a `double` it reads is
one that exists, and the members of an object are in order, each name once and without a zero byte. So a
document that was accepted can be written and read again (`documents_round_trip`).
-/

namespace IMServer.Json

/-! ### Rounding gives a `double` -/

/-- Numerator and denominator of `num / den / 2 ^ k`. -/
def scaled (num den : Nat) (k : Int) : Nat × Nat :=
  if 0 ≤ k then (num, den * 2 ^ k.toNat) else (num * 2 ^ (-k).toNat, den)

theorem scaled_lt {num den : Nat} (hden : den ≠ 0) {k : Int} (hk : (num.log2 : Int) - den.log2 - 53 ≤ k) :
    (scaled num den k).1 < 2 ^ 54 * (scaled num den k).2 := by
  have hnum : num < 2 ^ (num.log2 + 1) := Nat.lt_log2_self
  have hlog : 2 ^ den.log2 ≤ den := Nat.log2_self_le hden
  unfold scaled
  split
  · calc num
      _ < 2 ^ (num.log2 + 1) := hnum
      _ ≤ 2 ^ (54 + den.log2 + k.toNat) := Nat.pow_le_pow_right (by decide) (by omega)
      _ = 2 ^ 54 * (2 ^ den.log2 * 2 ^ k.toNat) := by rw [Nat.pow_add, Nat.pow_add, Nat.mul_assoc]
      _ ≤ 2 ^ 54 * (den * 2 ^ k.toNat) := Nat.mul_le_mul_left _ (Nat.mul_le_mul_right _ hlog)
  · calc num * 2 ^ (-k).toNat
      _ < 2 ^ (num.log2 + 1) * 2 ^ (-k).toNat := Nat.mul_lt_mul_of_pos_right hnum (Nat.two_pow_pos _)
      _ = 2 ^ (num.log2 + 1 + (-k).toNat) := (Nat.pow_add ..).symm
      _ ≤ 2 ^ (54 + den.log2) := Nat.pow_le_pow_right (by decide) (by omega)
      _ = 2 ^ 54 * 2 ^ den.log2 := Nat.pow_add ..
      _ ≤ 2 ^ 54 * den := Nat.mul_le_mul_left _ hlog

theorem scaled_succ_lt {num den b : Nat} {k : Int} (h : (scaled num den k).1 < 2 * b * (scaled num den k).2) :
    (scaled num den (k + 1)).1 < b * (scaled num den (k + 1)).2 := by
  unfold scaled at h ⊢
  by_cases hk : 0 ≤ k
  · rw [if_pos hk] at h
    rw [if_pos (by omega), show (k + 1).toNat = k.toNat + 1 by omega, Nat.pow_succ]
    refine Nat.lt_of_lt_of_eq h ?_
    ring
  · rw [if_neg hk, show (-k).toNat = (-k - 1).toNat + 1 by omega, Nat.pow_succ] at h
    have hlt : num * 2 ^ (-k - 1).toNat < b * den := by
      have h₁ : num * (2 ^ (-k - 1).toNat * 2) = 2 * (num * 2 ^ (-k - 1).toNat) := by ring
      have h₂ : 2 * b * den = 2 * (b * den) := by ring
      simp only [h₁, h₂] at h
      omega
    by_cases hk' : k = -1
    · subst hk'
      simpa using hlt
    · rw [if_neg (by omega), show (-(k + 1)).toNat = (-k - 1).toNat by omega]
      exact hlt

/-- A `double` that exists. -/
def Double.Exists (d : Double) : Prop := d.Valid ∨ ∃ neg, d = .inf neg

theorem roundHalfEven_le {n d b : Nat} (h : n / d < b) : roundHalfEven n d ≤ b := by
  unfold roundHalfEven
  split <;> omega

theorem roundDouble_exists (neg : Bool) (num : Nat) {den : Nat} (hden : den ≠ 0) : (roundDouble neg num den).Exists := by
  have hround : ∀ (k : Int) (m : Nat), -1074 ≤ k → m ≤ 2 ^ 53 →
      Double.Exists (if 971 < k ∨ (k = 971 ∧ 2 ^ 53 ≤ m) then .inf neg else .finite neg m k) := by
    intro k m hk hm
    split
    · exact .inr ⟨neg, rfl⟩
    · exact .inl ⟨hm, hk, by omega⟩
  unfold roundDouble
  split
  · exact .inl ⟨Nat.zero_le _, by decide, by decide⟩
  · generalize hk₀ : max (-1074) ((num.log2 : Int) - den.log2 - 53) = k₀
    have hlo : -1074 ≤ k₀ := hk₀ ▸ le_max_left _ _
    have hlt := scaled_lt hden (hk₀ ▸ le_max_right (-1074) _)
    have hquotient : ∀ k, k = (if 2 ^ 53 ≤ (scaled num den k₀).1 / (scaled num den k₀).2 then k₀ + 1 else k₀) →
        -1074 ≤ k ∧ (scaled num den k).1 / (scaled num den k).2 < 2 ^ 53 := by
      rintro _ rfl
      split
      · refine ⟨by omega, Nat.div_lt_of_lt_mul ?_⟩
        rw [Nat.mul_comm]
        exact scaled_succ_lt hlt
      · exact ⟨hlo, by omega⟩
    obtain ⟨hk, hq⟩ := hquotient _ rfl
    exact hround _ _ hk (roundHalfEven_le hq)

theorem sscanf_exists {text : Bytes} {d : Double} (h : sscanf text = some d) : d.Exists := by
  have hround : ∀ (neg : Bool) (mant : Nat) (exp : Int),
      Double.Exists (if 0 ≤ exp then roundDouble neg (mant * 10 ^ exp.toNat) 1
        else roundDouble neg mant (10 ^ (-exp).toNat)) := by
    intro neg mant exp
    split
    · exact roundDouble_exists _ _ (by decide)
    · exact roundDouble_exists _ _ (Nat.pos_iff_ne_zero.1 (Nat.pow_pos (by decide)))
  unfold sscanf at h
  dsimp only at h
  obtain ⟨-, h⟩ := Option.ite_none_left_eq_some.1 h
  rw [← Option.some.inj h]
  exact hround _ _ _

/-- What the reader makes of a token. -/
def FromToken : Value → Prop
  | .int i => rereadInt i = .int i
  | .uint u => rereadUInt u = .uint u
  | .real d => d.Exists
  | .array _ => False
  | .object _ => False
  | _ => True

abbrev Built (v : Value) : Prop := v.WellFormed FromToken

theorem decodeDouble_built {token : Bytes} {v : Value} (h : decodeDouble token = .ok (some v)) : Built v := by
  unfold decodeDouble at h
  split at h
  · cases h
  · obtain ⟨d, hd, rfl⟩ := Option.map_eq_some_iff.1 (Except.ok.inj h)
    exact .real (sscanf_exists hd)

theorem decodeDigits_lt {threshold value n : Nat} {ds : Bytes} (hvalue : value < 10 * threshold)
    (h : decodeDigits threshold value ds = some (some n)) : n < 10 * threshold := by
  induction ds generalizing value with
  | nil =>
    cases h
    exact hvalue
  | cons d ds ih =>
    rw [decodeDigits] at h
    split at h
    · cases h
    · next hd =>
      split at h
      · cases h
      · refine ih ?_ h
        have hd' : ¬ (57 : UInt8).toNat < d.toNat := fun hlt => hd (.inr (UInt8.lt_iff_toNat_lt.2 hlt))
        simp only [UInt8.reduceToNat] at hd'
        omega

/-- A number that was read digit by digit is read so again. -/
theorem decodeNumber_built {token : Bytes} {v : Value} (h : decodeNumber token = .ok (some v)) : Built v := by
  unfold decodeNumber at h
  dsimp only at h
  split at h
  · exact decodeDouble_built h
  · split at h
    · exact decodeDouble_built h
    · cases h
    · next n hn =>
      split at h
      · next hneg =>
        rw [if_pos hneg] at hn
        have hlt := decodeDigits_lt (by decide) hn
        have htoInt : (Int32.ofInt (-(n : Int))).toInt = -n := Int32.toInt_ofInt_of_le (by omega) (by omega)
        cases h
        refine .int (show rereadInt _ = _ from if_neg ?_)
        omega
      · next hneg =>
        rw [if_neg hneg] at hn
        have hlt := decodeDigits_lt (by decide) hn
        split at h
        · next hle =>
          have htoInt : (Int32.ofNat n).toInt = n := Int32.toInt_ofNat_of_lt (by omega)
          cases h
          refine .int (show rereadInt _ = _ from if_neg ?_)
          omega
        · next hle =>
          have htoNat : (UInt32.ofNat n).toNat = n := UInt32.toNat_ofNat_of_lt' (by rw [UInt32.size]; omega)
          cases h
          refine .uint (show rereadUInt _ = _ from ?_)
          rw [rereadUInt, htoNat, if_neg (by omega), if_neg hle]

/-! ### The readers -/

/-- What is returned is well formed, if anything is. -/
abbrev Yields {α : Type} (Q : α → Prop) (x : Except Fault α) : Prop := x.Ends (fun _ => True) Q

def BuildsValue (r : Option Value × Bytes) : Prop := ∀ v, r.1 = some v → Built v

structure MembersBuilt (members : List (Bytes × Value)) : Prop where
  sorted : AssocMap.Sorted members
  names : ∀ m ∈ members, 0 ∉ m.1
  values : ∀ m ∈ members, Built m.2

theorem MembersBuilt.insert {members : List (Bytes × Value)} (h : MembersBuilt members) (name : Bytes) {v : Value}
    (hv : Built v) : MembersBuilt (AssocMap.insert (cTrunc name) v members) where
  sorted := AssocMap.sorted_insert h.sorted _ _
  names := by
    intro m hm
    rcases AssocMap.mem_insert hm with rfl | hm
    · exact zero_notMem_cTrunc name
    · exact h.names m hm
  values := by
    intro m hm
    rcases AssocMap.mem_insert hm with rfl | hm
    · exact hv
    · exact h.values m hm

theorem yields_true {α : Type} (x : Except Fault α) : Yields (fun _ => True) x := by
  cases x <;> trivial

theorem buildsValue_none (cur : Bytes) : BuildsValue (none, cur) := fun v h => by cases h

theorem buildsValue_some {v : Value} (h : Built v) (cur : Bytes) : BuildsValue (some v, cur) := by
  rintro _ ⟨⟩
  exact h

theorem recover_yields (skipUntil : TokenType) (fuel : Nat) (cur : Bytes) :
    Yields BuildsValue (do return (none, ← recoverFromError skipUntil fuel cur)) :=
  (yields_true _).bind fun _ _ => buildsValue_none _

structure ReadersBuild (fuel : Nat) : Prop where
  value : ∀ cur, Yields BuildsValue (readValue fuel cur)
  object : ∀ name members cur, MembersBuilt members → Yields BuildsValue (readObject fuel name members cur)
  array : ∀ items cur, (∀ v ∈ items, Built v) → Yields BuildsValue (readArray fuel items cur)

theorem readValue_builds {fuel : Nat} (ih : ReadersBuild fuel) (cur : Bytes) :
    Yields BuildsValue (readValue (fuel + 1) cur) := by
  rw [readValue]
  refine (yields_true _).bind ?_
  rintro ⟨token, cur⟩ -
  dsimp only
  split
  · exact ih.object [] [] cur ⟨.nil, fun m hm => (by cases hm), fun m hm => (by cases hm)⟩
  · refine .ite (fun _ => ?_) fun _ => ih.array [] cur fun v hv => (by cases hv)
    exact buildsValue_some (.array fun v hv => (by cases hv)) _
  · cases hd : decodeNumber token.text with
    | error e => trivial
    | ok r =>
      intro v hv
      obtain rfl : r = some v := hv
      exact decodeNumber_built hd
  · intro v hv
    obtain ⟨s, -, rfl⟩ := Option.map_eq_some_iff.1 hv
    exact .string trivial
  · exact buildsValue_some (.bool _) _
  · exact buildsValue_some (.bool _) _
  · exact buildsValue_some .null _
  · exact buildsValue_none _

theorem readObject_builds {fuel : Nat} (ih : ReadersBuild fuel) (name : Bytes) {members : List (Bytes × Value)}
    (hm : MembersBuilt members) (cur : Bytes) : Yields BuildsValue (readObject (fuel + 1) name members cur) := by
  rw [readObject]
  refine (yields_true _).bind ?_
  rintro ⟨tokenName, cur⟩ -
  dsimp only
  refine .ite (fun _ => buildsValue_some (.object hm.sorted hm.names hm.values) _) fun _ => ?_
  refine .ite (fun _ => recover_yields _ _ _) fun _ => ?_
  split
  · exact recover_yields _ _ _
  · next name _ =>
    refine .ite (fun _ => recover_yields _ _ _) fun _ => ?_
    refine (ih.value _).bind ?_
    rintro ⟨value, cur⟩ hvalue
    cases value with
    | none => exact recover_yields _ _ _
    | some value =>
      have hm' := hm.insert name (hvalue value rfl)
      refine .ite (fun _ => recover_yields _ _ _) fun _ => ?_
      refine (yields_true _).bind ?_
      rintro ⟨comma, cur⟩ -
      exact .ite (fun _ => buildsValue_some (.object hm'.sorted hm'.names hm'.values) _) fun _ => ih.object _ _ _ hm'

theorem readArray_builds {fuel : Nat} (ih : ReadersBuild fuel) {items : List Value} (hi : ∀ v ∈ items, Built v)
    (cur : Bytes) : Yields BuildsValue (readArray (fuel + 1) items cur) := by
  rw [readArray]
  refine (ih.value _).bind ?_
  rintro ⟨value, cur⟩ hvalue
  cases value with
  | none => exact recover_yields _ _ _
  | some value =>
    have hi' : ∀ v ∈ items ++ [value], Built v := by
      intro v hv
      rcases List.mem_append.1 hv with hv | hv
      · exact hi v hv
      · rw [List.mem_singleton.1 hv]
        exact hvalue value rfl
    refine (yields_true _).bind ?_
    rintro ⟨token, cur⟩ -
    exact .ite (fun _ => buildsValue_some (.array hi') _) fun _ => ih.array _ _ hi'

theorem readers_build (fuel : Nat) : ReadersBuild fuel := by
  induction fuel with
  | zero => exact ⟨fun _ => trivial, fun _ _ _ _ => trivial, fun _ _ _ => trivial⟩
  | succ fuel ih =>
    exact ⟨fun cur => readValue_builds ih cur, fun name _ cur hm => readObject_builds ih name hm cur,
      fun _ cur hi => readArray_builds ih hi cur⟩

theorem parse_built {document : Bytes} {v : Value} (h : parse document = .ok (some v)) : Built v := by
  have hyields : Yields (fun r => ∀ v, r = some v → Built v) (parse document) := by
    refine ((readers_build _).value document).bind ?_
    rintro ⟨root, cur⟩ hroot
    exact (yields_true _).bind fun _ _ => hroot
  rw [h] at hyields
  exact hyields v rfl

/-! ### Reading, writing and reading again -/

namespace Value

mutual

/-- The values of a tree that are neither arrays nor objects. -/
def leaves : Value → List Value
  | .array items => leavesOfItems items
  | .object members => leavesOfMembers members
  | v => [v]

def leavesOfItems : List Value → List Value
  | [] => []
  | v :: items => v.leaves ++ leavesOfItems items

def leavesOfMembers : List (Bytes × Value) → List Value
  | [] => []
  | (_, v) :: members => v.leaves ++ leavesOfMembers members

end

def isInfinite : Value → Bool
  | .real (.inf _) => true
  | _ => false

theorem leaves_item {v : Value} {items : List Value} (h : v ∈ items) : ∀ x ∈ v.leaves, x ∈ (Value.array items).leaves := by
  rw [leaves]
  induction items with
  | nil => cases h
  | cons v' items ih =>
    intro x hx
    rw [leavesOfItems]
    rcases List.mem_cons.1 h with rfl | h
    · exact List.mem_append_left _ hx
    · exact List.mem_append_right _ (ih h x hx)

theorem leaves_member {m : Bytes × Value} {members : List (Bytes × Value)} (h : m ∈ members) :
    ∀ x ∈ m.2.leaves, x ∈ (Value.object members).leaves := by
  rw [leaves]
  induction members with
  | nil => cases h
  | cons m' members ih =>
    intro x hx
    rw [leavesOfMembers]
    rcases List.mem_cons.1 h with rfl | h
    · exact List.mem_append_left _ hx
    · exact List.mem_append_right _ (ih h x hx)

/-- What holds of the leaves may be added. -/
theorem WellFormed.and_leaves {P Q : Value → Prop} {v : Value} (h : v.WellFormed P)
    (hleaves : ∀ x ∈ v.leaves, P x → Q x) : v.WellFormed Q := by
  induction h with
  | null => exact .null
  | int hi => exact .int (hleaves _ (List.mem_singleton_self _) hi)
  | uint hu => exact .uint (hleaves _ (List.mem_singleton_self _) hu)
  | real hd => exact .real (hleaves _ (List.mem_singleton_self _) hd)
  | string hs => exact .string (hleaves _ (List.mem_singleton_self _) hs)
  | bool b => exact .bool b
  | array _ ih => exact .array fun v hv => ih v hv fun x hx => hleaves x (leaves_item hv x hx)
  | object hsorted hnames _ ih =>
    exact .object hsorted hnames fun m hm => ih m hm fun x hx => hleaves x (leaves_member hm x hx)

theorem WellFormed.reread_eq {v : Value} (h : v.WellFormed fun x => x.reread = x) : v.reread = v := by
  induction h with
  | null => rfl
  | int hi => exact hi
  | uint hu => exact hu
  | real hd => exact hd
  | string hs => exact hs
  | bool b => rfl
  | array _ ih =>
    rw [reread, rereadItems_eq, List.map_congr_left ih, List.map_id']
  | @object members _ _ _ ih =>
    have hmap : members.map (fun m => (m.1, m.2.reread)) = members.map id :=
      List.map_congr_left fun m hm => by rw [ih m hm]; rfl
    rw [reread, rereadMembers_eq, hmap, List.map_id]

end Value

/-- A document that was accepted, its comments not kept, gives the same value when it is written and read
again, unless 16 digits are not enough for one of its numbers or a string has a zero byte. -/
theorem documents_round_trip (document indentation : Bytes) (v : Value) (h : parse document = .ok (some v))
    (hfinite : ∀ x ∈ v.leaves, x.isInfinite = false) (hindent : Blank indentation) :
    ((∀ yaml, parse (FastWriter.write yaml v) = .ok (some v.reread)) ∧
      ∀ style ∈ [Style.styledWriter, Style.styledStreamWriter indentation],
        ∃ text, style.write v = .ok text ∧ parse text = .ok (some v.reread)) ∧
      ((∀ d, .real d ∈ v.leaves → d.reread = d) → (∀ s, .string s ∈ v.leaves → 0 ∉ s) → v.reread = v) := by
  have hbuilt := parse_built h
  have hwritable : v.WellFormed Value.Writable := by
    refine hbuilt.and_leaves fun x hx hdecoded => ?_
    rintro d rfl
    refine Or.resolve_right hdecoded fun hinf => ?_
    obtain ⟨neg, rfl⟩ := hinf
    cases hfinite _ hx
  refine ⟨⟨parse_fastWriter hwritable, fun style hmem => parse_style (blank_indentation hindent style hmem) hwritable⟩,
    fun hreals hstrings => (hbuilt.and_leaves fun x hx hdecoded => ?_).reread_eq⟩
  cases x with
  | int i => exact hdecoded
  | uint u => exact hdecoded
  | real d => exact congrArg Value.real (hreals d hx)
  | string s => exact congrArg Value.string (cTrunc_of_notMem (hstrings s hx))
  | null => rfl
  | bool b => rfl
  | array items => exact hdecoded.elim
  | object members => exact hdecoded.elim

theorem documents_round_trip_list :
    ∃ v, parse (ascii "[1, \x7b\"k\" : -2.5e3\x7d] // two") = .ok (some v) ∧
      ((∀ yaml, parse (FastWriter.write yaml v) = .ok (some v.reread)) ∧
        ∀ style ∈ [Style.styledWriter, Style.styledStreamWriter [9]],
          ∃ text, style.write v = .ok text ∧ parse text = .ok (some v.reread)) ∧
        ((∀ d, .real d ∈ v.leaves → d.reread = d) → (∀ s, .string s ∈ v.leaves → 0 ∉ s) → v.reread = v) := by
  have hread : (parse (ascii "[1, \x7b\"k\" : -2.5e3\x7d] // two")).toOption.join.map
      (fun v => v.leaves.all fun x => !x.isInfinite) = some true := by decide +kernel
  obtain ⟨v, hv, hleaves⟩ := Option.map_eq_some_iff.1 hread
  have hparse : parse (ascii "[1, \x7b\"k\" : -2.5e3\x7d] // two") = .ok (some v) := by
    cases hp : parse (ascii "[1, \x7b\"k\" : -2.5e3\x7d] // two") with
    | error e => rw [hp] at hv; cases hv
    | ok r =>
      rw [hp] at hv
      exact congrArg Except.ok (Option.join_eq_some_iff.1 hv |> Option.some.inj)
  exact ⟨v, hparse, documents_round_trip _ [9] v hparse (by simpa using hleaves) (by decide)⟩

end IMServer.Json
