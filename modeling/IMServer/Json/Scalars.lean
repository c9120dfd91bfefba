import IMServer.Json.Grammar
import IMServer.Json.Quoted
import Mathlib.Data.Nat.Log
import Mathlib.Data.List.DropRight

/-!
# Numbers and strings, written and read

What the writers write for a number or a string, and what the reader makes of it. An integer whose
digits reach the limit of `decodeNumber` before the last one comes back as a `double`; a `double` is
written with 16 digits and comes back as the `double` next to them. A string comes back up to its first
zero byte.
-/

namespace IMServer.Json

/-! ### `valueToString(double)` -/

def roundHalfEven (n d : Nat) : Nat :=
  if d < 2 * (n % d) ∨ (2 * (n % d) = d ∧ n / d % 2 = 1) then n / d + 1 else n / d

/-- The exponent of the first digit of `num / den` in decimal. -/
def decimalExponent (num den : Nat) : Int :=
  if den ≤ num then Nat.log 10 (num / den) else -(Nat.clog 10 ((den + num - 1) / num) : Int)

/-- `num / den` rounded to 16 digits, and the exponent of the first of them. -/
def significand (num den : Nat) : Nat × Int :=
  let x := decimalExponent num den
  let q := if x ≤ 15 then roundHalfEven (num * 10 ^ (15 - x).toNat) den
    else roundHalfEven num (den * 10 ^ (x - 15).toNat)
  if q = 10 ^ 16 then (10 ^ 15, x + 1) else (q, x)

def lowDigits : Nat → Nat → Bytes
  | 0, _ => []
  | k + 1, n => lowDigits k (n / 10) ++ [digitByte (n % 10)]

/-- At least two digits. -/
def exponentToString (x : Int) : Bytes :=
  101 :: (if x < 0 then 45 else 43) ::
    (if x.natAbs < 10 then 48 :: uintToString x.natAbs else uintToString x.natAbs)

/-- `sprintf(buffer, "%#.16g", value)` -/
def sprintf : Double → Bytes
  | .inf neg => (if neg then [45] else []) ++ ascii "inf"
  | .finite neg mant exp =>
    let (q, x) := if mant = 0 then (0, 0) else significand (mant * 2 ^ exp.toNat) (2 ^ (-exp).toNat)
    let digits := lowDigits 16 q
    (if neg then [45] else []) ++
      if x < -4 ∨ 16 ≤ x then digits.take 1 ++ 46 :: (digits.drop 1 ++ exponentToString x)
      else if x < 0 then 48 :: 46 :: (List.replicate (-x - 1).toNat 48 ++ digits)
      else digits.take (x.toNat + 1) ++ 46 :: digits.drop (x.toNat + 1)

/-- Zeros at the end are cut off but for one, if only digits stand between them and the point. -/
def Double.valueToString (value : Double) : Bytes :=
  let buffer := sprintf value
  if buffer.getLast? ≠ some 48 then buffer
  else
    let last := (buffer.rdropWhile (· = 48)).length - 1
    if ((buffer.take (last + 1)).rdropWhile isDigit).getLast? = some 46 then buffer.take (last + 2) else buffer

/-- What a finite `double` can be. -/
def Double.Valid : Double → Prop
  | .finite _ mant exp => mant ≤ 2 ^ 53 ∧ -1074 ≤ exp ∧ exp ≤ 971
  | .inf _ => False

/-- The `double` next to the 16 digits of `d`. -/
def Double.reread (d : Double) : Double := (sscanf d.valueToString).getD d

example : (Double.finite false 3 (-1)).valueToString = ascii "1.50" ∧
    (Double.finite true 1 100).valueToString = ascii "-1.267650600228229e+30" ∧
    (Double.finite false 1 (-10)).valueToString = ascii "0.00097656250" ∧
    (Double.finite false 0 0).valueToString = ascii "0.0" := by decide +kernel

/-! ### A `double` is read as a `double` -/

theorem isNumberChar_of_isDigit {c : UInt8} (h : isDigit c = true) : isNumberChar c = true := by
  simp [isNumberChar, h]

theorem isDigit_lowDigits {k n : Nat} : ∀ c ∈ lowDigits k n, isDigit c = true := by
  induction k generalizing n with
  | zero => simp [lowDigits]
  | succ k ih =>
    intro c hc
    rcases List.mem_append.1 hc with hc | hc
    · exact ih c hc
    · rw [List.mem_singleton.1 hc]
      exact isDigit_digitByte (Nat.mod_lt _ (by decide))

theorem length_lowDigits (k n : Nat) : (lowDigits k n).length = k := by
  induction k generalizing n with
  | zero => rfl
  | succ k ih => rw [lowDigits, List.length_append, ih, List.length_singleton]

theorem isDigit_uintToString (n : Nat) : ∀ c ∈ uintToString n, isDigit c = true := by
  unfold uintToString
  split
  · exact List.forall_mem_singleton.2 rfl
  · intro c hc
    obtain ⟨d, hd, rfl⟩ := List.mem_map.1 hc
    exact isDigit_digitByte (Nat.digits_lt_base (by decide) (List.mem_reverse.1 hd))

theorem length_uintToString {n k : Nat} (hk : k ≠ 0) (h : n < 10 ^ k) : (uintToString n).length ≤ k := by
  unfold uintToString
  split
  · exact Nat.one_le_iff_ne_zero.2 hk
  · rw [List.length_map, List.length_reverse]
    exact (Nat.digits_length_le_iff (by decide) n).2 h

theorem takeDigits_append {ds rest : Bytes} (hds : ∀ c ∈ ds, isDigit c = true)
    (hrest : ∀ c ∈ rest.head?, isDigit c = false) (acc count : Nat) :
    ∃ n, takeDigits acc count (ds ++ rest) = (n, count + ds.length, rest) := by
  induction ds generalizing acc count with
  | nil =>
    cases rest with
    | nil => exact ⟨acc, rfl⟩
    | cons c rest => exact ⟨acc, by simp [takeDigits, hrest c rfl]⟩
  | cons d ds ih =>
    obtain ⟨n, hn⟩ := ih (fun c hc => hds c (List.mem_cons_of_mem _ hc)) (acc * 10 + (d.toNat - 48)) (count + 1)
    refine ⟨n, ?_⟩
    rw [List.cons_append, takeDigits, if_pos (hds d (List.mem_cons_self ..)), hn, List.length_cons]
    congr 2
    omega

/-- A number with a point: a sign perhaps, digits, the point and whatever else a number may have. -/
structure PointText (t : Bytes) : Prop where
  shape : ∃ sign whole rest, t = sign ++ (whole ++ 46 :: rest) ∧ (sign = [] ∨ sign = [45]) ∧ whole ≠ [] ∧
    (∀ c ∈ whole, isDigit c = true) ∧ ∀ c ∈ rest, isNumberChar c = true
  fits : t.length < bufferSize

namespace PointText

variable {t : Bytes}

theorem numberText (h : PointText t) : NumberText t := by
  obtain ⟨sign, whole, rest, rfl, hsign, hne, hwhole, hrest⟩ := h.shape
  obtain ⟨d, ds, rfl⟩ := List.exists_cons_of_ne_nil hne
  have hd := hwhole d (List.mem_cons_self ..)
  constructor
  · rcases hsign with rfl | rfl
    · exact ⟨d, rfl, .inl hd⟩
    · exact ⟨45, rfl, .inr rfl⟩
  · intro c hc
    rcases List.mem_append.1 hc with hc | hc
    · rcases hsign with rfl | rfl
      · cases hc
      · rw [List.mem_singleton.1 hc]
        decide
    · rcases List.mem_append.1 hc with hc | hc
      · exact isNumberChar_of_isDigit (hwhole c hc)
      · rcases List.mem_cons.1 hc with rfl | hc
        · decide
        · exact hrest c hc

theorem sscanf_isSome (h : PointText t) : (sscanf t).isSome = true := by
  obtain ⟨sign, whole, rest, rfl, hsign, hne, hwhole, hrest⟩ := h.shape
  have hpoint : ∀ c ∈ (46 :: rest).head?, isDigit c = false := by
    rintro _ ⟨⟩
    decide
  obtain ⟨n, hn⟩ := takeDigits_append hwhole hpoint 0 0
  have hlen : whole.length ≠ 0 := by simpa using hne
  rcases hsign with rfl | rfl
  · obtain ⟨d, ds, rfl⟩ := List.exists_cons_of_ne_nil hne
    have hd := hwhole d (List.mem_cons_self ..)
    have h45 : d ≠ 45 := by rintro rfl; exact absurd hd (by decide)
    have h43 : d ≠ 43 := by rintro rfl; exact absurd hd (by decide)
    rw [List.cons_append] at hn
    unfold sscanf
    simp [h45, h43, hn]
  · unfold sscanf
    simp [hn, hlen]

theorem decodeNumber_eq (h : PointText t) {d : Double} :
    decodeNumber t = .ok (some (.real ((sscanf t).getD d))) := by
  obtain ⟨sign, whole, rest, hshape, -⟩ := h.shape
  have hpoint : t.any (fun c => c == 46 || c == 101 || c == 69 || c == 43) = true := by
    rw [hshape]
    simp
  have hlen : t.length ≠ bufferSize := Nat.ne_of_lt h.fits
  obtain ⟨v, hv⟩ := Option.isSome_iff_exists.1 h.sscanf_isSome
  rw [decodeNumber]
  simp only [hpoint, Bool.true_or, ite_true]
  rw [decodeDouble, if_neg hlen, hv]
  rfl

/-- What is left when the end is cut off behind the point. -/
theorem take (h : PointText t) {n : Nat} (hn : 46 ∈ t.take n) : PointText (t.take n) := by
  obtain ⟨sign, whole, rest, rfl, hsign, hne, hwhole, hrest⟩ := h.shape
  have hbefore : (46 : UInt8) ∉ sign ++ whole := by
    intro hmem
    rcases List.mem_append.1 hmem with hmem | hmem
    · rcases hsign with rfl | rfl
      · cases hmem
      · exact absurd (List.mem_singleton.1 hmem) (by decide)
    · exact absurd (hwhole _ hmem) (by decide)
  have hlt : (sign ++ whole).length < n := by
    by_contra hle
    rw [← List.append_assoc, List.take_append_of_le_length (by omega)] at hn
    exact hbefore (List.mem_of_mem_take hn)
  obtain ⟨k, rfl⟩ : ∃ k, n = (sign ++ whole).length + (k + 1) := ⟨n - (sign ++ whole).length - 1, by omega⟩
  refine ⟨⟨sign, whole, rest.take k, ?_, hsign, hne, hwhole, fun c hc => hrest c (List.mem_of_mem_take hc)⟩, ?_⟩
  · rw [← List.append_assoc, List.take_length_add_append, List.take_succ_cons, List.append_assoc]
  · exact Nat.lt_of_le_of_lt (List.length_take_le' ..) h.fits

end PointText

theorem natAbs_decimalExponent {num den k : Nat} (hnum : num ≤ 2 ^ k) (hden : den ≤ 2 ^ k) :
    (decimalExponent num den).natAbs ≤ k := by
  unfold decimalExponent
  split
  · have hlog : Nat.log 10 (num / den) ≤ Nat.log 2 (2 ^ k) :=
      Nat.log_mono (by decide) (by decide) (Nat.le_trans (Nat.div_le_self _ _) hnum)
    rw [Nat.log_pow (by decide)] at hlog
    omega
  · have hle : (den + num - 1) / num ≤ 2 ^ k := by
      rcases Nat.eq_zero_or_pos num with rfl | hpos
      · simp
      · refine Nat.le_trans (Nat.div_le_of_le_mul ?_) hden
        obtain ⟨a, rfl⟩ := Nat.exists_eq_add_of_lt hpos
        obtain ⟨b, rfl⟩ : ∃ b, den = b + 1 := Nat.exists_eq_succ_of_ne_zero (by omega)
        have hmul : (0 + a + 1) * (b + 1) = a * b + a + b + 1 := by ring
        omega
    have hlog : Nat.clog 10 ((den + num - 1) / num) ≤ Nat.clog 2 (2 ^ k) :=
      Nat.clog_mono (by decide) (by decide) hle
    rw [Nat.clog_pow _ _ (by decide)] at hlog
    omega

theorem natAbs_significand {num den k : Nat} (hnum : num ≤ 2 ^ k) (hden : den ≤ 2 ^ k) :
    (significand num den).2.natAbs ≤ k + 1 := by
  have h := natAbs_decimalExponent hnum hden
  unfold significand
  dsimp only
  generalize decimalExponent num den = x at h ⊢
  generalize (if x ≤ 15 then _ else _) = q
  split
  · exact Nat.le_trans (Int.natAbs_add_le _ _) (Nat.add_le_add_right h 1)
  · exact Nat.le_succ_of_le h

theorem exponentToString_chars (x : Int) : ∀ c ∈ exponentToString x, isNumberChar c = true := by
  intro c hc
  have hdigits : ∀ c ∈ uintToString x.natAbs, isNumberChar c = true := fun c hc =>
    isNumberChar_of_isDigit (isDigit_uintToString _ c hc)
  rw [exponentToString, List.mem_cons, List.mem_cons] at hc
  rcases hc with rfl | rfl | hc
  · decide
  · split <;> decide
  · split at hc
    · rcases List.mem_cons.1 hc with rfl | hc
      · decide
      · exact hdigits c hc
    · exact hdigits c hc

theorem length_exponentToString {x : Int} (h : x.natAbs < 10 ^ 4) : (exponentToString x).length ≤ 6 := by
  rw [exponentToString, List.length_cons, List.length_cons]
  by_cases hlt : x.natAbs < 10
  · have := length_uintToString (k := 1) (by decide) hlt
    rw [if_pos hlt, List.length_cons]
    omega
  · have := length_uintToString (k := 4) (by decide) h
    rw [if_neg hlt]
    omega

theorem pointText_sprintf {d : Double} (h : d.Valid) : PointText (sprintf d) := by
  cases d with
  | inf neg => exact h.elim
  | finite neg mant exp =>
    obtain ⟨hmant, hlo, hhi⟩ := h
    unfold sprintf
    simp only
    generalize hqx : (if mant = 0 then ((0, 0) : Nat × Int) else
      significand (mant * 2 ^ exp.toNat) (2 ^ (-exp).toNat)) = qx
    have hx : qx.2.natAbs < 10 ^ 4 := by
      rw [← hqx]
      split
      · decide
      · obtain ⟨k, hk⟩ : ∃ k : Nat, k = 1074 := ⟨_, rfl⟩
        have hnum : mant * 2 ^ exp.toNat ≤ 2 ^ k :=
          calc mant * 2 ^ exp.toNat
            _ ≤ 2 ^ 53 * 2 ^ exp.toNat := Nat.mul_le_mul_right _ hmant
            _ = 2 ^ (53 + exp.toNat) := (Nat.pow_add ..).symm
            _ ≤ 2 ^ k := Nat.pow_le_pow_right (by decide) (by omega)
        have hden : 2 ^ (-exp).toNat ≤ 2 ^ k := Nat.pow_le_pow_right (by decide) (by omega)
        have := natAbs_significand hnum hden
        omega
    generalize qx.2 = x at hx ⊢
    have hdigits : ∀ c ∈ lowDigits 16 qx.1, isDigit c = true := isDigit_lowDigits
    have hlen := length_lowDigits 16 qx.1
    generalize lowDigits 16 qx.1 = digits at hdigits hlen ⊢
    have hsign : (if neg then [45] else [] : Bytes) = [] ∨ (if neg then [45] else [] : Bytes) = [45] := by
      cases neg
      · exact .inl rfl
      · exact .inr rfl
    generalize (if neg then [45] else [] : Bytes) = sign at hsign ⊢
    have hsignlen : sign.length ≤ 1 := by rcases hsign with rfl | rfl <;> decide
    have hnumber : ∀ c ∈ digits, isNumberChar c = true := fun c hc => isNumberChar_of_isDigit (hdigits c hc)
    split
    · have := length_exponentToString hx
      refine ⟨⟨sign, digits.take 1, _, rfl, hsign, ?_, fun c hc => hdigits c (List.mem_of_mem_take hc), ?_⟩, ?_⟩
      · exact List.ne_nil_of_length_pos (by rw [List.length_take]; omega)
      · intro c hc
        rcases List.mem_append.1 hc with hc | hc
        · exact hnumber c (List.mem_of_mem_drop hc)
        · exact exponentToString_chars x c hc
      · simp only [List.length_append, List.length_cons, List.length_take, List.length_drop, bufferSize]
        omega
    · split
      · refine ⟨⟨sign, [48], _, rfl, hsign, List.cons_ne_nil _ _, List.forall_mem_singleton.2 rfl, ?_⟩, ?_⟩
        · intro c hc
          rcases List.mem_append.1 hc with hc | hc
          · rw [List.eq_of_mem_replicate hc]
            decide
          · exact hnumber c hc
        · simp only [List.length_append, List.length_cons, List.length_replicate, bufferSize]
          omega
      · refine ⟨⟨sign, digits.take (x.toNat + 1), _, rfl, hsign, ?_, fun c hc => hdigits c (List.mem_of_mem_take hc),
          fun c hc => hnumber c (List.mem_of_mem_drop hc)⟩, ?_⟩
        · exact List.ne_nil_of_length_pos (by rw [List.length_take]; omega)
        · simp only [List.length_append, List.length_cons, List.length_take, List.length_drop, bufferSize]
          omega

theorem Double.pointText_valueToString {d : Double} (h : PointText (sprintf d)) : PointText d.valueToString := by
  unfold Double.valueToString
  simp only
  split
  · exact h
  · split
    · next hpoint =>
      refine h.take ?_
      have hmem := (List.rdropWhile_prefix _ _).subset (List.mem_of_getLast? hpoint)
      exact (List.take_subset_take_left _ (Nat.le_succ _)) hmem
    · exact h

theorem Double.denotes_valueToString {d : Double} (h : d.Valid) : Denotes d.valueToString (.real d.reread) :=
  have ht := Double.pointText_valueToString (pointText_sprintf h)
  .number ht.numberText ht.decodeNumber_eq

/-! ### Integers -/

theorem decodeDigits_append (threshold value : Nat) (ds rest : Bytes) :
    decodeDigits threshold value (ds ++ rest) =
      match decodeDigits threshold value ds with
      | some (some n) => decodeDigits threshold n rest
      | r => r := by
  induction ds generalizing value with
  | nil => rfl
  | cons d ds ih =>
    rw [List.cons_append, decodeDigits, decodeDigits, ih]
    split
    · rfl
    · split <;> rfl

theorem uintToString_of_ge {n : Nat} (h : 10 ≤ n) :
    uintToString n = uintToString (n / 10) ++ [digitByte (n % 10)] := by
  have h₁ : n ≠ 0 := by omega
  have h₂ : n / 10 ≠ 0 := by omega
  rw [uintToString, uintToString, if_neg h₁, if_neg h₂, Nat.digits_of_two_le_of_pos (by decide) (by omega),
    List.reverse_cons, List.map_append]
  rfl

theorem uintToString_of_lt {n : Nat} (h : n < 10) : uintToString n = [digitByte n] := by
  have hall : ∀ n : Fin 10, uintToString n.val = [digitByte n.val] := by decide
  exact hall ⟨n, h⟩

theorem not_digitByte {d : Nat} (h : d < 10) : ¬(digitByte d < 48 ∨ 57 < digitByte d) := by
  have hall : ∀ d : Fin 10, ¬(digitByte d.val < 48 ∨ 57 < digitByte d.val) := by decide
  exact hall ⟨d, h⟩

theorem decodeDigits_digit {threshold value d : Nat} (hd : d < 10) :
    decodeDigits threshold value [digitByte d] =
      if threshold ≤ value then none else some (some (value * 10 + d)) := by
  rw [decodeDigits, if_neg (not_digitByte hd), toNat_digitByte hd]
  rfl

/-- The digits of a number are read as that number unless those before the last one reach the
threshold. -/
theorem decodeDigits_uintToString {threshold : Nat} (hpos : 0 < threshold) (n : Nat) :
    decodeDigits threshold 0 (uintToString n) = if threshold ≤ n / 10 then none else some (some n) := by
  induction n using Nat.strong_induction_on with
  | h n ih =>
    by_cases hn : n < 10
    · rw [uintToString_of_lt hn, decodeDigits_digit hn, if_neg (by omega), if_neg (by omega), Nat.zero_mul, Nat.zero_add]
    · rw [uintToString_of_ge (by omega), decodeDigits_append, ih (n / 10) (by omega)]
      by_cases hle : threshold ≤ n / 10 / 10
      · rw [if_pos hle, if_pos (by omega)]
      · rw [if_neg hle]
        simp only
        rw [decodeDigits_digit (Nat.mod_lt _ (by decide))]
        split
        · rfl
        · congr 2
          omega

def signed (neg : Bool) (n : Nat) : Bytes := if neg then 45 :: uintToString n else uintToString n

theorem head_uintToString_digit (n : Nat) : ∃ d ds, uintToString n = d :: ds ∧ isDigit d = true := by
  obtain ⟨d, ds, hd, h⟩ := head_uintToString n
  exact ⟨_, ds, h, isDigit_digitByte hd⟩

theorem numberText_signed (neg : Bool) (n : Nat) : NumberText (signed neg n) := by
  obtain ⟨d, ds, hcons, hd⟩ := head_uintToString_digit n
  have hchars : ∀ c ∈ uintToString n, isNumberChar c = true := fun c hc =>
    isNumberChar_of_isDigit (isDigit_uintToString n c hc)
  cases neg with
  | false => exact ⟨⟨d, by rw [signed, if_neg (by decide), hcons]; rfl, .inl hd⟩, hchars⟩
  | true =>
    refine ⟨⟨45, rfl, .inr rfl⟩, fun c hc => ?_⟩
    rcases List.mem_cons.1 hc with rfl | hc
    · decide
    · exact hchars c hc

theorem sscanf_signed (neg : Bool) (n : Nat) : sscanf (signed neg n) = some (roundDouble neg n 1) := by
  obtain ⟨d, ds, hcons, hd⟩ := head_uintToString_digit n
  have h45 : d ≠ 45 := by rintro rfl; exact absurd hd (by decide)
  have h43 : d ≠ 43 := by rintro rfl; exact absurd hd (by decide)
  have hvalue := takeDigits_uintToString n
  have hend : ∀ c ∈ ([] : Bytes).head?, isDigit c = false := fun c hc => by cases hc
  obtain ⟨m, hm⟩ := takeDigits_append (isDigit_uintToString n) hend 0 0
  rw [List.append_nil] at hm
  have hlen : (uintToString n).length ≠ 0 := by rw [hcons]; simp
  obtain rfl : m = n := by rw [hm] at hvalue; exact hvalue
  unfold sscanf signed
  cases neg with
  | false =>
    rw [hcons] at hm
    simp [hcons, h45, h43, hm, scanExponent]
  | true =>
    simp only [ite_true, hm]
    simp [hlen, scanExponent]

theorem decodeDouble_signed (neg : Bool) {n : Nat} (h : n < 10 ^ 20) :
    decodeDouble (signed neg n) = .ok (some (.real (roundDouble neg n 1))) := by
  have hlen := length_uintToString (k := 20) (by decide) h
  have hne : (signed neg n).length ≠ bufferSize := by
    unfold signed bufferSize
    cases neg
    · simp only [Bool.false_eq_true, ite_false]
      omega
    · simp only [ite_true, List.length_cons]
      omega
  rw [decodeDouble, if_neg hne, sscanf_signed]
  rfl

theorem not_isDouble (n : Nat) :
    (uintToString n).any (fun c => c == 46 || c == 101 || c == 69 || c == 43) = false ∧
      (uintToString n).any (· == 45) = false := by
  constructor
  · rw [List.any_eq_false]
    intro c hc
    have hd := isDigit_uintToString n c hc
    simp only [Bool.or_eq_true, beq_iff_eq]
    rintro (((rfl | rfl) | rfl) | rfl) <;> exact absurd hd (by decide)
  · rw [List.any_eq_false]
    intro c hc
    have hd := isDigit_uintToString n c hc
    simp only [beq_iff_eq]
    rintro rfl
    exact absurd hd (by decide)

theorem decodeNumber_negative {n : Nat} (h : n < 10 ^ 20) :
    decodeNumber (signed true n) =
      .ok (some (if 2147483640 ≤ n then .real (roundDouble true n 1) else .int (Int32.ofInt (-(n : Int))))) := by
  obtain ⟨h₁, h₂⟩ := not_isDouble n
  have hdouble := decodeDouble_signed true h
  unfold signed at hdouble ⊢
  simp only [ite_true] at hdouble ⊢
  have hdigits := decodeDigits_uintToString (show 0 < 2 ^ 31 / 10 by decide) n
  unfold decodeNumber
  simp only [List.any_cons, h₁, List.tail_cons, h₂, List.head?_cons, ite_true, hdigits]
  by_cases hle : 2147483640 ≤ n
  · rw [if_pos (show 2 ^ 31 / 10 ≤ n / 10 by omega), if_pos hle, hdouble]
    rfl
  · rw [if_neg (show ¬ 2 ^ 31 / 10 ≤ n / 10 by omega), if_neg hle]
    rfl

theorem decodeNumber_positive {n : Nat} (h : n < 10 ^ 20) :
    decodeNumber (signed false n) =
      .ok (some (if 4294967290 ≤ n then .real (roundDouble false n 1)
        else if n ≤ 2 ^ 31 - 1 then .int (Int32.ofNat n) else .uint (UInt32.ofNat n))) := by
  obtain ⟨h₁, h₂⟩ := not_isDouble n
  obtain ⟨d, ds, hcons, hd⟩ := head_uintToString_digit n
  have hdouble := decodeDouble_signed false h
  unfold signed at hdouble ⊢
  simp only [Bool.false_eq_true, ite_false] at hdouble ⊢
  have hdigits := decodeDigits_uintToString (show 0 < (2 ^ 32 - 1) / 10 by decide) n
  have htail : (uintToString n).tail.any (· == 45) = false := by
    rw [List.any_eq_false] at h₂ ⊢
    exact fun c hc => h₂ c (List.mem_of_mem_tail hc)
  have hhead : (uintToString n).head? ≠ some 45 := by
    rw [hcons]
    rintro ⟨⟩
    exact absurd hd (by decide)
  unfold decodeNumber
  simp only [h₁, htail, hhead, Bool.or_self, Bool.false_eq_true, ite_false, hdigits]
  by_cases hle : 4294967290 ≤ n
  · rw [if_pos (show (2 ^ 32 - 1) / 10 ≤ n / 10 by omega), if_pos hle, hdouble]
  · rw [if_neg (show ¬ (2 ^ 32 - 1) / 10 ≤ n / 10 by omega), if_neg hle]
    simp only
    split <;> rfl

theorem intToString_eq (i : Int) : intToString i = signed (decide (i < 0)) i.natAbs := by
  rw [intToString, signed]
  by_cases h : i < 0 <;> simp [h]

/-- What an `int` is read as. -/
def rereadInt (i : Int32) : Value :=
  if i.toInt ≤ -2147483640 then .real (roundDouble true i.toInt.natAbs 1) else .int i

def rereadUInt (u : UInt32) : Value :=
  if 4294967290 ≤ u.toNat then .real (roundDouble false u.toNat 1)
  else if u.toNat ≤ 2 ^ 31 - 1 then .int (Int32.ofNat u.toNat) else .uint u

theorem denotes_intToString (i : Int32) : Denotes (intToString i.toInt) (rereadInt i) := by
  have hlo := Int32.le_toInt i
  have hhi := Int32.toInt_lt i
  rw [intToString_eq]
  refine .number (numberText_signed _ _) ?_
  by_cases hneg : i.toInt < 0
  · have hn : -(i.toInt.natAbs : Int) = i.toInt := by omega
    rw [decide_eq_true hneg, decodeNumber_negative (by omega), hn, Int32.ofInt_toInt, rereadInt]
    by_cases hle : i.toInt ≤ -2147483640
    · rw [if_pos hle, if_pos (by omega)]
    · rw [if_neg hle, if_neg (by omega)]
  · have hn : Int32.ofNat i.toInt.natAbs = i := by
      rw [← Int32.ofInt_eq_ofNat, show (i.toInt.natAbs : Int) = i.toInt by omega, Int32.ofInt_toInt]
    rw [decide_eq_false hneg, decodeNumber_positive (by omega), if_neg (by omega), if_pos (by omega), hn, rereadInt,
      if_neg (by omega)]

theorem denotes_uintToString (u : UInt32) : Denotes (uintToString u.toNat) (rereadUInt u) := by
  have hlt := u.toNat_lt
  refine .number (numberText_signed false _) ?_
  rw [show uintToString u.toNat = signed false u.toNat from rfl, decodeNumber_positive (by omega), UInt32.ofNat_toNat,
    rereadUInt]

/-- As an `int` it reads the same. -/
theorem asInt_rereadInt (i : Int32) : (rereadInt i).asInt = .ok i := by
  unfold rereadInt
  split
  · next h =>
    have hlo := Int32.le_toInt i
    obtain ⟨k, hk⟩ : ∃ k : Fin 9, i.toInt = -2147483648 + k.val := ⟨⟨(i.toInt + 2147483648).toNat, by omega⟩, by simp; omega⟩
    have hall : ∀ k : Fin 9, (Value.real (roundDouble true (-2147483648 + (k.val : Int)).natAbs 1)).asInt =
        .ok (Int32.ofInt (-2147483648 + (k.val : Int))) := by decide +kernel
    rw [hk, hall k, ← hk, Int32.ofInt_toInt]
  · rfl

/-! ### Strings -/

theorem isSpecial_cases {c : UInt8} (h : isSpecial c = false) : c ≠ 34 ∧ c ≠ 92 ∧ escapeChar c = [c] := by
  simp only [isSpecial, Bool.or_eq_false_iff, beq_eq_false_iff_ne] at h
  obtain ⟨⟨⟨⟨⟨⟨⟨h₁, h₂⟩, h₃⟩, h₄⟩, h₅⟩, h₆⟩, h₇⟩, h₈⟩ := h
  refine ⟨h₁, h₂, ?_⟩
  simp [escapeChar, h₁, h₂, h₃, h₄, h₅, h₆, h₇, h₈]

theorem valueToQuotedString_eq (s : Bytes) :
    valueToQuotedString s = 34 :: ((cTrunc s).flatMap escapeChar ++ [34]) := by
  unfold valueToQuotedString
  simp only
  split
  · rfl
  · next h =>
    have hplain : ∀ c ∈ cTrunc s, escapeChar c = [c] := fun c hc =>
      (isSpecial_cases (by simpa using List.any_eq_false.1 (Bool.not_eq_true _ ▸ h) c hc)).2.2
    rw [List.flatMap_congr hplain, List.flatMap_singleton']
    rfl

theorem zero_notMem_cTrunc (s : Bytes) : 0 ∉ cTrunc s := by
  intro h
  simpa using List.mem_takeWhile_imp h

/-- The three ways a character is written, each with what it takes to read it. -/
inductive EscapesTo (c : UInt8) : Bytes → Prop
  | plain : c ≠ 34 → c ≠ 92 → EscapesTo c [c]
  | short {escape : UInt8} : escape ≠ 117 → decodeEscape escape = some c → EscapesTo c [92, escape]
  | unicode {hi lo : UInt8} : c.toNat ≤ 0x7F → hexDigit hi = some (c.toNat / 16) → hexDigit lo = some (c.toNat % 16) →
      EscapesTo c [92, 117, 48, 48, hi, lo]

theorem hexDigit_hexUpper {d : Nat} (h : d < 16) : hexDigit (hexUpper d) = some d := by
  have hall : ∀ d : Fin 16, hexDigit (hexUpper d.val) = some d.val := by decide
  exact hall ⟨d, h⟩

theorem escapesTo_escapeChar (c : UInt8) : EscapesTo c (escapeChar c) := by
  unfold escapeChar
  split
  · next h => exact .short (by decide) (by rw [h]; rfl)
  split
  · next h => exact .short (by decide) (by rw [h]; rfl)
  split
  · next h => exact .short (by decide) (by rw [h]; rfl)
  split
  · next h => exact .short (by decide) (by rw [h]; rfl)
  split
  · next h => exact .short (by decide) (by rw [h]; rfl)
  split
  · next h => exact .short (by decide) (by rw [h]; rfl)
  split
  · next h => exact .short (by decide) (by rw [h]; rfl)
  split
  · next h =>
    simp only [isControlCharacter, Bool.and_eq_true, decide_eq_true_eq, UInt8.le_iff_toNat_le] at h
    have hle : c.toNat ≤ 31 := h.2
    exact .unicode (by omega) (hexDigit_hexUpper (by omega)) (hexDigit_hexUpper (by omega))
  · next h₁ h₂ _ _ _ _ _ _ => exact .plain h₁ h₂

theorem readString_plain {c : UInt8} (h₁ : c ≠ 34) (h₂ : c ≠ 92) (rest : Bytes) :
    readString (c :: rest) = readString rest := by
  rw [readString.eq_def]
  simp [h₁, h₂]

theorem readString_escape (c : UInt8) (rest : Bytes) : readString (92 :: c :: rest) = readString rest := by
  simp [readString]

theorem EscapesTo.length_pos {c : UInt8} {t : Bytes} (h : EscapesTo c t) : 0 < t.length := by
  cases h <;> simp

theorem EscapesTo.readString {c : UInt8} {t : Bytes} (h : EscapesTo c t) (rest : Bytes) :
    readString (t ++ rest) = readString rest := by
  cases h with
  | plain h₁ h₂ => exact readString_plain h₁ h₂ rest
  | @short escape _ _ => exact readString_escape escape rest
  | @unicode hi lo _ hhi hlo =>
    have hplain : ∀ {x : UInt8} {d : Nat}, hexDigit x = some d → x ≠ 34 ∧ x ≠ 92 := by
      intro x d hx
      constructor <;> (rintro rfl; cases hx)
    obtain ⟨h₁, h₂⟩ := hplain hhi
    obtain ⟨h₃, h₄⟩ := hplain hlo
    calc Json.readString (92 :: 117 :: 48 :: 48 :: hi :: lo :: rest)
      _ = Json.readString (48 :: 48 :: hi :: lo :: rest) := readString_escape 117 _
      _ = Json.readString (48 :: hi :: lo :: rest) := readString_plain (by decide) (by decide) _
      _ = Json.readString (hi :: lo :: rest) := readString_plain (by decide) (by decide) _
      _ = Json.readString (lo :: rest) := readString_plain h₁ h₂ _
      _ = Json.readString rest := readString_plain h₃ h₄ _

theorem EscapesTo.decodeChars {c : UInt8} {t : Bytes} (h : EscapesTo c t) (fuel : Nat) (cs : Bytes) :
    decodeChars (fuel + 1) (t ++ cs) = (decodeChars fuel cs).map (c :: ·) := by
  cases h with
  | plain h₁ h₂ =>
    rw [List.singleton_append, Json.decodeChars.eq_def]
    simp only [if_neg h₁, if_neg h₂]
    cases Json.decodeChars fuel cs <;> rfl
  | @short escape h₁ h₂ =>
    show Json.decodeChars (fuel + 1) (92 :: escape :: cs) = _
    rw [Json.decodeChars.eq_def]
    simp only [h₂]
    cases Json.decodeChars fuel cs <;> rfl
  | @unicode hi lo hc hhi hlo =>
    show Json.decodeChars (fuel + 1) (92 :: 117 :: 48 :: 48 :: hi :: lo :: cs) = _
    have hvalue : decodeUnicodeEscapeSequence (48 :: 48 :: hi :: lo :: cs) = some (c.toNat, cs) := by
      rw [decodeUnicodeEscapeSequence, show hexDigit 48 = some 0 from rfl, hhi, hlo]
      simp only [Option.bind_eq_bind, Option.bind_some, Option.pure_def]
      congr 2
      omega
    have hpoint : decodeUnicodeCodePoint (48 :: 48 :: hi :: lo :: cs) = some (c.toNat, cs) := by
      rw [decodeUnicodeCodePoint, hvalue]
      simp only [Option.bind_eq_bind, Option.bind_some]
      rw [if_neg (by omega)]
      rfl
    have hutf : codePointToUTF8 c.toNat = [c] := by rw [codePointToUTF8, if_pos hc, UInt8.ofNat_toNat]
    rw [Json.decodeChars.eq_def]
    simp only [hpoint, Option.bind_eq_bind, Option.bind_some, hutf]
    cases Json.decodeChars fuel cs <;> rfl

theorem quotedText_valueToQuotedString (s : Bytes) : QuotedText (valueToQuotedString s) := by
  refine ⟨_, valueToQuotedString_eq s, fun rest => ?_⟩
  generalize cTrunc s = s
  induction s with
  | nil =>
    rw [List.flatMap_nil, List.nil_append, List.singleton_append, readString.eq_def]
    simp
  | cons c s ih =>
    rw [List.flatMap_cons, List.append_assoc, List.append_assoc, (escapesTo_escapeChar c).readString,
      ← List.append_assoc, ih]

theorem decodeChars_flatMap (s : Bytes) {fuel : Nat} (h : s.length ≤ fuel) :
    decodeChars fuel (s.flatMap escapeChar) = some s := by
  induction s generalizing fuel with
  | nil => cases fuel <;> rfl
  | cons c s ih =>
    obtain ⟨fuel, rfl⟩ : ∃ n, fuel = n + 1 := Nat.exists_eq_succ_of_ne_zero (by simp at h; omega)
    rw [List.flatMap_cons, (escapesTo_escapeChar c).decodeChars, ih (by simpa using h)]
    rfl

theorem decodeString_valueToQuotedString (s : Bytes) : decodeString (valueToQuotedString s) = some (cTrunc s) := by
  have hlen : ∀ t : Bytes, t.length ≤ (t.flatMap escapeChar).length := by
    intro t
    induction t with
    | nil => exact Nat.le_refl _
    | cons c t ih =>
      have hpos := (escapesTo_escapeChar c).length_pos
      rw [List.flatMap_cons, List.length_append, List.length_cons]
      omega
  have := hlen (cTrunc s)
  rw [decodeString, valueToQuotedString_eq, List.tail_cons, List.dropLast_concat]
  refine decodeChars_flatMap _ ?_
  simp only [List.length_cons, List.length_append]
  omega

theorem denotes_valueToQuotedString (s : Bytes) : Denotes (valueToQuotedString s) (.string (cTrunc s)) :=
  .string (quotedText_valueToQuotedString s) (decodeString_valueToQuotedString s)

end IMServer.Json
