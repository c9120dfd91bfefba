import IMServer.Basic
import Mathlib.Data.Nat.Digits.Lemmas

/-!
# Numbers in decimal

What an `int` looks like in a SQL statement, a result set or a JSON text, and `atoi`.
-/

namespace IMServer

def isDigit (c : UInt8) : Bool := 48 ≤ c && c ≤ 57

/-- The digits in front, as a number and how many there were, and what follows them. -/
def takeDigits (acc count : Nat) : Bytes → Nat × Nat × Bytes
  | [] => (acc, count, [])
  | c :: cs => if isDigit c then takeDigits (acc * 10 + (c.toNat - 48)) (count + 1) cs else (acc, count, c :: cs)

def digitByte (d : Nat) : UInt8 := UInt8.ofNat (48 + d)

def uintToString (n : Nat) : Bytes :=
  if n = 0 then [48] else (Nat.digits 10 n).reverse.map digitByte

def intToString (i : Int) : Bytes :=
  if i < 0 then 45 :: uintToString i.natAbs else uintToString i.natAbs

def isSpace (c : UInt8) : Bool := c == 32 || (9 ≤ c && c ≤ 13)

/-- `atoi`: `strtol`, which stops at the ends of `long`, converted to `int`. -/
def atoi (s : Bytes) : Int32 :=
  let (neg, cs) := match s.dropWhile isSpace with
    | 45 :: cs => (true, cs)
    | 43 :: cs => (false, cs)
    | cs => (false, cs)
  let n := (takeDigits 0 0 cs).1
  Int32.ofInt (if neg then max (-(n : Int)) (-2 ^ 63) else min (n : Int) (2 ^ 63 - 1))

theorem isDigit_digitByte {d : Nat} (h : d < 10) : isDigit (digitByte d) = true := by
  have : ∀ d : Fin 10, isDigit (digitByte d.val) = true := by decide
  exact this ⟨d, h⟩

theorem toNat_digitByte {d : Nat} (h : d < 10) : (digitByte d).toNat - 48 = d := by
  have : ∀ d : Fin 10, (digitByte d.val).toNat - 48 = d.val := by decide
  exact this ⟨d, h⟩

theorem takeDigits_digits {ds : List Nat} (hds : ∀ d ∈ ds, d < 10) (acc count : Nat) :
    takeDigits acc count (ds.map digitByte) =
      (ds.foldl (fun a d => a * 10 + d) acc, count + ds.length, []) := by
  induction ds generalizing acc count with
  | nil => rfl
  | cons d ds ih =>
    have hd : d < 10 := hds d (List.mem_cons_self ..)
    rw [List.map_cons, takeDigits, if_pos (isDigit_digitByte hd), toNat_digitByte hd,
      ih (fun x hx => hds x (List.mem_cons_of_mem _ hx)), List.foldl_cons, List.length_cons]
    congr 2
    omega

theorem takeDigits_uintToString (n : Nat) : (takeDigits 0 0 (uintToString n)).1 = n := by
  unfold uintToString
  split
  · next h => subst h; rfl
  · have hlt : ∀ d ∈ (Nat.digits 10 n).reverse, d < 10 := fun d hd =>
      Nat.digits_lt_base (by omega) (List.mem_reverse.1 hd)
    rw [takeDigits_digits hlt, List.foldl_reverse]
    have hfold : (fun d a => a * 10 + d) = fun (d a : Nat) => d + 10 * a := by
      funext d a; omega
    rw [hfold]
    have := Nat.ofDigits_eq_foldr 10 (Nat.digits 10 n)
    rw [Nat.ofDigits_digits] at this
    simpa using this.symm

theorem head_uintToString (n : Nat) : ∃ d cs, d < 10 ∧ uintToString n = digitByte d :: cs := by
  unfold uintToString
  split
  · exact ⟨0, [], by omega, rfl⟩
  · next h =>
    have hne : (Nat.digits 10 n).reverse ≠ [] := by simpa [Nat.digits_eq_nil_iff_eq_zero] using h
    obtain ⟨d, ds, hd⟩ := List.exists_cons_of_ne_nil hne
    have hmem : d ∈ (Nat.digits 10 n).reverse := hd ▸ List.mem_cons_self ..
    exact ⟨d, ds.map digitByte, Nat.digits_lt_base (by omega) (List.mem_reverse.1 hmem), by rw [hd]; rfl⟩

theorem atoi_intToString (i : Int32) : atoi (intToString i.toInt) = i := by
  have hlo := Int32.le_toInt i
  have hhi := Int32.toInt_lt i
  have hdig := takeDigits_uintToString i.toInt.natAbs
  by_cases hneg : i.toInt < 0
  · have hn : -(i.toInt.natAbs : Int) = i.toInt := by omega
    have hs : (45 :: uintToString i.toInt.natAbs).dropWhile isSpace = 45 :: uintToString i.toInt.natAbs := by
      rw [List.dropWhile_cons_of_neg (by decide)]
    rw [intToString, if_pos hneg, atoi, hs]
    simp only [hdig, ite_true]
    rw [hn, max_eq_left (by omega), Int32.ofInt_toInt]
  · obtain ⟨d, cs, hd, hcons⟩ := head_uintToString i.toInt.natAbs
    have hsp : ∀ d : Fin 10, isSpace (digitByte d.val) = false ∧ digitByte d.val ≠ 45 ∧ digitByte d.val ≠ 43 := by
      decide
    obtain ⟨h₁, h₂, h₃⟩ := hsp ⟨d, hd⟩
    simp only at h₁ h₂ h₃
    have hn : (i.toInt.natAbs : Int) = i.toInt := by omega
    rw [intToString, if_neg hneg, atoi, hcons, List.dropWhile_cons_of_neg (by simp [h₁])]
    rw [hcons] at hdig
    split
    next neg cs' heq =>
      split at heq
      · next h => exact absurd (List.cons.inj h).1 h₂
      · next h => exact absurd (List.cons.inj h).1 h₃
      · cases heq
        simp only [hdig, hn, Bool.false_eq_true, ite_false]
        rw [min_eq_left (by omega), Int32.ofInt_toInt]

def InInt32 (i : Int) : Prop := -2 ^ 31 ≤ i ∧ i < 2 ^ 31

theorem atoi_intToString_eq {i : Int} (h : InInt32 i) {j : Int32} : atoi (intToString i) = j ↔ i = j.toInt := by
  have hi : (Int32.ofInt i).toInt = i := Int32.toInt_ofInt_of_le h.1 h.2
  have hatoi := atoi_intToString (Int32.ofInt i)
  rw [hi] at hatoi
  rw [hatoi]
  constructor
  · rintro rfl
    exact hi.symm
  · rintro rfl
    exact Int32.ofInt_toInt j

end IMServer
