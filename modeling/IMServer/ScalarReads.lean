import IMServer.Bounds

/-!
# Scalars read one after the other

`readData<T>` should store the bytes at the cursor, which on this machine is their little-endian
value. It stores the bytes from two behind the cursor on, in reverse, so what it stores is right
exactly where the scalar and the two bytes behind it read the same backwards. In a message of
`2 ^ 31` bytes and more the `int` cursor need not be where the reads have come to.
-/

namespace IMServer
open Endian

namespace BinaryReader

/-- Reads of these widths, the first of them at `pos`, decode the bytes there while there are enough,
each from where the one before ended, and look at no byte behind the message. -/
def Decodes : BinaryReader → Nat → List Nat → Prop
  | _, _, [] => True
  | r, pos, w :: ws =>
    (∀ a ∈ (r.readDataTraced w).log, a.Within r.msg.length) ∧
      if pos + w ≤ r.msg.length then
        ∃ data r', r.readData w = .ok (some (data, r')) ∧ ofLE data = ofLE ((r.msg.drop pos).take w) ∧
          Decodes r' (pos + w) ws
      else r.readData w = .ok none ∧ Decodes r pos ws

/-- `_index + sizeof(T)` as the check has it, the cursor being the `int` for `pos`. -/
def checked (pos w : Nat) : Nat := (toSize (Int32.ofNat pos) + w) % 2 ^ 64

/-- What is stored for the bytes at `pos` are these bytes. -/
structure Mirrors (msg : Bytes) (pos w : Nat) : Prop where
  checked : checked pos w ≤ msg.length
  start : -2 ≤ (Int32.ofNat pos).toInt
  stop : (Int32.ofNat pos).toInt + w + 2 ≤ msg.length
  bytes : ((msg.drop ((Int32.ofNat pos).toInt + 2).toNat).take w).reverse = (msg.drop pos).take w

def Mirrored (msg : Bytes) : Nat → List Nat → Prop
  | _, [] => True
  | pos, w :: ws =>
    if pos + w ≤ msg.length then Mirrors msg pos w ∧ Mirrored msg (pos + w) ws
    else msg.length < checked pos w ∧ Mirrored msg pos ws

/-- Whenever there are enough bytes, two more follow, and all of these are a palindrome. -/
def Palindromes (msg : Bytes) : Nat → List Nat → Prop
  | _, [] => True
  | pos, w :: ws =>
    if pos + w ≤ msg.length then
      pos + w + 2 ≤ msg.length ∧ ((msg.drop pos).take (w + 2)).reverse = (msg.drop pos).take (w + 2) ∧
        Palindromes msg (pos + w) ws
    else Palindromes msg pos ws

/-- A list that begins as its reverse does is a palindrome, if only two elements are left open. -/
theorem reverse_drop_two {w : Nat} (hw : 0 < w) {l : Bytes} (hl : l.length = w + 2) :
    (l.drop 2).reverse = l.take w ↔ l.reverse = l := by
  have hdrop : (l.drop 2).reverse = l.reverse.take w := by
    rw [List.reverse_drop, List.take_eq_take_iff]
    simp [hl]
  rw [hdrop]
  constructor
  · intro h
    have hget : ∀ i (hi : i < w), l[w + 1 - i]? = l[i]? := by
      intro i hi
      have := congrArg (·[i]?) h
      simp only [List.getElem?_take_of_lt hi] at this
      rw [List.getElem?_reverse (by omega), hl] at this
      exact this
    refine List.ext_getElem? fun i => ?_
    rcases Nat.lt_or_ge i (w + 2) with hi | hi
    · rw [List.getElem?_reverse (by omega), hl]
      show l[w + 1 - i]? = l[i]?
      by_cases hiw : i < w
      · exact hget i hiw
      by_cases hmid : w + 1 - i < w
      · have := hget (w + 1 - i) hmid
        rw [show w + 1 - (w + 1 - i) = i by omega] at this
        exact this.symm
      · -- one scalar byte, and its neighbour in the middle
        rw [show w + 1 - i = i by omega]
    · rw [List.getElem?_eq_none (by simp [hl, hi]), List.getElem?_eq_none (by omega)]
  · intro h
    rw [h]

variable {r : BinaryReader} {pos w : Nat} {ws : List Nat}

/-- One read: refused, past the end, or from two bytes late. -/
theorem readData_cases (hpos : r.index.toInt = pos) (hw : 0 < w) (hsize : pos + w < 2 ^ 64) :
    (r.msg.length < pos + w ∧ (r.readDataTraced w).log = [] ∧ r.readData w = .ok none) ∨
    (pos + w ≤ r.msg.length ∧ r.msg.length < pos + w + 2 ∧
      ¬ ∀ a ∈ (r.readDataTraced w).log, a.Within r.msg.length) ∨
    (pos + w + 2 ≤ r.msg.length ∧
      (∀ a ∈ (r.readDataTraced w).log, ∃ off : Nat, a = .read off ∧ pos + 2 ≤ off ∧ off < pos + w + 2) ∧
      r.readData w =
        .ok (some (((r.msg.drop (pos + 2)).take w).reverse, { r with index := r.index + Int32.ofNat w }))) := by
  rcases Nat.lt_or_ge r.msg.length (pos + w) with h | h
  · have hnone := readDataTraced_short hpos hsize h
    refine .inl ⟨h, by rw [hnone]; rfl, ?_⟩
    rw [← result_readDataTraced, hnone]
    rfl
  rcases Nat.lt_or_ge r.msg.length (pos + w + 2) with h' | h'
  · exact .inr (.inl ⟨h, h', not_logs_readDataTraced hpos hsize hw h h'⟩)
  · obtain ⟨hlog, hres⟩ := readDataTraced_late hpos hsize h'
    rw [result_readDataTraced] at hres
    exact .inr (.inr ⟨h', hlog, hres⟩)

/-- The same wherever the cursor stands: refused, from two bytes late, or astray. -/
theorem readData_any (r : BinaryReader) (hw : 0 < w) :
    (r.msg.length < (toSize r.index + w) % 2 ^ 64 ∧ (r.readDataTraced w).log = [] ∧ r.readData w = .ok none) ∨
    ((toSize r.index + w) % 2 ^ 64 ≤ r.msg.length ∧ -2 ≤ r.index.toInt ∧ r.index.toInt + w + 2 ≤ r.msg.length ∧
      (∀ a ∈ (r.readDataTraced w).log, a.Within r.msg.length) ∧
      r.readData w = .ok (some (((r.msg.drop (r.index.toInt + 2).toNat).take w).reverse,
        { r with index := r.index + Int32.ofNat w }))) ∨
    ((toSize r.index + w) % 2 ^ 64 ≤ r.msg.length ∧ ¬ (-2 ≤ r.index.toInt ∧ r.index.toInt + w + 2 ≤ r.msg.length) ∧
      ¬ ((∀ a ∈ (r.readDataTraced w).log, a.Within r.msg.length) ∧ ∃ p, r.readData w = .ok (some p))) := by
  rcases Nat.lt_or_ge r.msg.length ((toSize r.index + w) % 2 ^ 64) with h | h
  · have hnone : r.readDataTraced w = pure none := by rw [readDataTraced, if_pos h]
    refine .inl ⟨h, by rw [hnone]; rfl, ?_⟩
    rw [← result_readDataTraced, hnone]
    rfl
  by_cases hrange : -2 ≤ r.index.toInt ∧ r.index.toInt + w + 2 ≤ r.msg.length
  · obtain ⟨hlog, hres⟩ := readDataTraced_from rfl h hrange.1 hrange.2
    rw [result_readDataTraced] at hres
    refine .inr (.inl ⟨h, hrange.1, hrange.2, fun a ha => ?_, hres⟩)
    obtain ⟨off, rfl, -, hoff⟩ := hlog a ha
    exact ⟨by omega, by omega⟩
  · refine .inr (.inr ⟨h, hrange, ?_⟩)
    rintro ⟨hlog, ⟨data, r'⟩, hread⟩
    -- the first access is the furthest, the last one the nearest
    have hfirst := (first_readDataTraced hlog h hw).2
    rw [readData, if_neg (Nat.not_lt.2 h)] at hread
    obtain ⟨bs, hbs, -⟩ := Except.bind_eq_ok.1 hread
    have hlast := ((mapM_cStr_ok hbs).1 (w - 1) (List.mem_range.2 (by omega))).1
    omega

theorem decodes_iff_mirrored (hpos : r.index = Int32.ofNat pos) (hws : ∀ w ∈ ws, 0 < w) :
    r.Decodes pos ws ↔ Mirrored r.msg pos ws := by
  induction ws generalizing r pos with
  | nil => exact Iff.rfl
  | cons w ws ih =>
    obtain ⟨hw, hws⟩ := List.forall_mem_cons.1 hws
    have hchecked : (toSize r.index + w) % 2 ^ 64 = checked pos w := by rw [hpos]; rfl
    unfold Decodes Mirrored
    rcases readData_any r hw with ⟨hlt, hlog, hread⟩ | ⟨hle, hstart, hstop, hlog, hread⟩ | ⟨hle, hrange, hnot⟩
    · have hnil : ∀ a ∈ (r.readDataTraced w).log, a.Within r.msg.length := by rw [hlog]; exact nofun
      rw [hchecked] at hlt
      split
      · refine iff_of_false ?_ fun h => absurd h.1.checked (Nat.not_le.2 hlt)
        rintro ⟨-, data, r', hsome, -⟩
        cases hread.symm.trans hsome
      · rw [ih hpos hws]
        exact ⟨fun h => ⟨hlt, h.2.2⟩, fun h => ⟨hnil, hread, h.2⟩⟩
    · rw [hchecked] at hle
      split
      · next henough =>
        have hnext : Decodes { r with index := r.index + Int32.ofNat w } (pos + w) ws ↔
            Mirrored r.msg (pos + w) ws := ih (by rw [hpos, Int32.ofNat_add]) hws
        constructor
        · rintro ⟨-, data, r', hsome, hvalue, h⟩
          obtain ⟨rfl, rfl⟩ := Prod.mk.inj (Option.some.inj (Except.ok_unique hread hsome))
          rw [hpos] at hstart hstop hvalue
          refine ⟨⟨hle, hstart, hstop, ofLE_inj ?_ hvalue⟩, hnext.1 h⟩
          simp only [List.length_reverse, List.length_take, List.length_drop]
          omega
        · rintro ⟨hmirrors, h⟩
          refine ⟨hlog, _, _, hread, ?_, hnext.2 h⟩
          rw [hpos, hmirrors.bytes]
      · refine iff_of_false ?_ fun h => absurd h.1 (Nat.not_lt.2 hle)
        rintro ⟨-, hnone, -⟩
        cases hread.symm.trans hnone
    · rw [hchecked] at hle
      rw [hpos] at hrange
      split
      · refine iff_of_false ?_ fun h => hrange ⟨h.1.start, h.1.stop⟩
        rintro ⟨hlog, data, r', hsome, -⟩
        exact hnot ⟨hlog, _, hsome⟩
      · refine iff_of_false ?_ fun h => absurd h.1 (Nat.not_lt.2 hle)
        rintro ⟨-, hnone, -⟩
        rw [readData, hchecked, if_neg (Nat.not_lt.2 hle)] at hnone
        obtain ⟨bs, -, hsome⟩ := Except.bind_eq_ok.1 hnone
        cases hsome

theorem index_eq {i : Int32} {k : Nat} (hk : i.toInt = k) : i = Int32.ofNat k := by
  have := Int32.toInt_lt i
  exact Int32.toInt_inj.1 (by rw [hk, Int32.toInt_ofNat_of_lt (by omega)])

theorem toInt_index_add {i : Int32} {k : Nat} (hk : i.toInt = k) (hkw : k + w < 2 ^ 31) :
    (i + Int32.ofNat w).toInt = ((k + w : Nat) : Int) := by
  rw [Int32.toInt_add, hk, Int32.toInt_ofNat_of_lt (by omega), Int.bmod_eq_of_le (by omega) (by omega)]
  push_cast
  rfl

theorem checked_eq (hpos : pos < 2 ^ 31) (hw : w < 2 ^ 63) : checked pos w = pos + w := by
  have hint := Int32.toInt_ofNat_of_lt hpos
  rw [checked, toSize_of_nonneg (by omega), hint, Int.toNat_natCast]
  omega

theorem mirrors_iff {msg : Bytes} (hpos : pos < 2 ^ 31) (hw : 0 < w) (hsize : w < 2 ^ 63) :
    Mirrors msg pos w ↔ pos + w + 2 ≤ msg.length ∧
      ((msg.drop pos).take (w + 2)).reverse = (msg.drop pos).take (w + 2) := by
  have hint := Int32.toInt_ofNat_of_lt hpos
  have hoff : ((Int32.ofNat pos).toInt + 2).toNat = pos + 2 := by omega
  have hdrop : ((msg.drop pos).take (w + 2)).drop 2 = (msg.drop (pos + 2)).take w := by
    rw [List.drop_take, List.drop_drop, Nat.add_sub_cancel]
  have htake : ((msg.drop pos).take (w + 2)).take w = (msg.drop pos).take w := by
    rw [List.take_take, Nat.min_eq_left (by omega)]
  have hbytes : pos + w + 2 ≤ msg.length → (((msg.drop (pos + 2)).take w).reverse = (msg.drop pos).take w ↔
      ((msg.drop pos).take (w + 2)).reverse = (msg.drop pos).take (w + 2)) := by
    intro hle
    have hlen : ((msg.drop pos).take (w + 2)).length = w + 2 := by
      rw [List.length_take, List.length_drop]
      omega
    rw [← reverse_drop_two hw hlen, hdrop, htake]
  constructor
  · rintro ⟨-, -, hstop, hrev⟩
    rw [hoff] at hrev
    have hle : pos + w + 2 ≤ msg.length := by omega
    exact ⟨hle, (hbytes hle).1 hrev⟩
  · rintro ⟨hle, hrev⟩
    refine ⟨?_, by omega, by omega, ?_⟩
    · rw [checked_eq hpos hsize]
      omega
    · rw [hoff]
      exact (hbytes hle).2 hrev

theorem mirrored_iff_palindromes {msg : Bytes} (hmsg : msg.length < 2 ^ 31) (hpos : pos < 2 ^ 31)
    (hws : ∀ w ∈ ws, 0 < w ∧ w < 2 ^ 63) : Mirrored msg pos ws ↔ Palindromes msg pos ws := by
  induction ws generalizing pos with
  | nil => exact Iff.rfl
  | cons w ws ih =>
    obtain ⟨⟨hw, hsize⟩, hws⟩ := List.forall_mem_cons.1 hws
    unfold Mirrored Palindromes
    split
    · rw [mirrors_iff hpos hw hsize, ih (by omega) hws, and_assoc]
    · rw [ih hpos hws, checked_eq hpos hsize]
      exact and_iff_right (by omega)

/-- For every message, every cursor in it and every sequence of widths; and what it comes to on a
message whose every byte an `int` can index, as every message received is. -/
theorem scalar_reads_iff (r : BinaryReader) (h0 : 0 ≤ r.index.toInt) (hws : ∀ w ∈ ws, 0 < w ∧ w < 2 ^ 63) :
    (r.Decodes r.index.toInt.toNat ws ↔ Mirrored r.msg r.index.toInt.toNat ws) ∧
      (r.msg.length < 2 ^ 31 →
        (Mirrored r.msg r.index.toInt.toNat ws ↔ Palindromes r.msg r.index.toInt.toNat ws)) := by
  have hlt : r.index.toInt.toNat < 2 ^ 31 := by
    have := Int32.toInt_lt r.index
    omega
  have hpos : r.index.toInt = r.index.toInt.toNat := (Int.toNat_of_nonneg h0).symm
  exact ⟨decodes_iff_mirrored (index_eq hpos) fun w hw => (hws w hw).1,
    fun hmsg => mirrored_iff_palindromes hmsg hlt hws⟩

/-- Two reads in six zero bytes: one of four bytes, and one for which there is nothing left. -/
theorem scalar_reads_zeros : Decodes { msg := List.replicate 6 0 } 0 [4, 4] := by
  have hws : ∀ w ∈ [4, 4], 0 < w ∧ w < 2 ^ 63 := by decide
  obtain ⟨hiff, hpalindromes⟩ := scalar_reads_iff { msg := List.replicate 6 0 } (by decide) hws
  refine hiff.2 ((hpalindromes (by decide)).2 ?_)
  simp only [Palindromes]
  decide

/-- The number 1 in four bytes, with two zero bytes behind it, is read as 0. -/
theorem scalar_read_late :
    readData { msg := [1, 0, 0, 0, 0, 0] } 4 = .ok (some ([0, 0, 0, 0], { msg := [1, 0, 0, 0, 0, 0], index := 4 })) ∧
      ¬ Decodes { msg := [1, 0, 0, 0, 0, 0] } 0 [4] := by
  refine ⟨rfl, ?_⟩
  rintro ⟨-, data, r', hread, hvalue, -⟩
  obtain ⟨rfl, -⟩ := Prod.mk.inj (Option.some.inj (Except.ok.inj hread))
  exact absurd hvalue (by decide)

end BinaryReader

end IMServer
