import IMServer.Lib.Endian
import Mathlib.Data.List.TakeWhile

/-!
# Bytes, machine integers and faults

`std::string` and every other byte sequence of the server is a `Bytes`. `int` and `int32_t` are
`Int32`, `size_t` is a 64-bit unsigned number, and scalars are stored little-endian.
-/

namespace IMServer
open Endian

abbrev Bytes := List UInt8

inductive Fault
  /-- a failed `assert` -/
  | assertion
  /-- `std::length_error` -/
  | lengthError
  /-- `std::runtime_error`, thrown by `JSON_ASSERT_MESSAGE` -/
  | runtimeError
  /-- an access outside an object -/
  | outOfBounds
  /-- a null pointer followed -/
  | nullPointer
  /-- no return at all -/
  | diverges
deriving Repr, DecidableEq

/-- The bytes of a string literal of the source (ASCII). -/
def ascii (s : String) : Bytes := s.toList.map fun c => UInt8.ofNat c.toNat

/-- The terminator after the last character is part of the array `c_str()` points to. -/
def cStr (s : Bytes) (off : Int) : Except Fault UInt8 :=
  if 0 ≤ off ∧ off ≤ s.length then .ok (s.getD off.toNat 0) else .error .outOfBounds

def cTrunc (s : Bytes) : Bytes := s.takeWhile (· ≠ 0)

theorem cTrunc_of_notMem {s : Bytes} (h : 0 ∉ s) : cTrunc s = s := by
  refine List.takeWhile_eq_self_iff.2 fun c hc => ?_
  simp only [ne_eq, decide_not, Bool.not_eq_eq_eq_not, Bool.not_true, decide_eq_false_iff_not]
  rintro rfl
  exact h hc

/-- `int32_t` converted to `size_t`: sign extension, modulo `2 ^ 64`. -/
def toSize (i : Int32) : Nat := (i.toInt % 2 ^ 64).toNat

def int32Bytes (i : Int32) : Bytes := leBytes 4 i.toUInt32.toNat

def int32OfBytes (bs : Bytes) : Int32 := (UInt32.ofNat (ofLE bs)).toInt32

def sizeBytes (n : UInt64) : Bytes := leBytes 8 n.toNat

def sizeOfBytes (bs : Bytes) : UInt64 := UInt64.ofNat (ofLE bs)

@[simp] theorem length_int32Bytes (i : Int32) : (int32Bytes i).length = 4 := length_leBytes _ _

@[simp] theorem int32OfBytes_int32Bytes (i : Int32) : int32OfBytes (int32Bytes i) = i := by
  have h : i.toUInt32.toNat < 256 ^ 4 := i.toUInt32.toNat_lt
  rw [int32OfBytes, int32Bytes, ofLE_leBytes, Nat.mod_eq_of_lt h, UInt32.ofNat_toNat]
  exact Int32.toInt32_toUInt32 i

theorem int32Bytes_inj {i j : Int32} (h : int32Bytes i = int32Bytes j) : i = j := by
  simpa using congrArg int32OfBytes h

theorem int32Bytes_int32OfBytes {bs : Bytes} (h : bs.length = 4) :
    int32Bytes (int32OfBytes bs) = bs := by
  have hlt : ofLE bs < 2 ^ 32 := by
    have := ofLE_lt bs
    rw [h] at this
    omega
  have hle := leBytes_ofLE bs
  rw [h] at hle
  rw [int32Bytes, int32OfBytes, UInt32.toUInt32_toInt32, UInt32.toNat_ofNat', Nat.mod_eq_of_lt hlt, hle]

theorem int32Bytes_of_toInt {i : Int32} {n : Nat} (h : i.toInt = n) : int32Bytes i = leBytes 4 n := by
  have hb : i.toInt = (i.toUInt32.toNat : Int).bmod (2 ^ 32) := by
    rw [Int32.toInt, BitVec.toInt_eq_toNat_bmod]; rfl
  have hlt : i.toUInt32.toNat < 2 ^ 32 := i.toUInt32.toNat_lt
  rw [h, Int.bmod] at hb
  rw [int32Bytes]
  congr 1
  omega

theorem int32OfBytes_leBytes {n : Nat} (h : n < 2 ^ 31) : (int32OfBytes (leBytes 4 n)).toInt = n := by
  rw [int32OfBytes, ofLE_leBytes, Nat.mod_eq_of_lt (by omega), Int32.toInt, UInt32.toBitVec_toInt32,
    UInt32.toBitVec_ofNat', BitVec.toInt_ofNat', Int.bmod]
  omega

theorem toSize_of_nonneg {i : Int32} (h : 0 ≤ i.toInt) : toSize i = i.toInt.toNat := by
  have := Int32.toInt_lt i
  rw [toSize, Int.emod_eq_of_lt h (by omega)]

theorem toSize_of_neg {i : Int32} (h : i.toInt < 0) : toSize i = 2 ^ 64 - i.toInt.natAbs := by
  have := Int32.le_toInt i
  have hm : i.toInt % 2 ^ 64 = i.toInt + 2 ^ 64 := by omega
  rw [toSize, hm]
  omega

end IMServer
