import IMServer.Buffer

/-!
# `BinaryWriter`

`writeData` of a scalar makes room behind the bytes written so far but copies to the front of the
message; `writeDataStr` (the `std::string` overload) appends a length and the string. The length
goes through `compress`, whose loop over an unsigned counter has no exit.
-/

namespace IMServer

structure BinaryWriter where
  msg : Bytes := []
  index : UInt32 := 0
deriving DecidableEq

namespace BinaryWriter

/-- At most `fuel` turns of the loop of `compress`, `none` if it has not ended by then: `i >= 0` is
always true of a `size_t`, and below zero `i` starts again from `2 ^ 64 - 1` (a shift takes its count
modulo 64). -/
def compressLoop (len : Nat) : Nat → UInt64 → Bytes → Option Bytes
  | 0, _, _ => none
  | fuel + 1, i, out =>
    if 0 ≤ i then
      let c := UInt8.ofNat ((len >>> (7 * i % 64).toNat) % 128)
      if c = 0 ∧ out.length = 0 then compressLoop len fuel (i - 1) out
      else
        let c := if 0 < i then c ||| 0x80 else c
        compressLoop len fuel (i - 1) (out ++ [c])
    else some out

def compress (len : Nat) (out : Bytes) : Except Fault Bytes :=
  if len < 128 then .ok (out ++ [UInt8.ofNat len &&& 0x7F])
  else
    -- after `2 ^ 64` turns the counter, on which alone the end depends, has been everywhere
    match compressLoop len (2 ^ 64) 4 out with
    | some out => .ok out
    | none => .error .diverges

/-- `writeData<T>`; `data` is the object representation of the argument. -/
def writeData (w : BinaryWriter) (data : Bytes) : BinaryWriter where
  msg := overwrite (resize w.msg (w.index.toNat + data.length)) 0 data
  index := w.index + UInt32.ofNat data.length

def writeDataStr (w : BinaryWriter) (data : Bytes) : Except Fault BinaryWriter := do
  let out ← compress data.length []
  let w := { msg := w.msg ++ out, index := w.index + UInt32.ofNat out.length : BinaryWriter }
  if 0 < data.length then
    return { msg := w.msg ++ data, index := w.index + UInt32.ofNat data.length }
  else
    return w

def getMsg (w : BinaryWriter) : Bytes := w.msg

/-- No number of turns is enough. -/
theorem compressLoop_none (len fuel : Nat) (i : UInt64) (out : Bytes) :
    compressLoop len fuel i out = none := by
  induction fuel generalizing i out with
  | zero => rfl
  | succ fuel ih =>
    rw [compressLoop, if_pos UInt64.zero_le]
    by_cases hc : UInt8.ofNat ((len >>> (7 * i % 64).toNat) % 128) = 0 ∧ out.length = 0
    · rw [if_pos hc]; exact ih _ _
    · rw [if_neg hc]; exact ih _ _

theorem compress_short {len : Nat} (h : len < 128) (out : Bytes) :
    compress len out = .ok (out ++ [UInt8.ofNat len]) := by
  have hc : UInt8.ofNat len &&& 0x7F = UInt8.ofNat len := by
    have : ∀ n : Fin 128, UInt8.ofNat n.val &&& 0x7F = UInt8.ofNat n.val := by decide
    exact this ⟨len, h⟩
  rw [compress, if_pos h, hc]

theorem compress_long {len : Nat} (h : 128 ≤ len) (out : Bytes) :
    compress len out = .error .diverges := by
  rw [compress, if_neg (by omega), compressLoop_none]

theorem writeDataStr_msg {w w' : BinaryWriter} {data : Bytes} (h : w.writeDataStr data = .ok w') :
    data.length < 128 ∧ w'.msg = w.msg ++ UInt8.ofNat data.length :: data := by
  unfold writeDataStr at h
  by_cases hlen : data.length < 128
  · rw [compress_short hlen] at h
    refine ⟨hlen, ?_⟩
    cases data with
    | nil => cases h; rfl
    | cons b bs => cases h; simp
  · rw [compress_long (by omega)] at h
    cases h

theorem writeDataStr_short (w : BinaryWriter) {data : Bytes} (h : data.length < 128) :
    ∃ w', w.writeDataStr data = .ok w' := by
  unfold writeDataStr
  rw [compress_short h]
  simp only [bind, Except.bind]
  split <;> exact ⟨_, rfl⟩

theorem writeDataStr_long (w : BinaryWriter) {data : Bytes} (h : 128 ≤ data.length) :
    w.writeDataStr data = .error .diverges := by
  rw [writeDataStr, compress_long h]
  rfl

theorem writeData_empty_msg (data : Bytes) : (writeData {} data).msg = data := by
  simp [writeData, overwrite, resize]

/-- Two `int`s in a row: the second is copied over the first, and zeros take its own place. -/
theorem writeData_twice_msg {a b : Bytes} (ha : a.length = 4) (hb : b.length = 4) :
    ((writeData {} a).writeData b).msg = b ++ [0, 0, 0, 0] := by
  rw [writeData, writeData_empty_msg]
  simp [writeData, overwrite, resize, ha, hb]

end BinaryWriter

end IMServer
