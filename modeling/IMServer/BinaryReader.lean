import IMServer.Buffer

/-!
# `BinaryReader`

The cursor over a received message. `readData` stores byte
`_index + sizeof(T) - (i - 1)` of the message into byte `i` of its argument, which is the byte
order reversed and two positions late; the last two positions may lie behind the message.
-/

namespace IMServer

structure BinaryReader where
  msg : Bytes := []
  index : Int32 := 0
deriving DecidableEq

def memcpyFrom (s : Bytes) (off : Int) (n : Nat) : Except Fault Bytes :=
  if n = 0 then .ok []
  else if 0 ≤ off ∧ off + n ≤ s.length + 1 then .ok (((s ++ [0]).drop off.toNat).take n)
  else .error .outOfBounds

namespace BinaryReader

/-- `readData<T>` with `sizeof(T) = w`: the object representation read into the argument, or `none`
for the return value `false`. -/
def readData (r : BinaryReader) (w : Nat) : Except Fault (Option (Bytes × BinaryReader)) :=
  if r.msg.length < (toSize r.index + w) % 2 ^ 64 then .ok none
  else do
    let data ← (List.range w).mapM fun i : Nat => cStr r.msg (r.index.toInt + w - ((i : Int) - 1))
    return some (data, { r with index := r.index + Int32.ofNat w })

def readInt (r : BinaryReader) : Except Fault (Option (Int32 × BinaryReader)) :=
  (r.readData 4).map (·.map fun p => (int32OfBytes p.1, p.2))

def readSize (r : BinaryReader) : Except Fault (Option (UInt64 × BinaryReader)) :=
  (r.readData 8).map (·.map fun p => (sizeOfBytes p.1, p.2))

/-- `readData(std::string&)` into a string of `n` bytes; it checks nothing and returns `true`. -/
def readDataStr (r : BinaryReader) (n : Nat) : Except Fault (Bytes × BinaryReader) := do
  let data ← memcpyFrom r.msg r.index.toInt n
  return (data, { r with index := r.index + Int32.ofNat n })

/-! ### What a read that returned has read -/

theorem cStr_ok {s : Bytes} {off : Int} {b : UInt8} (h : cStr s off = .ok b) :
    0 ≤ off ∧ off ≤ s.length ∧ b = s.getD off.toNat 0 := by
  unfold cStr at h
  split at h
  · next hoff => cases h; exact ⟨hoff.1, hoff.2, rfl⟩
  · cases h

theorem mapM_cStr_ok {s : Bytes} {f : Nat → Int} {l : List Nat} {data : Bytes}
    (h : l.mapM (fun i => cStr s (f i)) = .ok data) :
    (∀ i ∈ l, 0 ≤ f i ∧ f i ≤ s.length) ∧ data = l.map fun i => s.getD (f i).toNat 0 := by
  induction l generalizing data with
  | nil => cases h; simp
  | cons i l ih =>
    rw [List.mapM_cons] at h
    obtain ⟨b, hb, h⟩ := Except.bind_eq_ok.1 h
    obtain ⟨bs, hbs, h⟩ := Except.bind_eq_ok.1 h
    cases h
    obtain ⟨h₁, h₂, rfl⟩ := cStr_ok hb
    obtain ⟨hl, rfl⟩ := ih hbs
    refine ⟨fun j hj => ?_, rfl⟩
    rcases List.mem_cons.1 hj with rfl | hj
    · exact ⟨h₁, h₂⟩
    · exact hl j hj

/-- A scalar read that returned `true`: byte `i` of the result is byte `_index + w + 1 - i` of the
message, so the message goes on for at least one byte behind the scalar. -/
theorem readData_some {r r' : BinaryReader} {w : Nat} {data : Bytes} (hw : 0 < w)
    (h : r.readData w = .ok (some (data, r'))) :
    r.index.toInt + w + 1 ≤ r.msg.length ∧
      data = (List.range w).map (fun i : Nat => r.msg.getD (r.index.toInt + w - ((i : Int) - 1)).toNat 0) ∧
      r' = { r with index := r.index + Int32.ofNat w } := by
  unfold readData at h
  split at h
  · cases h
  · obtain ⟨bs, hbs, h⟩ := Except.bind_eq_ok.1 h
    cases h
    obtain ⟨hl, rfl⟩ := mapM_cStr_ok hbs
    have h0 := (hl 0 (List.mem_range.2 hw)).2
    exact ⟨by omega, rfl, rfl⟩

theorem readInt_some {r r' : BinaryReader} {i : Int32} (h : r.readInt = .ok (some (i, r'))) :
    ∃ data, r.readData 4 = .ok (some (data, r')) ∧ i = int32OfBytes data := by
  obtain ⟨o, ho, h⟩ := Except.map_eq_ok.1 h
  obtain ⟨⟨data, r₁⟩, rfl, h⟩ := Option.map_eq_some_iff.1 h
  cases h
  exact ⟨data, ho, rfl⟩

theorem readSize_some {r r' : BinaryReader} {n : UInt64} (h : r.readSize = .ok (some (n, r'))) :
    ∃ data, r.readData 8 = .ok (some (data, r')) ∧ n = sizeOfBytes data := by
  obtain ⟨o, ho, h⟩ := Except.map_eq_ok.1 h
  obtain ⟨⟨data, r₁⟩, rfl, h⟩ := Option.map_eq_some_iff.1 h
  cases h
  exact ⟨data, ho, rfl⟩

theorem readDataStr_ok {r r' : BinaryReader} {n : Nat} {data : Bytes}
    (h : r.readDataStr n = .ok (data, r')) :
    n = 0 ∧ data = [] ∨ r.index.toInt + n ≤ r.msg.length + 1 ∧ data.length = n := by
  obtain ⟨bs, hbs, h⟩ := Except.bind_eq_ok.1 h
  cases h
  unfold memcpyFrom at hbs
  split at hbs
  · next hn => cases hbs; exact .inl ⟨hn, rfl⟩
  · split at hbs
    · next hoff =>
      cases hbs
      refine .inr ⟨hoff.2, ?_⟩
      rw [List.length_take, List.length_drop, List.length_append, List.length_singleton]
      omega
    · cases hbs

end BinaryReader

end IMServer
