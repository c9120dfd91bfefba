import IMServer.ClientSession
import IMServer.Lib.Traced

/-!
# What `process` touches of a message

The reads of `process` with a record of every access. The scalars are read two bytes late, so a
message that ends within two bytes behind one of them is left; and nothing compares the length that
was read with what there is.
-/

namespace IMServer
open Endian

inductive Access
  /-- one byte at an offset from the start of the message -/
  | read (off : Int)
  /-- `data.resize` -/
  | resize (n : Nat)
  /-- `memcpy` of `n` bytes from an offset -/
  | copy (off : Int) (n : Nat)
deriving DecidableEq

def Access.Within (size : Nat) : Access → Prop
  | read off => 0 ≤ off ∧ off < size
  | resize n => n ≤ size
  | copy off n => n = 0 ∨ 0 ≤ off ∧ off + n ≤ size

namespace BinaryReader

def readDataTraced (r : BinaryReader) (w : Nat) : Traced Access Fault (Option (Bytes × BinaryReader)) :=
  if r.msg.length < (toSize r.index + w) % 2 ^ 64 then pure none
  else do
    let data ← (List.range w).mapM fun i : Nat =>
      let off := r.index.toInt + w - ((i : Int) - 1)
      Traced.note (.read off) (cStr r.msg off)
    return some (data, { r with index := r.index + Int32.ofNat w })

def readAsTraced {α : Type} (f : Bytes → α) (r : BinaryReader) (w : Nat) :
    Traced Access Fault (Option (α × BinaryReader)) := do
  return (← r.readDataTraced w).map fun p => (f p.1, p.2)

def readIntTraced (r : BinaryReader) : Traced Access Fault (Option (Int32 × BinaryReader)) :=
  readAsTraced int32OfBytes r 4

def readSizeTraced (r : BinaryReader) : Traced Access Fault (Option (UInt64 × BinaryReader)) :=
  readAsTraced sizeOfBytes r 8

def readDataStrTraced (r : BinaryReader) (n : Nat) : Traced Access Fault (Bytes × BinaryReader) := do
  let data ← Traced.note (.copy r.index.toInt n) (memcpyFrom r.msg r.index.toInt n)
  return (data, { r with index := r.index + Int32.ofNat n })

end BinaryReader

def decodeTraced (msg : Bytes) : Traced Access Fault Decoded := do
  let reader : BinaryReader := { msg := msg }
  match ← reader.readIntTraced with
  | none => return .rejected none
  | some (cmd, reader) =>
    match ← reader.readIntTraced with
    | none => return .rejected none
    | some (seq, reader) =>
      match ← reader.readSizeTraced with
      | none => return .rejected (some seq)
      | some (dataLen, reader) =>
        Traced.note (.resize dataLen.toNat) (if maxSize < dataLen.toNat then throw .lengthError else pure ())
        let (data, _) ← reader.readDataStrTraced dataLen.toNat
        return .packet cmd seq data

/-! ### The record is of `decode` -/

theorem result_readDataTraced (r : BinaryReader) (w : Nat) : (r.readDataTraced w).result = r.readData w := by
  unfold BinaryReader.readDataTraced BinaryReader.readData
  split
  · rfl
  · rw [Traced.result_bind, Traced.result_mapM]
    rfl

theorem result_readAsTraced {α : Type} (f : Bytes → α) (r : BinaryReader) (w : Nat) :
    (BinaryReader.readAsTraced f r w).result = (r.readData w).map (·.map fun p => (f p.1, p.2)) := by
  rw [BinaryReader.readAsTraced, Traced.result_bind, result_readDataTraced]
  rfl

theorem result_readDataStrTraced (r : BinaryReader) (n : Nat) :
    (r.readDataStrTraced n).result = r.readDataStr n := by
  rw [BinaryReader.readDataStrTraced, Traced.result_bind]
  rfl

theorem result_decodeTraced (msg : Bytes) : (decodeTraced msg).result = decode msg := by
  unfold decodeTraced decode
  rw [Traced.result_bind, BinaryReader.readIntTraced, result_readAsTraced]
  refine congrArg _ (funext fun o₁ => ?_)
  rcases o₁ with _ | ⟨cmd, r₁⟩
  · rfl
  dsimp only
  rw [Traced.result_bind, BinaryReader.readIntTraced, result_readAsTraced]
  refine congrArg _ (funext fun o₂ => ?_)
  rcases o₂ with _ | ⟨seq, r₂⟩
  · rfl
  dsimp only
  rw [Traced.result_bind, BinaryReader.readSizeTraced, result_readAsTraced]
  refine congrArg _ (funext fun o₃ => ?_)
  rcases o₃ with _ | ⟨dataLen, r₃⟩
  · rfl
  dsimp only
  rw [Traced.result_bind, Traced.result_note]
  split
  · rfl
  · show Traced.result (_ >>= _) = _
    rw [Traced.result_bind, result_readDataStrTraced]
    rfl

/-! ### The reads of one scalar -/

namespace BinaryReader
variable {r : BinaryReader} {k w : Nat}

theorem toSize_index (hk : r.index.toInt = k) (hkw : k + w < 2 ^ 64) : (toSize r.index + w) % 2 ^ 64 = k + w := by
  rw [toSize_of_nonneg (by omega), hk, Int.toNat_natCast]
  omega

theorem readDataTraced_short (hk : r.index.toInt = k) (hkw : k + w < 2 ^ 64) (h : r.msg.length < k + w) :
    r.readDataTraced w = pure none := by
  rw [readDataTraced, if_pos (by rw [toSize_index hk hkw]; exact h)]

/-- The first byte asked for is the second behind the scalar. -/
theorem first_readDataTraced {P : Access → Prop} (hlogs : Traced.Logs P (r.readDataTraced w))
    (hsize : (toSize r.index + w) % 2 ^ 64 ≤ r.msg.length) (hw : 0 < w) : P (.read (r.index.toInt + w + 1)) := by
  rw [readDataTraced, if_neg (Nat.not_lt.2 hsize)] at hlogs
  have hmap := (Traced.logs_bind.1 hlogs).1
  obtain ⟨w', rfl⟩ := Nat.exists_eq_succ_of_ne_zero (Nat.ne_of_gt hw)
  rw [List.range_succ_eq_map] at hmap
  have hread := Traced.logs_note.1 hmap.head_mapM
  have hoff : r.index.toInt + (w' + 1 : Nat) - ((0 : Nat) - 1 : Int) = r.index.toInt + (w' + 1 : Nat) + 1 := by omega
  rwa [hoff] at hread

theorem not_logs_readDataTraced (hk : r.index.toInt = k) (hkw : k + w < 2 ^ 64) (hw : 0 < w)
    (h : k + w ≤ r.msg.length) (hlate : r.msg.length < k + w + 2) :
    ¬ Traced.Logs (Access.Within r.msg.length) (r.readDataTraced w) := by
  intro hlogs
  have hfirst := (first_readDataTraced hlogs (by rw [toSize_index hk hkw]; exact h) hw).2
  omega

/-- Otherwise the bytes from the second behind the cursor on are read, the last one first. -/
theorem readDataTraced_from {k : Int} (hk : r.index.toInt = k)
    (hsize : (toSize r.index + w) % 2 ^ 64 ≤ r.msg.length) (h0 : -2 ≤ k) (h : k + w + 2 ≤ r.msg.length) :
    Traced.Logs (fun a => ∃ off : Nat, a = .read off ∧ k + 2 ≤ off ∧ off < k + w + 2) (r.readDataTraced w) ∧
      (r.readDataTraced w).result =
        .ok (some (((r.msg.drop (k + 2).toNat).take w).reverse, { r with index := r.index + Int32.ofNat w })) := by
  rw [readDataTraced, if_neg (Nat.not_lt.2 hsize), hk]
  have hread : ∀ i ∈ List.range w, k + w - ((i : Int) - 1) = ((k + w + 1 - i).toNat : Int) := by
    intro i hi
    have := List.mem_range.1 hi
    omega
  constructor
  · refine Traced.logs_bind.2 ⟨Traced.logs_mapM fun i hi => Traced.logs_note.2 ?_, fun _ _ => Traced.logs_pure _⟩
    have := List.mem_range.1 hi
    exact ⟨(k + w + 1 - i).toNat, congrArg Access.read (hread i hi), by omega, by omega⟩
  · have hdata : (List.range w).map (fun i : Nat => r.msg.getD (k + w - ((i : Int) - 1)).toNat 0) =
        ((r.msg.drop (k + 2).toNat).take w).reverse := by
      refine List.ext_getElem ?_ fun i hi hi' => ?_
      · simp
        omega
      · have hw : i < w := by simpa using hi
        have hoff : (k + w - ((i : Int) - 1)).toNat = (k + 2).toNat + (w - 1 - i) := by omega
        rw [List.getElem_map, List.getElem_range, hoff, List.getElem_reverse, List.getElem_take,
          List.getElem_drop, List.getD_eq_getElem?_getD, List.getElem?_eq_getElem (by omega), Option.getD_some]
        congr 2
        simp
        omega
    rw [Traced.result_bind, Traced.result_mapM, Except.mapM_eq_ok fun i hi => ?_, Except.ok_bind, hdata]
    · rfl
    · have := List.mem_range.1 hi
      exact if_pos ⟨by omega, by omega⟩

theorem readDataTraced_late (hk : r.index.toInt = k) (hkw : k + w < 2 ^ 64) (h : k + w + 2 ≤ r.msg.length) :
    Traced.Logs (fun a => ∃ off : Nat, a = .read off ∧ k + 2 ≤ off ∧ off < k + w + 2) (r.readDataTraced w) ∧
      (r.readDataTraced w).result =
        .ok (some (((r.msg.drop (k + 2)).take w).reverse, { r with index := r.index + Int32.ofNat w })) := by
  obtain ⟨hlogs, hres⟩ := readDataTraced_from hk (by rw [toSize_index hk hkw]; omega) (by omega) (by omega)
  refine ⟨hlogs.mono fun a ha => ?_, hres⟩
  obtain ⟨off, rfl, hlow, hhigh⟩ := ha
  exact ⟨off, rfl, by omega, by omega⟩

theorem within_of_late {size : Nat} (h : k + w + 2 ≤ size) {a : Access}
    (ha : ∃ off : Nat, a = .read off ∧ k + 2 ≤ off ∧ off < k + w + 2) : a.Within size := by
  obtain ⟨off, rfl, -, hoff⟩ := ha
  exact ⟨by omega, by omega⟩

/-- Rejected, past the end, or within the message. -/
theorem readAsTraced_cases {α : Type} (f : Bytes → α) (hk : r.index.toInt = k) (hkw : k + w < 2 ^ 64)
    (hw : 0 < w) :
    (r.msg.length < k + w ∧ Traced.Logs (Access.Within r.msg.length) (readAsTraced f r w) ∧
      (readAsTraced f r w).result = .ok none) ∨
    (k + w ≤ r.msg.length ∧ r.msg.length < k + w + 2 ∧
      ¬ Traced.Logs (Access.Within r.msg.length) (readAsTraced f r w)) ∨
    (k + w + 2 ≤ r.msg.length ∧ Traced.Logs (Access.Within r.msg.length) (readAsTraced f r w) ∧
      (readAsTraced f r w).result = .ok (some (f ((r.msg.drop (k + 2)).take w).reverse,
        { r with index := r.index + Int32.ofNat w }))) := by
  rw [readAsTraced, Traced.result_bind]
  rcases Nat.lt_or_ge r.msg.length (k + w) with h | h
  · rw [readDataTraced_short hk hkw h]
    exact .inl ⟨h, Traced.logs_pure _, rfl⟩
  rcases Nat.lt_or_ge r.msg.length (k + w + 2) with h' | h'
  · refine .inr (.inl ⟨h, h', fun hlogs => ?_⟩)
    exact not_logs_readDataTraced hk hkw hw h h' (Traced.logs_bind.1 hlogs).1
  · obtain ⟨hlogs, hres⟩ := readDataTraced_late hk hkw h'
    rw [hres]
    have hwithin := hlogs.mono fun a ha => within_of_late h' ha
    exact .inr (.inr ⟨h', Traced.logs_bind.2 ⟨hwithin, fun _ _ => Traced.logs_pure _⟩, rfl⟩)

end BinaryReader

/-- The length `process` reads: a big-endian number two bytes behind the field. -/
def dataLen (msg : Bytes) : Nat := (sizeOfBytes ((msg.drop 10).take 8).reverse).toNat

/-- The message ends before a scalar or two bytes behind it, and holds the data its length announces. -/
def Fits (msg : Bytes) : Prop :=
  msg.length < 4 ∨ (6 ≤ msg.length ∧ msg.length < 8) ∨ (10 ≤ msg.length ∧ msg.length < 16) ∨
    (18 ≤ msg.length ∧ 16 + dataLen msg ≤ msg.length)

theorem memcpyFrom_within {msg : Bytes} {off n : Nat} (h : off + n ≤ msg.length) :
    memcpyFrom msg off n = .ok ((msg.drop off).take n) := by
  rw [memcpyFrom]
  split
  · next hn => rw [hn, List.take_zero]
  · rw [if_pos (by omega), Int.toNat_natCast, List.drop_append_of_le_length (by omega),
      List.take_append_of_le_length (by rw [List.length_drop]; omega)]

/-- How `x` can end: it has left the message, or it rejects or delivers what is there. -/
def Ends (msg : Bytes) (x : Traced Access Fault Decoded) : Prop :=
  (¬ Fits msg ∧ ¬ Traced.Logs (Access.Within msg.length) x) ∨
    (Fits msg ∧ Traced.Logs (Access.Within msg.length) x ∧
      ((∃ seq, x.result = .ok (.rejected seq)) ∨
        (16 + dataLen msg ≤ msg.length ∧
          ∃ cmd seq, x.result = .ok (.packet cmd seq ((msg.drop 16).take (dataLen msg))))))

namespace Ends
variable {α : Type} {msg : Bytes} {x : Traced Access Fault α} {f : α → Traced Access Fault Decoded}

theorem rejected (h : Fits msg) (seq : Option Int32) : Ends msg (pure (.rejected seq)) :=
  .inr ⟨h, Traced.logs_pure _, .inl ⟨seq, rfl⟩⟩

theorem bind_left (h : ¬ Fits msg) (hx : ¬ Traced.Logs (Access.Within msg.length) x) : Ends msg (x >>= f) :=
  .inl ⟨h, fun hlogs => hx (Traced.logs_bind.1 hlogs).1⟩

theorem bind {a : α} (hx : Traced.Logs (Access.Within msg.length) x) (ha : x.result = .ok a)
    (h : Ends msg (f a)) : Ends msg (x >>= f) := by
  have hres : (x >>= f).result = (f a).result := by rw [Traced.result_bind, ha, Except.ok_bind]
  rw [Ends, Traced.logs_bind_ok ha, hres]
  rcases h with ⟨hfits, hlogs⟩ | ⟨hfits, hlogs, hend⟩
  · exact .inl ⟨hfits, fun h => hlogs h.2⟩
  · exact .inr ⟨hfits, ⟨hx, hlogs⟩, hend⟩

end Ends

/-- From the length on: what is resized and copied. -/
theorem ends_data {msg : Bytes} (hmax : msg.length ≤ maxSize) (hlen : 18 ≤ msg.length) {r : BinaryReader}
    (hr : r = ⟨msg, 16⟩) (cmd seq : Int32) :
    Ends msg (do
      Traced.note (.resize (dataLen msg)) (if maxSize < dataLen msg then throw .lengthError else pure ())
      let (data, _) ← r.readDataStrTraced (dataLen msg)
      return .packet cmd seq data) := by
  have hk : r.index.toInt = 16 := by rw [hr]; rfl
  have hfits : Fits msg ↔ 16 + dataLen msg ≤ msg.length := by
    unfold Fits
    omega
  by_cases hle : dataLen msg ≤ msg.length
  · refine Ends.bind (a := ()) (Traced.logs_note.2 hle) (if_neg (by omega)) ?_
    by_cases hfit : 16 + dataLen msg ≤ msg.length
    · have hcopy : (r.readDataStrTraced (dataLen msg)).result = .ok ((msg.drop 16).take (dataLen msg),
          { r with index := r.index + Int32.ofNat (dataLen msg) }) := by
        rw [result_readDataStrTraced, BinaryReader.readDataStr, hk, hr]
        exact congrArg (· >>= _) (memcpyFrom_within hfit)
      refine Ends.bind ?_ hcopy (.inr ⟨hfits.2 hfit, Traced.logs_pure _, .inr ⟨hfit, cmd, seq, rfl⟩⟩)
      refine Traced.logs_bind.2 ⟨Traced.logs_note.2 (.inr ?_), fun _ _ => Traced.logs_pure _⟩
      omega
    · refine Ends.bind_left (mt hfits.1 hfit) fun h => ?_
      rcases Traced.logs_note.1 (Traced.logs_bind.1 h).1 with h0 | h0 <;> omega
  · exact Ends.bind_left (by rw [hfits]; omega) (mt Traced.logs_note.1 hle)

/-- Three scalars and the data: at each the message is left or it is not. -/
theorem ends_decodeTraced {msg : Bytes} (hmax : msg.length ≤ maxSize) : Ends msg (decodeTraced msg) := by
  have hk₁ : ({ msg := msg } : BinaryReader).index.toInt = (0 : Nat) := rfl
  rcases BinaryReader.readAsTraced_cases int32OfBytes hk₁ (by decide : 0 + 4 < 2 ^ 64) (by decide) with
    ⟨h, hlogs, hres⟩ | ⟨h, h', hlogs⟩ | ⟨h₁, hlogs, hres⟩
  · exact Ends.bind hlogs hres (.rejected (.inl (by simpa using h)) _)
  · refine Ends.bind_left ?_ hlogs
    unfold Fits
    simp only at h h'
    omega
  refine Ends.bind hlogs hres ?_
  have hk₂ : ({ msg := msg, index := 0 + Int32.ofNat 4 } : BinaryReader).index.toInt = (4 : Nat) := rfl
  rcases BinaryReader.readAsTraced_cases int32OfBytes hk₂ (by decide : 4 + 4 < 2 ^ 64) (by decide) with
    ⟨h, hlogs, hres⟩ | ⟨h, h', hlogs⟩ | ⟨h₂, hlogs, hres⟩
  · refine Ends.bind hlogs hres (.rejected (.inr (.inl ?_)) _)
    exact ⟨by simpa using h₁, by simpa using h⟩
  · refine Ends.bind_left ?_ hlogs
    unfold Fits
    simp only at h h'
    omega
  refine Ends.bind hlogs hres ?_
  have hk₃ : ({ msg := msg, index := 0 + Int32.ofNat 4 + Int32.ofNat 4 } : BinaryReader).index.toInt = (8 : Nat) := rfl
  rcases BinaryReader.readAsTraced_cases sizeOfBytes hk₃ (by decide : 8 + 8 < 2 ^ 64) (by decide) with
    ⟨h, hlogs, hres⟩ | ⟨h, h', hlogs⟩ | ⟨h₃, hlogs, hres⟩
  · refine Ends.bind hlogs hres (.rejected (.inr (.inr (.inl ?_))) _)
    exact ⟨by simpa using h₂, by simpa using h⟩
  · refine Ends.bind_left ?_ hlogs
    unfold Fits
    simp only at h h'
    omega
  exact Ends.bind hlogs hres (ends_data hmax h₃ rfl _ _)

/-! ### `process` -/

/-- `process` returns `false`; it may have stored a sequence number. -/
def ReturnsFalse (s : Store) (c : ClientSession) (msg : Bytes) : Prop :=
  ∃ seq, ClientSession.process (s, c) msg = .ok ((s, { c with seq := seq }), false)

/-- `process` calls the handlers with `data` and then returns `true`. -/
def Dispatches (s : Store) (c : ClientSession) (msg data : Bytes) : Prop :=
  ∃ cmd seq, decode msg = .ok (.packet cmd seq data) ∧
    ClientSession.process (s, c) msg =
      (ClientSession.dispatch s { c with seq := seq } cmd data >>= fun p => .ok (p, true))

structure DecodesWithin (s : Store) (c : ClientSession) (msg : Bytes) : Prop where
  accesses : ∀ a ∈ (decodeTraced msg).log, a.Within msg.length
  outcome : ReturnsFalse s c msg ∨
    Dispatches s c msg ((msg.drop 16).take (dataLen msg)) ∧ 16 + dataLen msg ≤ msg.length

theorem returnsFalse_of_decode {msg : Bytes} {seq : Option Int32} (h : decode msg = .ok (.rejected seq))
    (s : Store) (c : ClientSession) : ReturnsFalse s c msg := by
  rcases seq with _ | seq
  · refine ⟨c.seq, ?_⟩
    rw [ClientSession.process, h]
    rfl
  · refine ⟨seq, ?_⟩
    rw [ClientSession.process, h]
    rfl

theorem dispatches_of_decode {msg data : Bytes} {cmd seq : Int32} (h : decode msg = .ok (.packet cmd seq data))
    (s : Store) (c : ClientSession) : Dispatches s c msg data := by
  refine ⟨cmd, seq, h, ?_⟩
  rw [ClientSession.process, h]
  rfl

/-- No `std::string` is longer than `maxSize`. -/
theorem decodes_within_iff (s : Store) (c : ClientSession) {msg : Bytes} (hmax : msg.length ≤ maxSize) :
    DecodesWithin s c msg ↔ Fits msg := by
  rcases ends_decodeTraced hmax with ⟨hfits, hlogs⟩ | ⟨hfits, hlogs, hend⟩
  · exact iff_of_false (fun h => hlogs h.accesses) hfits
  · rw [result_decodeTraced] at hend
    refine iff_of_true ⟨hlogs, ?_⟩ hfits
    rcases hend with ⟨seq, h⟩ | ⟨hlen, cmd, seq, h⟩
    · exact .inl (returnsFalse_of_decode h s c)
    · exact .inr ⟨dispatches_of_decode h s c, hlen⟩

/-- Eighteen zero bytes: command, sequence number and length zero. -/
theorem decodes_within_zeros :
    (List.replicate 18 0 : Bytes).length ≤ maxSize ∧ Fits (List.replicate 18 0) ∧
      DecodesWithin {} {} (List.replicate 18 0) := by
  have hmax : (List.replicate 18 0 : Bytes).length ≤ maxSize := by decide
  have hfits : Fits (List.replicate 18 0) := .inr (.inr (.inr ⟨by decide, by decide⟩))
  exact ⟨hmax, hfits, (decodes_within_iff _ _ hmax).2 hfits⟩

/-- A length of three in a message that ends with it. -/
def lyingLength : Bytes := List.replicate 17 0 ++ [3]

theorem lying_length_not_within :
    dataLen lyingLength = 3 ∧ decode lyingLength = .ok (.packet 0 0 [0, 3, 0]) ∧
      Access.copy 16 3 ∈ (decodeTraced lyingLength).log ∧ ¬ DecodesWithin {} {} lyingLength := by
  refine ⟨by decide, rfl, by decide, fun h => ?_⟩
  rcases h.accesses (.copy 16 3) (by decide) with h0 | h0
  · cases h0
  · exact absurd h0.2 (by decide)

end IMServer
