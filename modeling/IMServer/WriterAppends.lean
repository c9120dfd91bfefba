import IMServer.BinaryWriter
import Mathlib.Data.List.Induction
import Mathlib.Data.Nat.Digits.Defs

/-!
# What a writer has written

The message a `BinaryWriter` should hold is what was written since the last `clear`, one after the
other. A scalar is copied to the front instead of the end, and the length of a string of 128 bytes
or more is never finished, so the two agree on the sequences of `appends_iff` only.
-/

namespace IMServer
open Endian

/-! ### The length of a string -/

/-- The digits to base 128, most significant first; zero has one. -/
def digits128 (n : Nat) : List Nat := if n = 0 then [0] else (Nat.digits 128 n).reverse

/-- The high bit on every byte but the last. -/
def continued : List Nat → Bytes
  | [] => []
  | [d] => [UInt8.ofNat d]
  | d :: ds => UInt8.ofNat (d + 128) :: continued ds

/-- The encoding that `compress` is meant to append. -/
def lengthBytes (len : Nat) : Bytes := continued (digits128 len)

theorem lengthBytes_short {len : Nat} (h : len < 128) : lengthBytes len = [UInt8.ofNat len] := by
  unfold lengthBytes digits128
  split
  · next h0 => rw [h0]; rfl
  · next h0 => rw [Nat.digits_of_lt 128 len h0 h]; rfl

namespace BinaryWriter

structure Compresses (len : Nat) : Prop where
  terminates : ∃ bs, compress len [] = .ok bs ∧ 1 ≤ bs.length ∧ bs.length ≤ 5 ∧ bs = lengthBytes len
  /-- no encoding begins with another one, and no two lengths have the same -/
  prefixFree : ∀ bs len' bs', compress len [] = .ok bs → compress len' [] = .ok bs' →
    bs <+: bs' ∨ bs' <+: bs → len = len'
  /-- a string of this length is found again, whatever stands behind it -/
  located : ∀ data : Bytes, data.length = len → ∃ w, writeDataStr {} data = .ok w ∧
    ∀ data' w' rest rest', writeDataStr {} data' = .ok w' → w.msg ++ rest = w'.msg ++ rest' →
      data = data' ∧ rest = rest'

theorem compress_eq {len : Nat} {bs : Bytes} (h : compress len [] = .ok bs) :
    len < 128 ∧ bs = [UInt8.ofNat len] := by
  by_cases hlen : len < 128
  · rw [compress_short hlen] at h
    exact ⟨hlen, (Except.ok.inj h).symm⟩
  · rw [compress_long (by omega)] at h
    cases h

theorem ofNat_inj_short {a b : Nat} (ha : a < 128) (hb : b < 128) (h : UInt8.ofNat a = UInt8.ofNat b) : a = b := by
  have := congrArg UInt8.toNat h
  rw [UInt8.toNat_ofNat', UInt8.toNat_ofNat'] at this
  omega

theorem compresses_short {len : Nat} (h : len < 128) : Compresses len := by
  refine ⟨⟨_, compress_short h [], ?_, ?_, ?_⟩, ?_, ?_⟩
  · simp
  · simp
  · rw [lengthBytes_short h]
    rfl
  · intro bs len' bs' hbs hbs' hpre
    obtain ⟨-, rfl⟩ := compress_eq hbs
    obtain ⟨hlen', rfl⟩ := compress_eq hbs'
    rcases hpre with hpre | hpre
    · exact ofNat_inj_short h hlen' (List.cons_prefix_cons.1 hpre).1
    · exact (ofNat_inj_short hlen' h (List.cons_prefix_cons.1 hpre).1).symm
  · rintro data rfl
    obtain ⟨w, hw⟩ := writeDataStr_short {} h
    refine ⟨w, hw, fun data' w' rest rest' hw' heq => ?_⟩
    obtain ⟨-, hmsg⟩ := writeDataStr_msg hw
    obtain ⟨hdata', hmsg'⟩ := writeDataStr_msg hw'
    rw [hmsg, hmsg'] at heq
    obtain ⟨hbyte, heq⟩ := List.cons.inj heq
    exact List.append_inj heq (ofNat_inj_short h hdata' hbyte)

/-- `compress` keeps its promise exactly for lengths that fit the one byte it starts with. -/
theorem compresses_iff (len : Nat) : Compresses len ↔ len < 128 := by
  constructor
  · intro h
    obtain ⟨bs, hbs, -⟩ := h.terminates
    exact (compress_eq hbs).1
  · exact compresses_short

theorem compress_128_diverges : compress 128 [] = .error .diverges ∧ ¬ Compresses 128 := by
  have hlong := compress_long (Nat.le_refl 128) []
  refine ⟨hlong, fun h => ?_⟩
  obtain ⟨bs, hbs, -⟩ := h.terminates
  cases hlong.symm.trans hbs

end BinaryWriter

/-! ### Sequences of writes -/

inductive WriterOp
  /-- `writeData<T>` of a value, `sizeof(T)` being `width` -/
  | scalar (width value : Nat)
  | string (data : Bytes)
  | clear
deriving DecidableEq

namespace BinaryWriter

def clear (_ : BinaryWriter) : BinaryWriter := {}

def size (w : BinaryWriter) : Nat := w.index.toNat

def run (w : BinaryWriter) : WriterOp → Except Fault BinaryWriter
  | .scalar width value => .ok (w.writeData (leBytes width value))
  | .string data => w.writeDataStr data
  | .clear => .ok w.clear

end BinaryWriter

/-- What should be there after an operation, if it was `out` before. -/
def WriterOp.append (out : Bytes) : WriterOp → Bytes
  | scalar width value => out ++ leBytes width value
  | string data => out ++ lengthBytes data.length ++ data
  | clear => []

def written (ops : List WriterOp) : Bytes := ops.foldl WriterOp.append []

/-- The operations return, and the message is what was written. -/
def Appends (ops : List WriterOp) : Prop :=
  ∃ w, ops.foldlM BinaryWriter.run {} = .ok w ∧ w.getMsg = written ops ∧ w.size = w.getMsg.length

def zeros (n : Nat) : Bytes := List.replicate n 0

/-- Nothing precedes the scalar, or copying it to the front changes nothing. -/
def FitsFront (out data : Bytes) : Prop :=
  out = [] ∨ data = zeros data.length ∧ out.take data.length = zeros (min data.length out.length)

/-- The scalars that no `clear` follows fit the front. -/
def ScalarsFit (ops : List WriterOp) : Prop :=
  ∀ before width value after, ops = before ++ .scalar width value :: after → .clear ∉ after →
    FitsFront (written before) (leBytes width value)

structure WritesFit (ops : List WriterOp) : Prop where
  strings : ∀ data, .string data ∈ ops → data.length < 128
  scalars : ScalarsFit ops

/-! ### One scalar -/

/-- The message after `writeData` of a scalar. -/
def atFront (out data : Bytes) : Bytes := data ++ (out ++ zeros data.length).drop data.length

/-- A byte that was written and is not zero is not there. -/
def Loses (msg out : Bytes) : Prop := ∃ (p : Nat) (x : UInt8), out[p]? = some x ∧ x ≠ 0 ∧ msg[p]? ≠ some x

section
variable {msg out data : Bytes}

theorem Loses.ne (h : Loses msg out) : msg ≠ out := by
  rintro rfl
  obtain ⟨p, x, hx, -, hne⟩ := h
  exact hne hx

theorem Loses.append (h : Loses msg out) (hlen : msg.length = out.length) (s : Bytes) :
    Loses (msg ++ s) (out ++ s) := by
  obtain ⟨p, x, hx, h0, hne⟩ := h
  have hp := (List.getElem?_eq_some_iff.1 hx).1
  refine ⟨p, x, ?_, h0, ?_⟩
  · rw [List.getElem?_append_left hp, hx]
  · rw [List.getElem?_append_left (by omega)]
    exact hne

theorem eq_zeros_or (data : Bytes) :
    data = zeros data.length ∨ ∃ before x k, data = before ++ x :: zeros k ∧ x ≠ 0 := by
  induction data with
  | nil => exact .inl rfl
  | cons a data ih =>
    rcases ih with hzero | ⟨before, x, k, hdata, hx⟩
    · by_cases ha : a = 0
      · rw [ha]
        exact .inl (congrArg (0 :: ·) hzero)
      · exact .inr ⟨[], a, data.length, congrArg (a :: ·) hzero, ha⟩
    · exact .inr ⟨a :: before, x, k, by rw [hdata]; rfl, hx⟩

theorem length_atFront (out data : Bytes) : (atFront out data).length = out.length + data.length := by
  simp only [atFront, zeros, List.length_append, List.length_drop, List.length_replicate]
  omega

/-- The last byte of a scalar that is not zero does not get to its place. -/
theorem loses_of_ne_zeros {before : Bytes} {x : UInt8} {k : Nat} (hdata : data = before ++ x :: zeros k)
    (hx : x ≠ 0) (hlen : msg.length = out.length) (hout : out ≠ []) : Loses (atFront msg data) (out ++ data) := by
  have hpos := List.length_pos_iff.2 hout
  refine ⟨out.length + before.length, x, ?_, hx, fun h => hx ?_⟩
  · rw [List.getElem?_append_right (by omega), Nat.add_sub_cancel_left, hdata,
      List.getElem?_append_right (Nat.le_refl _), Nat.sub_self]
    rfl
  · have hmem : x ∈ zeros data.length ∨ x ∈ zeros k := by
      by_cases hp : out.length + before.length < data.length
      · -- it is behind `x` in the scalar itself
        rw [atFront, List.getElem?_append_left hp, hdata, List.getElem?_append_right (by omega)] at h
        rw [show out.length + before.length - before.length = (out.length - 1) + 1 by omega,
          List.getElem?_cons_succ] at h
        exact .inr (List.mem_of_getElem? h)
      · -- or among the zeros that `resize` has added
        rw [atFront, List.getElem?_append_right (by omega), List.getElem?_drop,
          List.getElem?_append_right (by omega)] at h
        exact .inl (List.mem_of_getElem? h)
    rcases hmem with hmem | hmem
    · exact List.eq_of_mem_replicate hmem
    · exact List.eq_of_mem_replicate hmem

theorem atFront_of_fits (h : FitsFront out data) : atFront out data = out ++ data := by
  rcases h with rfl | ⟨hdata, hout⟩
  · simp [atFront, zeros]
  · have htake : (out ++ zeros data.length).take data.length = data := by
      rw [List.take_append, hout, hdata]
      simp only [zeros, List.length_replicate, List.take_replicate, List.replicate_append_replicate]
      congr 1
      omega
    calc atFront out data
        = (out ++ zeros data.length).take data.length ++ (out ++ zeros data.length).drop data.length := by
          rw [htake]
          rfl
      _ = out ++ zeros data.length := List.take_append_drop _ _
      _ = out ++ data := by rw [← hdata]

theorem loses_of_not_fits (h : ¬ FitsFront out data) : Loses (atFront out data) (out ++ data) := by
  obtain ⟨hout, hzero⟩ := not_or.1 h
  rcases eq_zeros_or data with hdata | ⟨before, x, k, hdata, hx⟩
  · -- the scalar is zero, but covers a byte that is not
    rcases eq_zeros_or (out.take data.length) with hfront | ⟨before, x, k, hfront, hx⟩
    · exact absurd ⟨hdata, by rwa [List.length_take] at hfront⟩ hzero
    · have hp : (out.take data.length)[before.length]? = some x := by
        rw [hfront, List.getElem?_append_right (Nat.le_refl _), Nat.sub_self]
        rfl
      have hlt := (List.getElem?_eq_some_iff.1 hp).1
      rw [List.length_take] at hlt
      rw [List.getElem?_take_of_lt (by omega)] at hp
      refine ⟨before.length, x, ?_, hx, fun hget => hx ?_⟩
      · rw [List.getElem?_append_left (by omega), hp]
      · rw [atFront, List.getElem?_append_left (by omega), hdata] at hget
        exact List.eq_of_mem_replicate (List.mem_of_getElem? hget)
  · exact loses_of_ne_zeros hdata hx rfl hout

/-- What is lost is not found again. -/
theorem Loses.atFront (h : Loses msg out) (hlen : msg.length = out.length) (data : Bytes) :
    Loses (atFront msg data) (out ++ data) := by
  obtain ⟨p, x, hp, hx, hne⟩ := h
  have hlt := (List.getElem?_eq_some_iff.1 hp).1
  rcases eq_zeros_or data with hdata | ⟨before, y, k, hdata, hy⟩
  · refine ⟨p, x, by rw [List.getElem?_append_left hlt, hp], hx, fun hget => ?_⟩
    by_cases hcovered : p < data.length
    · rw [IMServer.atFront, List.getElem?_append_left hcovered, hdata] at hget
      exact hx (List.eq_of_mem_replicate (List.mem_of_getElem? hget))
    · rw [IMServer.atFront, List.getElem?_append_right (by omega), List.getElem?_drop,
        Nat.add_sub_cancel' (by omega), List.getElem?_append_left (by omega)] at hget
      exact hne hget
  · exact loses_of_ne_zeros hdata hy hlen (List.ne_nil_of_length_pos (by omega))

end

/-! ### Whole sequences -/

theorem scalarsFit_nil : ScalarsFit [] := by
  intro before width value after h
  simp at h

theorem scalarsFit_snoc {ops : List WriterOp} {op : WriterOp} :
    ScalarsFit (ops ++ [op]) ↔ (op = .clear ∨ ScalarsFit ops) ∧
      ∀ width value, op = .scalar width value → FitsFront (written ops) (leBytes width value) := by
  constructor
  · intro h
    refine ⟨?_, ?_⟩
    · by_cases hop : op = .clear
      · exact .inl hop
      · refine .inr fun before width value after hops hafter => h before width value (after ++ [op]) ?_ ?_
        · rw [hops, List.append_assoc, List.cons_append]
        · simp [hafter, Ne.symm hop]
    · rintro width value rfl
      exact h ops width value [] rfl nofun
  · rintro ⟨hops, hlast⟩ before width value after heq hafter
    rcases List.eq_nil_or_concat after with rfl | ⟨after, last, rfl⟩
    · obtain ⟨rfl, hop⟩ := List.append_inj' heq rfl
      exact hlast width value (List.cons.inj hop).1
    · rw [List.concat_eq_append, ← List.cons_append, ← List.append_assoc] at heq
      obtain ⟨rfl, hop⟩ := List.append_inj' heq rfl
      obtain rfl : op = last := (List.cons.inj hop).1
      rw [List.concat_eq_append, List.mem_append, not_or, List.mem_singleton] at hafter
      rcases hops with rfl | hops
      · exact absurd rfl hafter.2
      · exact hops before width value after rfl hafter.1

/-- In every state the output stays below `2 ^ 32` bytes. -/
def StaysBelow (ops : List WriterOp) : Prop := ∀ before, before <+: ops → (written before).length < 2 ^ 32

theorem written_snoc (ops : List WriterOp) (op : WriterOp) :
    written (ops ++ [op]) = WriterOp.append (written ops) op := by
  rw [written, List.foldl_append]
  rfl

namespace BinaryWriter
variable {w w' : BinaryWriter} {ops : List WriterOp} {op : WriterOp}

/-- The length is always right; the message is right, or has lost something for good. -/
structure Tracked (w : BinaryWriter) (ops : List WriterOp) : Prop where
  index : w.size = w.msg.length
  length : w.msg.length = (written ops).length
  right : ScalarsFit ops → w.msg = written ops
  wrong : ¬ ScalarsFit ops → Loses w.msg (written ops)

theorem size_add {i : UInt32} {n : Nat} (h : i.toNat + n < 2 ^ 32) : (i + UInt32.ofNat n).toNat = i.toNat + n := by
  rw [UInt32.toNat_add, UInt32.toNat_ofNat']
  omega

theorem writeData_msg (w : BinaryWriter) (hindex : w.size = w.msg.length) (data : Bytes) :
    (w.writeData data).msg = atFront w.msg data := by
  have hresize : resize w.msg (w.msg.length + data.length) = w.msg ++ zeros data.length := by
    rw [resize, List.take_of_length_le (by omega), Nat.add_sub_cancel_left]
    rfl
  show overwrite (resize w.msg (w.size + data.length)) 0 data = _
  rw [hindex, hresize, overwrite, List.take_zero, Nat.zero_add]
  rfl

theorem writeDataStr_size {data : Bytes} (h : w.writeDataStr data = .ok w')
    (hbelow : w.size + (data.length + 1) < 2 ^ 32) : w'.size = w.size + (data.length + 1) := by
  have hone : (w.index + UInt32.ofNat 1).toNat = w.index.toNat + 1 := size_add (by unfold size at hbelow; omega)
  rw [writeDataStr, compress_short (writeDataStr_msg h).1, Except.ok_bind] at h
  unfold size at hbelow ⊢
  split at h
  · cases h
    show (w.index + UInt32.ofNat 1 + UInt32.ofNat data.length).toNat = _
    rw [size_add (by omega), hone]
    omega
  · next hdata =>
    cases h
    show (w.index + UInt32.ofNat 1).toNat = _
    omega

theorem Tracked.scalar (h : Tracked w ops) {width value : Nat}
    (hbelow : (written (ops ++ [.scalar width value])).length < 2 ^ 32) :
    Tracked (w.writeData (leBytes width value)) (ops ++ [.scalar width value]) := by
  have hmsg := writeData_msg w h.index (leBytes width value)
  have hlen := length_atFront w.msg (leBytes width value)
  have hwritten : written (ops ++ [.scalar width value]) = written ops ++ leBytes width value := written_snoc ops _
  have hfit : ScalarsFit (ops ++ [.scalar width value]) ↔
      ScalarsFit ops ∧ FitsFront (written ops) (leBytes width value) := by
    rw [scalarsFit_snoc]
    simp
  rw [hwritten, List.length_append] at hbelow
  have hindex := h.index
  have hlength := h.length
  refine ⟨?_, ?_, ?_, ?_⟩
  · rw [hmsg, hlen, ← hindex]
    exact size_add (by show w.size + _ < _; omega)
  · rw [hmsg, hlen, hwritten, List.length_append, h.length]
  · intro hfits
    obtain ⟨hops, hfront⟩ := hfit.1 hfits
    rw [hmsg, hwritten, h.right hops, atFront_of_fits hfront]
  · intro hfits
    rw [hmsg, hwritten]
    by_cases hops : ScalarsFit ops
    · rw [h.right hops]
      exact loses_of_not_fits fun hfront => hfits (hfit.2 ⟨hops, hfront⟩)
    · exact (h.wrong hops).atFront h.length _

theorem Tracked.string (h : Tracked w ops) {data : Bytes} (hdata : data.length < 128)
    (hbelow : (written (ops ++ [.string data])).length < 2 ^ 32) (hw : w.writeDataStr data = .ok w') :
    Tracked w' (ops ++ [.string data]) := by
  obtain ⟨-, hmsg⟩ := writeDataStr_msg hw
  have hwritten : written (ops ++ [.string data]) = written ops ++ (UInt8.ofNat data.length :: data) := by
    rw [written_snoc, WriterOp.append, lengthBytes_short hdata, List.append_assoc]
    rfl
  have hfit : ScalarsFit (ops ++ [.string data]) ↔ ScalarsFit ops := by
    rw [scalarsFit_snoc]
    simp
  have hlength := h.length
  have hindex := h.index
  rw [hwritten, List.length_append, List.length_cons] at hbelow
  refine ⟨?_, ?_, ?_, ?_⟩
  · rw [writeDataStr_size hw (by omega), hmsg, List.length_append, List.length_cons, hindex]
  · rw [hmsg, hwritten, List.length_append, List.length_append, h.length]
  · intro hfits
    rw [hmsg, hwritten, h.right (hfit.1 hfits)]
  · intro hfits
    rw [hmsg, hwritten]
    exact (h.wrong fun hops => hfits (hfit.2 hops)).append h.length _

theorem Tracked.clear : Tracked {} (ops ++ [.clear]) := by
  have hwritten : written (ops ++ [.clear]) = [] := written_snoc ops _
  have hfit : ScalarsFit (ops ++ [.clear]) := scalarsFit_snoc.2 ⟨.inl rfl, nofun⟩
  exact ⟨rfl, by rw [hwritten], fun _ => hwritten.symm, fun hfits => absurd hfit hfits⟩

theorem run_tracked {ops : List WriterOp} (hbelow : StaysBelow ops)
    (hstrings : ∀ data, .string data ∈ ops → data.length < 128) :
    ∃ w, ops.foldlM run {} = .ok w ∧ Tracked w ops := by
  induction ops using List.reverseRecOn with
  | nil =>
    exact ⟨{}, rfl, rfl, rfl, fun _ => rfl, fun hfits => absurd scalarsFit_nil hfits⟩
  | append_singleton ops op ih =>
    obtain ⟨w, hw, htracked⟩ := ih (fun before hpre => hbelow before (hpre.trans (List.prefix_append _ _)))
      fun data hdata => hstrings data (List.mem_append_left _ hdata)
    have hlast := hbelow _ (List.prefix_refl _)
    have hstep : ∀ {w'}, w.run op = .ok w' → (ops ++ [op]).foldlM run {} = .ok w' := by
      intro w' hop
      rw [List.foldlM_append, hw, Except.ok_bind, List.foldlM_cons, hop]
      rfl
    rcases op with ⟨width, value⟩ | data | _
    · exact ⟨_, hstep rfl, htracked.scalar hlast⟩
    · have hdata := hstrings data (by simp)
      obtain ⟨w', hw'⟩ := writeDataStr_short w hdata
      exact ⟨w', hstep hw', htracked.string hdata hlast hw'⟩
    · exact ⟨_, hstep rfl, .clear⟩

theorem strings_of_run {ops : List WriterOp} {w w' : BinaryWriter} (h : ops.foldlM run w = .ok w') :
    ∀ data, .string data ∈ ops → data.length < 128 := by
  induction ops generalizing w with
  | nil => exact nofun
  | cons op ops ih =>
    obtain ⟨w₁, hop, h⟩ := Except.foldlM_cons_ok.1 h
    intro data hdata
    rcases List.mem_cons.1 hdata with rfl | hdata
    · exact (writeDataStr_msg hop).1
    · exact ih h data hdata

end BinaryWriter

/-- The message is the concatenation exactly if no string is long, and every scalar since the last
`clear` comes first or is a zero over zeros. -/
theorem appends_iff {ops : List WriterOp} (hbelow : StaysBelow ops) : Appends ops ↔ WritesFit ops := by
  constructor
  · rintro ⟨w, hw, hmsg, -⟩
    have hstrings := BinaryWriter.strings_of_run hw
    obtain ⟨w', hw', htracked⟩ := BinaryWriter.run_tracked hbelow hstrings
    obtain rfl : w = w' := Except.ok_unique hw hw'
    refine ⟨hstrings, ?_⟩
    by_contra hfits
    exact (htracked.wrong hfits).ne hmsg
  · rintro ⟨hstrings, hscalars⟩
    obtain ⟨w, hw, htracked⟩ := BinaryWriter.run_tracked hbelow hstrings
    exact ⟨w, hw, htracked.right hscalars, htracked.index⟩

theorem staysBelow_of_take {ops : List WriterOp}
    (h : ∀ n, n ≤ ops.length → (written (ops.take n)).length < 2 ^ 32) : StaysBelow ops := by
  intro before hpre
  rw [List.prefix_iff_eq_take.1 hpre]
  exact h _ hpre.length_le

/-- An `int` and a string. -/
def numberAndName : List WriterOp := [.scalar 4 1000, .string [1, 2]]

theorem appends_numberAndName : StaysBelow numberAndName ∧ Appends numberAndName := by
  have hbelow : StaysBelow numberAndName := by
    refine staysBelow_of_take fun n hn => ?_
    have hle : (written (numberAndName.take n)).length ≤ 7 := by
      rcases n with _ | _ | n
      · decide
      · decide
      · rw [List.take_of_length_le (by simp [numberAndName])]
        simp [numberAndName, written, WriterOp.append, lengthBytes_short]
    omega
  refine ⟨hbelow, (appends_iff hbelow).2 ⟨?_, ?_⟩⟩
  · simp [numberAndName]
  · show ScalarsFit ([] ++ [.scalar 4 1000] ++ [.string [1, 2]])
    rw [scalarsFit_snoc, scalarsFit_snoc]
    exact ⟨.inr ⟨.inr scalarsFit_nil, fun _ _ _ => .inl rfl⟩, nofun⟩

/-- Two `int`s: the second stands where the first should, and zeros where the second should. -/
theorem second_scalar_at_front :
    StaysBelow [.scalar 4 1, .scalar 4 2] ∧ ¬ Appends [.scalar 4 1, .scalar 4 2] := by
  refine ⟨staysBelow_of_take (by decide), ?_⟩
  rintro ⟨w, hw, hmsg, -⟩
  obtain rfl := Except.ok.inj hw
  exact absurd hmsg (by decide)

end IMServer
