import IMServer.Buffer

/-!
# Buffers as byte queues

Two buffers through any run of the operations of the class, each called as its assertions want it: no
assertion fails, and the readable bytes are those of two byte queues, which `swap` exchanges. Integers go
through a buffer in network order.
-/

namespace IMServer.Net
open Endian

/-! ### Whole runs -/

inductive BufferOp
  | append (data : Bytes)
  | prepend (data : Bytes)
  | retrieve (len : Nat)
  | retrieveUntil (stop : Nat)
  | retrieveAll
  | unwrite (len : Nat)
  | ensureWritableBytes (len : Nat)
  /-- `data` stands behind `beginWrite()` -/
  | hasWritten (data : Bytes)
  | shrink (reserve : Nat)
  /-- what the socket has, or `readv` fails -/
  | readFd (chunk : Option Bytes)

/-- The bytes in a buffer, and how many of those put in front have not been made up for. -/
structure Queue where
  bytes : Bytes := []
  used : Nat := 0

namespace BufferOp

def run (b : Buffer) : BufferOp → Except Fault Buffer
  | append data => b.append data
  | prepend data => b.prepend data
  | retrieve len => b.retrieve len
  | retrieveUntil stop => b.retrieveUntil stop
  | retrieveAll => .ok b.retrieveAll
  | unwrite len => b.unwrite len
  | ensureWritableBytes len => b.ensureWritableBytes len
  | hasWritten data => b.write data
  | shrink reserve => b.shrink reserve
  | readFd (some chunk) => (b.readFd chunk).map Prod.snd
  | readFd none => .ok b

/-- What the assertions want. `shrink` counts the bytes in an `int`. -/
def Fits (b : Buffer) : BufferOp → Prop
  | prepend data => data.length ≤ b.prependableBytes
  | retrieve len => len ≤ b.readableBytes
  | retrieveUntil stop => stop ≤ b.readableBytes
  | unwrite len => len ≤ b.readableBytes
  | hasWritten data => data.length ≤ b.writableBytes
  | shrink _ => b.readableBytes < 2 ^ 31
  | _ => True

instance (b : Buffer) : DecidablePred (Fits b)
  | append _ => inferInstanceAs (Decidable True)
  | prepend data => inferInstanceAs (Decidable (data.length ≤ b.prependableBytes))
  | retrieve len => inferInstanceAs (Decidable (len ≤ b.readableBytes))
  | retrieveUntil stop => inferInstanceAs (Decidable (stop ≤ b.readableBytes))
  | retrieveAll => inferInstanceAs (Decidable True)
  | unwrite len => inferInstanceAs (Decidable (len ≤ b.readableBytes))
  | ensureWritableBytes _ => inferInstanceAs (Decidable True)
  | hasWritten data => inferInstanceAs (Decidable (data.length ≤ b.writableBytes))
  | shrink _ => inferInstanceAs (Decidable (b.readableBytes < 2 ^ 31))
  | readFd _ => inferInstanceAs (Decidable True)

/-- What an operation makes of the bytes in the buffer. A read takes all the socket has, or 64 KiB of
it at least. -/
def Next (c c' : Bytes) : BufferOp → Prop
  | append data => c' = c ++ data
  | prepend data => c' = data ++ c
  | retrieve len => c' = c.drop len
  | retrieveUntil stop => c' = c.drop stop
  | retrieveAll => c' = []
  | unwrite len => c' = c.take (c.length - len)
  | ensureWritableBytes _ => c' = c
  | hasWritten data => c' = c ++ data
  | shrink _ => c' = c
  | readFd (some chunk) => ∃ n, min chunk.length Buffer.extraSize ≤ n ∧ c' = c ++ chunk.take n
  | readFd none => c' = c

/-- Bytes taken from the front make up for bytes put there. -/
def front (c : Bytes) (used : Nat) : BufferOp → Nat
  | prepend data => used + data.length
  | retrieve len => if len < c.length then used - len else 0
  | retrieveUntil stop => if stop < c.length then used - stop else 0
  | retrieveAll => 0
  | shrink _ => 0
  | _ => used

/-- One operation on the queue. -/
structure Moves (q q' : Queue) (op : BufferOp) : Prop where
  bytes : op.Next q.bytes q'.bytes
  used : q'.used = op.front q.bytes q.used

end BufferOp

/-- The buffer has the bytes of the queue, and `kCheapPrepend` bytes of room in front of what was put there. -/
structure Holds (b : Buffer) (q : Queue) : Prop where
  content : b.content = q.bytes
  room : kCheapPrepend ≤ b.prependableBytes + q.used

section
variable {b b' : Buffer} {q : Queue} {op : BufferOp}

/-- The queue that follows, from what has become of the buffer. -/
theorem Holds.moves (hq : Holds b q) (hnext : op.Next b.content b'.content)
    (hroom : kCheapPrepend ≤ b'.prependableBytes + op.front b.content q.used) :
    ∃ q', op.Moves q q' ∧ Holds b' q' := by
  rw [hq.content] at hnext hroom
  exact ⟨⟨b'.content, op.front q.bytes q.used⟩, ⟨hnext, rfl⟩, rfl, hroom⟩

namespace BufferOp

theorem run_retrieve {len : Nat} (hq : Holds b q) (h : len ≤ b.readableBytes) :
    ∃ b', b.retrieve len = .ok b' ∧ b'.content = b.content.drop len ∧
      kCheapPrepend ≤ b'.prependableBytes + if len < b.content.length then q.used - len else 0 := by
  have hroom := hq.room
  obtain ⟨b', hb, hc, hp⟩ := Buffer.retrieve_spec h
  refine ⟨b', hb, hc, ?_⟩
  rw [hp, Buffer.length_content]
  split <;> omega

/-- One operation whose assertions are met. -/
theorem run_spec (hq : Holds b q) (h : op.Fits b) :
    ∃ b', op.run b = .ok b' ∧ ∃ q', op.Moves q q' ∧ Holds b' q' := by
  have hroom := hq.room
  cases op with
  | append data =>
    obtain ⟨b', hb, hc, hp⟩ := b.append_spec data
    exact ⟨b', hb, hq.moves hc (by simp only [front]; omega)⟩
  | prepend data =>
    have hfit : data.length ≤ b.prependableBytes := h
    obtain ⟨b', hb, hc, hp⟩ := Buffer.prepend_spec hfit
    exact ⟨b', hb, hq.moves hc (by simp only [front]; omega)⟩
  | retrieve len =>
    obtain ⟨b', hb, hc, hp⟩ := run_retrieve hq h
    exact ⟨b', hb, hq.moves hc hp⟩
  | retrieveUntil stop =>
    have hfit : stop ≤ b.readableBytes := h
    obtain ⟨b', hb, hc, hp⟩ := run_retrieve hq hfit
    refine ⟨b', ?_, hq.moves hc hp⟩
    rw [run, Buffer.retrieveUntil, if_pos hfit, hb]
  | retrieveAll =>
    exact ⟨_, rfl, hq.moves (Buffer.content_retrieveAll b) (Nat.le_add_right kCheapPrepend 0)⟩
  | unwrite len =>
    obtain ⟨b', hb, hc, hp⟩ := Buffer.unwrite_spec h
    refine ⟨b', hb, hq.moves ?_ (by simp only [front]; omega)⟩
    rw [Next, Buffer.length_content, hc]
  | ensureWritableBytes len =>
    obtain ⟨b', hb, hc, -, hp⟩ := b.ensureWritableBytes_spec len
    exact ⟨b', hb, hq.moves hc (by simp only [front]; omega)⟩
  | hasWritten data =>
    obtain ⟨b', hb, hc, hp, -⟩ := Buffer.write_spec h
    exact ⟨b', hb, hq.moves hc (by simp only [front]; omega)⟩
  | shrink reserve =>
    obtain ⟨b', hb, hc, hp⟩ := Buffer.shrink_spec reserve h
    exact ⟨b', hb, hq.moves hc (by simp only [front]; omega)⟩
  | readFd chunk =>
    cases chunk with
    | none => exact ⟨b, rfl, hq.moves rfl hroom⟩
    | some chunk =>
      obtain ⟨n, b', hb, hn, hc, hp⟩ := b.readFd_spec chunk
      refine ⟨b', ?_, hq.moves ⟨n, hn, hc⟩ (by simp only [front]; omega)⟩
      rw [run, hb]
      rfl

end BufferOp

end

/-- Two buffers: operations on either, and `swap`. -/
inductive BuffersOp
  | this (op : BufferOp)
  | rhs (op : BufferOp)
  | swap

namespace BuffersOp

def run (p : Buffer × Buffer) : BuffersOp → Except Fault (Buffer × Buffer)
  | this op => (op.run p.1).map fun b => (b, p.2)
  | rhs op => (op.run p.2).map fun b => (p.1, b)
  | swap => .ok (p.2, p.1)

def Fits (p : Buffer × Buffer) : BuffersOp → Prop
  | this op => op.Fits p.1
  | rhs op => op.Fits p.2
  | swap => True

instance (p : Buffer × Buffer) : DecidablePred (Fits p)
  | this op => inferInstanceAs (Decidable (op.Fits p.1))
  | rhs op => inferInstanceAs (Decidable (op.Fits p.2))
  | swap => inferInstanceAs (Decidable True)

/-- Every operation is called as its assertions want it, in the state the ones before have left. -/
def AllFit (p : Buffer × Buffer) : List BuffersOp → Prop
  | [] => True
  | op :: ops =>
    op.Fits p ∧ match op.run p with
      | .ok p' => AllFit p' ops
      | .error _ => True

instance AllFit.decidable : ∀ (p : Buffer × Buffer) (ops : List BuffersOp), Decidable (AllFit p ops)
  | _, [] => inferInstanceAs (Decidable True)
  | p, op :: ops =>
    haveI : Decidable (match op.run p with
        | .ok p' => AllFit p' ops
        | .error _ => True) :=
      match op.run p with
      | .ok p' => AllFit.decidable p' ops
      | .error _ => inferInstanceAs (Decidable True)
    inferInstanceAs (Decidable (op.Fits p ∧ match op.run p with
      | .ok p' => AllFit p' ops
      | .error _ => True))

/-- Two queues through a list of operations. -/
inductive Reaches : Queue × Queue → List BuffersOp → Queue × Queue → Prop
  | nil {p : Queue × Queue} : Reaches p [] p
  | this {q q₁ r : Queue} {p : Queue × Queue} {op : BufferOp} {ops : List BuffersOp} (h : op.Moves q q₁)
    (hops : Reaches (q₁, r) ops p) : Reaches (q, r) (.this op :: ops) p
  | rhs {q r r₁ : Queue} {p : Queue × Queue} {op : BufferOp} {ops : List BuffersOp} (h : op.Moves r r₁)
    (hops : Reaches (q, r₁) ops p) : Reaches (q, r) (.rhs op :: ops) p
  | swap {q r : Queue} {p : Queue × Queue} {ops : List BuffersOp} (hops : Reaches (r, q) ops p) :
    Reaches (q, r) (.swap :: ops) p

theorem AllFit.run {p : Buffer × Buffer} {q r : Queue} {ops : List BuffersOp} (hq : Holds p.1 q) (hr : Holds p.2 r)
    (h : AllFit p ops) : ∃ p' s, ops.foldlM BuffersOp.run p = .ok p' ∧ Reaches (q, r) ops s ∧
      Holds p'.1 s.1 ∧ Holds p'.2 s.2 := by
  induction ops generalizing p q r with
  | nil => exact ⟨p, (q, r), rfl, .nil, hq, hr⟩
  | cons op ops ih =>
    obtain ⟨hfit, hrest⟩ := h
    cases op with
    | this op =>
      obtain ⟨b, hb, q₁, hmoves, hq₁⟩ := BufferOp.run_spec hq hfit
      have hrun : BuffersOp.run p (.this op) = .ok (b, p.2) := by rw [BuffersOp.run, hb]; rfl
      rw [hrun] at hrest
      obtain ⟨p', s, hp', hreach, hs⟩ := ih (p := (b, p.2)) hq₁ hr hrest
      exact ⟨p', s, by rw [List.foldlM_cons, hrun, Except.ok_bind, hp'], .this hmoves hreach, hs⟩
    | rhs op =>
      obtain ⟨b, hb, r₁, hmoves, hr₁⟩ := BufferOp.run_spec hr hfit
      have hrun : BuffersOp.run p (.rhs op) = .ok (p.1, b) := by rw [BuffersOp.run, hb]; rfl
      rw [hrun] at hrest
      obtain ⟨p', s, hp', hreach, hs⟩ := ih (p := (p.1, b)) hq hr₁ hrest
      exact ⟨p', s, by rw [List.foldlM_cons, hrun, Except.ok_bind, hp'], .rhs hmoves hreach, hs⟩
    | swap =>
      obtain ⟨p', s, hp', hreach, hs⟩ := ih (p := (p.2, p.1)) hr hq hrest
      exact ⟨p', s, hp', .swap hreach, hs⟩

end BuffersOp

theorem Holds.new (initialSize : Nat) : Holds (Buffer.new initialSize) {} :=
  ⟨Buffer.content_new initialSize, Nat.le_refl _⟩

/-- A header in front of a body, longer than `kCheapPrepend` once there is room for it, and a swap. -/
def headerOps : List BuffersOp :=
  [.this (.append [1, 2, 3, 4, 5, 6, 7, 8, 9]), .this (.retrieveUntil 6), .rhs (.readFd (some [10])),
    .this (.prepend [0, 0, 0, 0, 0, 0, 0, 0, 0, 3]), .swap, .rhs (.retrieve 10), .this (.readFd none),
    .rhs (.unwrite 1), .rhs (.hasWritten [11])]

end IMServer.Net

namespace IMServer.Buffer
open Endian

/-! ### Integers in network order -/

def beBytes (w : Nat) (x : Int) : Bytes := (leBytes w (x % 256 ^ w).toNat).reverse

/-- Two's complement. -/
def ofBE (bs : Bytes) : Int := (ofLE bs.reverse : Int).bmod (256 ^ bs.length)

def appendInt (w : Nat) (b : Buffer) (x : Int) : Except Fault Buffer := b.append (beBytes w x)

def appendInt64 (b : Buffer) (x : Int64) : Except Fault Buffer := b.appendInt 8 x.toInt

def appendInt32 (b : Buffer) (x : Int32) : Except Fault Buffer := b.appendInt 4 x.toInt

def appendInt16 (b : Buffer) (x : Int16) : Except Fault Buffer := b.appendInt 2 x.toInt

def appendInt8 (b : Buffer) (x : Int8) : Except Fault Buffer := b.appendInt 1 x.toInt

def prependInt (w : Nat) (b : Buffer) (x : Int) : Except Fault Buffer := b.prepend (beBytes w x)

def peekInt (w : Nat) (b : Buffer) : Except Fault Int :=
  if w ≤ b.readableBytes then .ok (ofBE (b.content.take w)) else .error .assertion

def readInt (w : Nat) (b : Buffer) : Except Fault (Int × Buffer) := do
  let result ← b.peekInt w
  return (result, ← b.retrieve w)

/-! ### Integers there and back -/

variable {b b' : Buffer}

/-- `x` is a number of `w` bytes. -/
def IntFits (w : Nat) (x : Int) : Prop := -(256 ^ w : Nat) ≤ 2 * x ∧ 2 * x < (256 ^ w : Nat)

@[simp] theorem length_beBytes (w : Nat) (x : Int) : (beBytes w x).length = w := by simp [beBytes]

theorem ofBE_beBytes {w : Nat} {x : Int} (h : IntFits w x) : ofBE (beBytes w x) = x := by
  obtain ⟨hlow, hhigh⟩ := h
  have hpos : (0 : Int) < (256 ^ w : Nat) := Int.natCast_pos.2 (Nat.pow_pos (by decide))
  have hcast : ((256 : Int) ^ w) = (256 ^ w : Nat) := by push_cast; rfl
  have hmod := Int.emod_nonneg x (Int.ne_of_gt hpos)
  have hlt := Int.emod_lt_of_pos x hpos
  have hself : (((x % 256 ^ w).toNat % 256 ^ w : Nat) : Int) = x % (256 ^ w : Nat) := by
    rw [hcast, Int.natCast_emod, Int.toNat_of_nonneg hmod, Int.emod_eq_of_lt hmod hlt]
  rw [ofBE, length_beBytes, beBytes, List.reverse_reverse, ofLE_leBytes, hself, Int.emod_bmod]
  exact Int.bmod_eq_of_le (by omega) (by omega)

/-- A number at the front is read and gone. -/
theorem readInt_spec {w : Nat} {x : Int} {rest : Bytes} (h : IntFits w x) (hc : b.content = beBytes w x ++ rest) :
    ∃ b', b.readInt w = .ok (x, b') ∧ b'.content = rest := by
  have hle : w ≤ b.readableBytes := by
    rw [← length_content, hc, List.length_append, length_beBytes]
    omega
  obtain ⟨b', hb, hc', -⟩ := retrieve_spec hle
  refine ⟨b', ?_, by rw [hc', hc, List.drop_left' (length_beBytes w x)]⟩
  rw [readInt, peekInt, if_pos hle, Except.ok_bind, hb, hc, List.take_left' (length_beBytes w x), ofBE_beBytes h]
  rfl

/-- Numbers with their widths, one after the other. -/
def appendInts (b : Buffer) (xs : List (Nat × Int)) : Except Fault Buffer :=
  xs.foldlM (fun b x => b.appendInt x.1 x.2) b

def readInts (b : Buffer) : List Nat → Except Fault (List Int × Buffer)
  | [] => .ok ([], b)
  | w :: ws => do
    let (x, b) ← b.readInt w
    let (xs, b) ← b.readInts ws
    return (x :: xs, b)

def intsBytes (xs : List (Nat × Int)) : Bytes := xs.flatMap fun x => beBytes x.1 x.2

theorem appendInts_spec (xs : List (Nat × Int)) (hroom : kCheapPrepend ≤ b.prependableBytes) :
    ∃ b', b.appendInts xs = .ok b' ∧ b'.content = b.content ++ intsBytes xs ∧
      kCheapPrepend ≤ b'.prependableBytes := by
  induction xs generalizing b with
  | nil => exact ⟨b, rfl, (List.append_nil _).symm, hroom⟩
  | cons x xs ih =>
    obtain ⟨b₁, h₁, hc₁, hp₁⟩ := b.append_spec (beBytes x.1 x.2)
    obtain ⟨b', h', hc', hp'⟩ := ih (b := b₁) (by omega)
    refine ⟨b', ?_, ?_, hp'⟩
    · rw [appendInts, List.foldlM_cons, appendInt, h₁, Except.ok_bind]
      exact h'
    · rw [hc', hc₁, List.append_assoc]
      rfl

theorem readInts_spec {xs : List (Nat × Int)} {rest : Bytes} (h : ∀ x ∈ xs, IntFits x.1 x.2)
    (hc : b.content = intsBytes xs ++ rest) :
    ∃ b', b.readInts (xs.map Prod.fst) = .ok (xs.map Prod.snd, b') ∧ b'.content = rest := by
  induction xs generalizing b with
  | nil => exact ⟨b, rfl, hc⟩
  | cons x xs ih =>
    obtain ⟨hx, hxs⟩ := List.forall_mem_cons.1 h
    rw [intsBytes, List.flatMap_cons, List.append_assoc] at hc
    obtain ⟨b₁, h₁, hc₁⟩ := readInt_spec hx hc
    obtain ⟨b', h', hc'⟩ := ih hxs hc₁
    refine ⟨b', ?_, hc'⟩
    rw [List.map_cons, List.map_cons, readInts, h₁, Except.ok_bind]
    dsimp only
    rw [h', Except.ok_bind]
    rfl

end IMServer.Buffer

namespace IMServer.Net

/-- Numbers appended to any buffer and a header put in front come out as they went in, whatever widths
they have; what was in the buffer before stands between them. -/
theorem ints_round_trip (b : Buffer) (header : Nat × Int) (xs : List (Nat × Int))
    (hroom : kCheapPrepend ≤ b.prependableBytes) (hwidth : header.1 ≤ kCheapPrepend)
    (hxs : ∀ x ∈ header :: xs, Buffer.IntFits x.1 x.2) :
    ∃ b₁ b₂ b₃ b₄ b₅, b.appendInts xs = .ok b₁ ∧ b₁.prependInt header.1 header.2 = .ok b₂ ∧
      b₂.readInt header.1 = .ok (header.2, b₃) ∧ b₃.retrieveAsString b.readableBytes = .ok (b.content, b₄) ∧
      b₄.readInts (xs.map Prod.fst) = .ok (xs.map Prod.snd, b₅) ∧ b₅.content = [] := by
  obtain ⟨hheader, hxs⟩ := List.forall_mem_cons.1 hxs
  obtain ⟨b₁, h₁, hc₁, hp₁⟩ := Buffer.appendInts_spec xs hroom
  have hfront : (Buffer.beBytes header.1 header.2).length ≤ b₁.prependableBytes := by
    rw [Buffer.length_beBytes]
    omega
  obtain ⟨b₂, h₂, hc₂, -⟩ := Buffer.prepend_spec hfront
  obtain ⟨b₃, h₃, hc₃⟩ := Buffer.readInt_spec hheader hc₂
  have hle : b.readableBytes ≤ b₃.readableBytes := by
    rw [← Buffer.length_content b₃, hc₃, hc₁, List.length_append, Buffer.length_content]
    omega
  obtain ⟨b₄, h₄, hc₄, -⟩ := Buffer.retrieve_spec hle
  have hbody : b₃.content.take b.readableBytes = b.content := by
    rw [hc₃, hc₁, List.take_left' (Buffer.length_content b)]
  have hrest : b₄.content = Buffer.intsBytes xs ++ [] := by
    rw [hc₄, hc₃, hc₁, List.drop_left' (Buffer.length_content b), List.append_nil]
  obtain ⟨b₅, h₅, hc₅⟩ := Buffer.readInts_spec hxs hrest
  refine ⟨b₁, b₂, b₃, b₄, b₅, h₁, h₂, h₃, ?_, h₅, hc₅⟩
  rw [Buffer.retrieveAsString, if_pos hle, h₄, hbody]
  rfl

/-- `hi`, a 16 and a 64 bit number behind it and a 32 bit number in front. -/
theorem ints_round_trip_hi :
    let b : Buffer := ⟨List.replicate 8 0 ++ [104, 105], 8, 10, by decide, by decide, by decide⟩
    ∃ b₁ b₂ b₃ b₄ b₅, b.appendInts [(2, -5), (8, 2 ^ 40)] = .ok b₁ ∧ b₁.prependInt 4 12 = .ok b₂ ∧
      b₂.readInt 4 = .ok (12, b₃) ∧ b₃.retrieveAsString 2 = .ok ([104, 105], b₄) ∧
      b₄.readInts [2, 8] = .ok ([-5, 2 ^ 40], b₅) ∧ b₅.content = [] :=
  ints_round_trip ⟨List.replicate 8 0 ++ [104, 105], 8, 10, by decide, by decide, by decide⟩ (4, 12)
    [(2, -5), (8, 2 ^ 40)] (by decide) (by decide) (by simp [Buffer.IntFits])

end IMServer.Net
