import IMServer.Basic
import IMServer.Lib.Run

/-!
# `muduo::net::Buffer`

A vector whose readable bytes lie between `readerIndex` and `writerIndex`. `content` reads it as a byte
queue: bytes are added at the back and put in front, taken from the front and taken back from the end, and
`readFd` reads past the end of the vector into a buffer on the stack. Each operation has its specification
over `content` and the room in front.
-/

namespace IMServer

/-- `std::copy` of `data` to the position `pos` of a vector that has room for it. -/
def overwrite (v : Bytes) (pos : Nat) (data : Bytes) : Bytes :=
  v.take pos ++ data ++ v.drop (pos + data.length)

def resize (v : Bytes) (n : Nat) : Bytes := v.take n ++ List.replicate (n - v.length) 0

@[simp] theorem length_resize (v : Bytes) (n : Nat) : (resize v n).length = n := by
  simp only [resize, List.length_append, List.length_take, List.length_replicate]
  omega

theorem length_overwrite {v data : Bytes} {pos : Nat} (h : pos + data.length ≤ v.length) :
    (overwrite v pos data).length = v.length := by
  simp only [overwrite, List.length_append, List.length_take, List.length_drop]
  omega

def kCheapPrepend : Nat := 8

def kInitialSize : Nat := 1024

structure Buffer where
  buffer : Bytes
  readerIndex : Nat
  writerIndex : Nat
  cheap_le : kCheapPrepend ≤ buffer.length
  reader_le : readerIndex ≤ writerIndex
  writer_le : writerIndex ≤ buffer.length

namespace Buffer

def new (initialSize : Nat) : Buffer where
  buffer := List.replicate (kCheapPrepend + initialSize) 0
  readerIndex := kCheapPrepend
  writerIndex := kCheapPrepend
  cheap_le := by simp
  reader_le := Nat.le_refl _
  writer_le := by simp

/-- The buffer of a connection when it is made. -/
def empty : Buffer := new kInitialSize

def readableBytes (b : Buffer) : Nat := b.writerIndex - b.readerIndex

def writableBytes (b : Buffer) : Nat := b.buffer.length - b.writerIndex

def prependableBytes (b : Buffer) : Nat := b.readerIndex

/-- `len` bytes from `peek()` on. -/
def peek (b : Buffer) (len : Nat) : Bytes := (b.buffer.drop b.readerIndex).take len

/-- The bytes from `peek()` to `beginWrite()`. -/
def content (b : Buffer) : Bytes := (b.buffer.take b.writerIndex).drop b.readerIndex

def retrieveAll (b : Buffer) : Buffer where
  buffer := b.buffer
  readerIndex := kCheapPrepend
  writerIndex := kCheapPrepend
  cheap_le := b.cheap_le
  reader_le := Nat.le_refl _
  writer_le := b.cheap_le

def retrieve (b : Buffer) (len : Nat) : Except Fault Buffer :=
  if len ≤ b.readableBytes then
    if h : len < b.readableBytes then
      .ok { b with
        readerIndex := b.readerIndex + len
        reader_le := by unfold readableBytes at h; omega }
    else .ok b.retrieveAll
  else .error .assertion

/-- `retrieveUntil(peek() + stop)` -/
def retrieveUntil (b : Buffer) (stop : Nat) : Except Fault Buffer :=
  if stop ≤ b.readableBytes then b.retrieve stop else .error .assertion

def retrieveAsString (b : Buffer) (len : Nat) : Except Fault (Bytes × Buffer) :=
  if len ≤ b.readableBytes then (b.retrieve len).map fun b' => (b.content.take len, b') else .error .assertion

def retrieveAllAsString (b : Buffer) : Except Fault (Bytes × Buffer) := b.retrieveAsString b.readableBytes

/-- It is only called when there is not room enough. -/
def makeSpace (b : Buffer) (len : Nat) (h : b.writableBytes < len) : Except Fault Buffer :=
  if b.writableBytes + b.prependableBytes < len + kCheapPrepend then
    .ok { b with
      buffer := resize b.buffer (b.writerIndex + len)
      cheap_le := by
        have := b.cheap_le
        unfold writableBytes at h
        rw [length_resize]
        omega
      writer_le := by simp }
  else if kCheapPrepend < b.readerIndex then
    -- the readable bytes move to the front
    .ok {
      buffer := overwrite b.buffer kCheapPrepend b.content
      readerIndex := kCheapPrepend
      writerIndex := kCheapPrepend + b.readableBytes
      cheap_le := by
        simp only [overwrite, List.length_append, List.length_take]
        have := b.cheap_le
        omega
      reader_le := Nat.le_add_right _ _
      writer_le := by
        have := b.reader_le; have := b.writer_le; have := b.cheap_le
        simp only [overwrite, content, readableBytes, List.length_append, List.length_take, List.length_drop]
        omega }
  else .error .assertion

def ensureWritableBytes (b : Buffer) (len : Nat) : Except Fault Buffer :=
  (if h : b.writableBytes < len then b.makeSpace len h else .ok b) >>= fun b' =>
    if len ≤ b'.writableBytes then .ok b' else .error .assertion

/-- `data` is put behind `beginWrite()`, and `hasWritten` told so. -/
def write (b : Buffer) (data : Bytes) : Except Fault Buffer :=
  if h : data.length ≤ b.writableBytes then
    .ok { b with
      buffer := overwrite b.buffer b.writerIndex data
      writerIndex := b.writerIndex + data.length
      cheap_le := by
        have := b.cheap_le; have := b.writer_le
        unfold writableBytes at h
        rw [length_overwrite (by omega)]
        exact b.cheap_le
      reader_le := Nat.le_trans b.reader_le (Nat.le_add_right _ _)
      writer_le := by
        have := b.writer_le
        unfold writableBytes at h
        rw [length_overwrite (by omega)]
        omega }
  else .error .assertion

def append (b : Buffer) (data : Bytes) : Except Fault Buffer := do (← b.ensureWritableBytes data.length).write data

def unwrite (b : Buffer) (len : Nat) : Except Fault Buffer :=
  if h : len ≤ b.readableBytes then
    .ok { b with
      writerIndex := b.writerIndex - len
      reader_le := by have := b.reader_le; unfold readableBytes at h; omega
      writer_le := Nat.le_trans (Nat.sub_le _ _) b.writer_le }
  else .error .assertion

def prepend (b : Buffer) (data : Bytes) : Except Fault Buffer :=
  if h : data.length ≤ b.prependableBytes then
    .ok { b with
      buffer := overwrite b.buffer (b.readerIndex - data.length) data
      readerIndex := b.readerIndex - data.length
      cheap_le := by
        have := b.reader_le; have := b.writer_le
        unfold prependableBytes at h
        rw [length_overwrite (by omega)]
        exact b.cheap_le
      reader_le := Nat.le_trans (Nat.sub_le _ _) b.reader_le
      writer_le := by
        have := b.reader_le; have := b.writer_le
        unfold prependableBytes at h
        rw [length_overwrite (by omega)]
        exact b.writer_le }
  else .error .assertion

/-- `toStringPiece` counts in an `int`; with a negative length `append` asks for more than a vector
can hold. -/
def shrink (b : Buffer) (reserve : Nat) : Except Fault Buffer := do
  let other ← (new kInitialSize).ensureWritableBytes (b.readableBytes + reserve)
  if (Int32.ofNat b.readableBytes).toInt < 0 then .error .lengthError
  else other.append (b.content.take (Int32.ofNat b.readableBytes).toInt.toNat)

/-- `sizeof extrabuf` -/
def extraSize : Nat := 65536

/-- The room `readv` is given. -/
def readRoom (b : Buffer) : Nat := if b.writableBytes < extraSize then b.writableBytes + extraSize else b.writableBytes

/-- `readFd` on a socket that has `chunk`: the bytes that are read, and the buffer. -/
def readFd (b : Buffer) (chunk : Bytes) : Except Fault (Bytes × Buffer) := do
  let data := chunk.take b.readRoom
  -- what there is room for is read into the vector itself
  let b' ← b.write (data.take b.writableBytes)
  if data.length ≤ b.writableBytes then return (data, b')
  else return (data, ← b'.append (data.drop b.writableBytes))

/-! ### One operation at a time -/

variable {b b' : Buffer}

@[simp] theorem length_content (b : Buffer) : b.content.length = b.readableBytes := by
  have := b.writer_le
  simp only [content, readableBytes, List.length_drop, List.length_take]
  omega

@[simp] theorem content_new (n : Nat) : (new n).content = [] := by
  refine List.eq_nil_of_length_eq_zero ?_
  rw [length_content]
  exact Nat.sub_self _

@[simp] theorem content_empty : empty.content = [] := content_new _

theorem peek_eq_take (b : Buffer) {len : Nat} (h : len ≤ b.readableBytes) : b.peek len = b.content.take len := by
  unfold readableBytes at h
  rw [content, peek, List.drop_take, List.take_take, Nat.min_eq_left h]

@[simp] theorem content_retrieveAll (b : Buffer) : b.retrieveAll.content = [] := by
  refine List.eq_nil_of_length_eq_zero ?_
  rw [length_content]
  exact Nat.sub_self _

/-- What is left lies further behind; the last byte taken makes the front whole again. -/
theorem retrieve_spec {len : Nat} (h : len ≤ b.readableBytes) :
    ∃ b', b.retrieve len = .ok b' ∧ b'.content = b.content.drop len ∧
      b'.prependableBytes = if len < b.readableBytes then b.prependableBytes + len else kCheapPrepend := by
  unfold retrieve
  rw [if_pos h]
  split
  · refine ⟨_, rfl, ?_, rfl⟩
    rw [content, content, List.drop_drop]
  · next hlt =>
    refine ⟨_, rfl, ?_, rfl⟩
    rw [content_retrieveAll, List.drop_eq_nil_of_le (by rw [length_content]; omega)]

theorem makeSpace_spec {len : Nat} (h : b.writableBytes < len) :
    ∃ b', b.makeSpace len h = .ok b' ∧ b'.content = b.content ∧ len ≤ b'.writableBytes ∧
      (b'.prependableBytes = b.prependableBytes ∨ b'.prependableBytes = kCheapPrepend) := by
  have h₁ := b.reader_le
  have h₂ := b.writer_le
  have h₃ := b.cheap_le
  have hroom := h
  unfold writableBytes at hroom
  unfold makeSpace
  split
  · refine ⟨_, rfl, ?_, by simp [writableBytes], .inl rfl⟩
    simp only [content, resize]
    rw [List.take_append_of_le_length (by rw [List.length_take]; omega), List.take_take,
      Nat.min_eq_left (by omega)]
  · next hfront =>
    unfold writableBytes prependableBytes at hfront
    rw [if_pos (by omega)]
    refine ⟨_, rfl, ?_, ?_, .inr rfl⟩
    · have hk : (b.buffer.take kCheapPrepend).length = kCheapPrepend := by
        rw [List.length_take]
        omega
      have hlen : (b.buffer.take kCheapPrepend ++ b.content).length = kCheapPrepend + b.readableBytes := by
        rw [List.length_append, hk, length_content]
      rw [content]
      dsimp only
      rw [overwrite, List.take_left' hlen, List.drop_left' hk]
    · have hlen : kCheapPrepend + b.content.length ≤ b.buffer.length := by
        rw [length_content]
        unfold readableBytes
        omega
      show len ≤ (overwrite b.buffer kCheapPrepend b.content).length - (kCheapPrepend + (b.writerIndex - b.readerIndex))
      rw [length_overwrite hlen]
      omega

/-- Room is made at the end, and no more is taken from the front than what `retrieve` has left there. -/
theorem ensureWritableBytes_spec (b : Buffer) (len : Nat) :
    ∃ b', b.ensureWritableBytes len = .ok b' ∧ b'.content = b.content ∧ len ≤ b'.writableBytes ∧
      (b'.prependableBytes = b.prependableBytes ∨ b'.prependableBytes = kCheapPrepend) := by
  unfold ensureWritableBytes
  by_cases h : b.writableBytes < len
  · obtain ⟨b₁, h₁, hc, hw, hp⟩ := makeSpace_spec h
    refine ⟨b₁, ?_, hc, hw, hp⟩
    rw [dif_pos h, h₁]
    exact if_pos hw
  · refine ⟨b, ?_, rfl, Nat.le_of_not_lt h, .inl rfl⟩
    rw [dif_neg h]
    exact if_pos (Nat.le_of_not_lt h)

theorem write_spec {data : Bytes} (h : data.length ≤ b.writableBytes) :
    ∃ b', b.write data = .ok b' ∧ b'.content = b.content ++ data ∧ b'.prependableBytes = b.prependableBytes ∧
      b'.writableBytes = b.writableBytes - data.length := by
  have h₁ := b.reader_le
  have h₂ := b.writer_le
  have hroom := h
  unfold writableBytes at hroom
  refine ⟨_, dif_pos h, ?_, rfl, ?_⟩
  · have hw : (b.buffer.take b.writerIndex).length = b.writerIndex := by
      rw [List.length_take]
      omega
    have hlen : (b.buffer.take b.writerIndex ++ data).length = b.writerIndex + data.length := by
      rw [List.length_append, hw]
    rw [content]
    dsimp only
    rw [overwrite, List.take_left' hlen, List.drop_append_of_le_length (by omega)]
    rfl
  · rw [writableBytes, writableBytes]
    dsimp only
    rw [length_overwrite (by omega)]
    omega

theorem append_spec (b : Buffer) (data : Bytes) :
    ∃ b', b.append data = .ok b' ∧ b'.content = b.content ++ data ∧
      (b'.prependableBytes = b.prependableBytes ∨ b'.prependableBytes = kCheapPrepend) := by
  obtain ⟨b₁, h₁, hc₁, hw, hp₁⟩ := b.ensureWritableBytes_spec data.length
  obtain ⟨b₂, h₂, hc₂, hp₂, -⟩ := write_spec hw
  refine ⟨b₂, ?_, by rw [hc₂, hc₁], by rwa [hp₂]⟩
  rw [append, h₁, Except.ok_bind, h₂]

theorem unwrite_spec {len : Nat} (h : len ≤ b.readableBytes) :
    ∃ b', b.unwrite len = .ok b' ∧ b'.content = b.content.take (b.readableBytes - len) ∧
      b'.prependableBytes = b.prependableBytes := by
  have h₁ := b.reader_le
  refine ⟨_, dif_pos h, ?_, rfl⟩
  rw [content, content]
  dsimp only
  unfold readableBytes
  rw [List.take_drop, List.take_take, Nat.min_eq_left (by omega)]
  congr 2
  unfold readableBytes at h
  omega

theorem prepend_spec {data : Bytes} (h : data.length ≤ b.prependableBytes) :
    ∃ b', b.prepend data = .ok b' ∧ b'.content = data ++ b.content ∧
      b'.prependableBytes = b.prependableBytes - data.length := by
  have h₁ := b.reader_le
  have h₂ := b.writer_le
  have hfront := h
  unfold prependableBytes at hfront
  refine ⟨_, dif_pos h, ?_, rfl⟩
  have hlen : (b.buffer.take (b.readerIndex - data.length)).length = b.readerIndex - data.length := by
    rw [List.length_take]
    omega
  rw [content]
  dsimp only
  rw [overwrite, Nat.sub_add_cancel hfront, List.append_assoc, List.take_append, hlen,
    List.take_take, Nat.min_eq_right (by omega), List.drop_left' hlen, List.take_append,
    List.take_of_length_le (by omega), List.take_drop]
  congr 3
  omega

theorem readFd_spec (b : Buffer) (chunk : Bytes) :
    ∃ n b', b.readFd chunk = .ok (chunk.take n, b') ∧ min chunk.length extraSize ≤ n ∧
      b'.content = b.content ++ chunk.take n ∧
      (b'.prependableBytes = b.prependableBytes ∨ b'.prependableBytes = kCheapPrepend) := by
  have hroom : extraSize ≤ b.readRoom := by
    unfold readRoom
    split <;> omega
  have hfits : ((chunk.take b.readRoom).take b.writableBytes).length ≤ b.writableBytes := by
    rw [List.length_take]
    omega
  obtain ⟨b₁, h₁, hc₁, hp₁, hw₁⟩ := write_spec hfits
  refine ⟨b.readRoom, ?_⟩
  unfold readFd
  dsimp only
  rw [h₁, Except.ok_bind]
  split
  · next hle =>
    refine ⟨b₁, rfl, by omega, ?_, .inl hp₁⟩
    rw [hc₁, List.take_of_length_le hle]
  · obtain ⟨b₂, h₂, hc₂, hp₂⟩ := b₁.append_spec ((chunk.take b.readRoom).drop b.writableBytes)
    refine ⟨b₂, ?_, by omega, ?_, by rwa [hp₁] at hp₂⟩
    · rw [h₂]
      rfl
    · rw [hc₂, hc₁, List.append_assoc, List.take_append_drop]

theorem shrink_spec (reserve : Nat) (h : b.readableBytes < 2 ^ 31) :
    ∃ b', b.shrink reserve = .ok b' ∧ b'.content = b.content ∧ b'.prependableBytes = kCheapPrepend := by
  have hint := Int32.toInt_ofNat_of_lt h
  obtain ⟨b₁, h₁, hc₁, -, hp₁⟩ := (new kInitialSize).ensureWritableBytes_spec (b.readableBytes + reserve)
  obtain ⟨b₂, h₂, hc₂, hp₂⟩ := b₁.append_spec b.content
  have hp₁ : b₁.prependableBytes = kCheapPrepend := hp₁.elim id id
  refine ⟨b₂, ?_, by rw [hc₂, hc₁, content_new, List.nil_append], ?_⟩
  · rw [shrink, h₁, Except.ok_bind, if_neg (by omega), hint, Int.toNat_natCast, ← length_content, List.take_length, h₂]
  · rcases hp₂ with hp | hp
    · rw [hp, hp₁]
    · exact hp

end Buffer

end IMServer
