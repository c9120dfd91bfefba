import IMServer.Buffer
import IMServer.Lib.Deframer

/-!
# The framing loop of `ClientSession::onRead`

A message on the wire is a 4-byte length and that many bytes. `onReadIter` is one turn of the loop
up to the call of `process`, `onRead` the loop itself, for any `process` (it sees the message and
the session, never the buffer). On the buffer's content the loop is the deframer `wire`
(`onRead_refines`), so what it delivers does not depend on the segmentation of the stream.
-/

namespace IMServer
open Endian

/-- `std::string::max_size()`. -/
def maxSize : Nat := 2 ^ 63 - 1

def assign (buf : Buffer) (n : Nat) : Except Fault Bytes :=
  if maxSize < n then .error .lengthError
  else if buf.readerIndex + n ≤ buf.buffer.length then .ok (buf.peek n)
  else .error .outOfBounds

/-- One turn of the loop: `none` when it returns, else the message for `process` and the buffer
after it. `sizeof(int32_t) + packgeSize` is computed in `size_t`. -/
def onReadIter (buf : Buffer) : Except Fault (Option (Bytes × Buffer)) :=
  if 4 ≤ buf.readableBytes then
    let packgeSize := int32OfBytes (buf.peek 4)
    if buf.readableBytes < (4 + toSize packgeSize) % 2 ^ 64 then .ok none
    else do
      let buf ← buf.retrieve 4
      let msg ← assign buf (toSize packgeSize)
      let buf ← buf.retrieve (toSize packgeSize)
      return some (msg, buf)
  else .ok none

def header (xs : Bytes) : Int32 := int32OfBytes (xs.take 4)

def pull (xs : Bytes) : Pull Fault UInt8 Bytes :=
  if 4 ≤ xs.length then
    if xs.length < (4 + toSize (header xs)) % 2 ^ 64 then .wait
    else if (header xs).toInt < 0 then .fail .lengthError
    else .frame ((xs.drop 4).take (header xs).toInt.toNat) (xs.drop (4 + (header xs).toInt.toNat))
  else .wait

/-! ### Headers -/

section
variable {xs : Bytes}

theorem header_append (ys : Bytes) (h : 4 ≤ xs.length) : header (xs ++ ys) = header xs := by
  rw [header, header, List.take_append_of_le_length h]

theorem toInt_header_lt (xs : Bytes) : (header xs).toInt < 2 ^ 31 := Int32.toInt_lt _

theorem need_of_nonneg (h : 0 ≤ (header xs).toInt) :
    (4 + toSize (header xs)) % 2 ^ 64 = 4 + (header xs).toInt.toNat := by
  have := toInt_header_lt xs
  rw [toSize_of_nonneg h]
  omega

theorem maxSize_lt_of_neg {i : Int32} (h : i.toInt < 0) : maxSize < toSize i := by
  have := Int32.le_toInt i
  rw [toSize_of_neg h, maxSize]
  omega

theorem pull_frame {m r : Bytes} (h : pull xs = .frame m r) :
    4 ≤ xs.length ∧ 0 ≤ (header xs).toInt ∧ 4 + (header xs).toInt.toNat ≤ xs.length ∧
      m = (xs.drop 4).take (header xs).toInt.toNat ∧ r = xs.drop (4 + (header xs).toInt.toNat) := by
  unfold pull at h
  split at h
  · next h4 =>
    split at h
    · cases h
    · next hlen =>
      split at h
      · cases h
      · next hneg =>
        rw [need_of_nonneg (by omega)] at hlen
        cases h
        exact ⟨h4, by omega, by omega, rfl, rfl⟩
  · cases h

theorem pull_fail {e : Fault} (h : pull xs = .fail e) :
    4 ≤ xs.length ∧ (4 + toSize (header xs)) % 2 ^ 64 ≤ xs.length ∧ (header xs).toInt < 0 ∧
      e = .lengthError := by
  unfold pull at h
  split at h
  · next h4 =>
    split at h
    · cases h
    · next hlen =>
      split at h
      · next hneg => cases h; exact ⟨h4, by omega, hneg, rfl⟩
      · cases h
  · cases h

theorem pull_of_nonneg (h4 : 4 ≤ xs.length) (h0 : 0 ≤ (header xs).toInt)
    (hlen : 4 + (header xs).toInt.toNat ≤ xs.length) :
    pull xs = .frame ((xs.drop 4).take (header xs).toInt.toNat)
      (xs.drop (4 + (header xs).toInt.toNat)) := by
  rw [pull, if_pos h4, if_neg (by rw [need_of_nonneg h0]; omega), if_neg (by omega)]

theorem pull_wait (h : pull xs = .wait) (h4 : 4 ≤ xs.length) :
    xs.length < (4 + toSize (header xs)) % 2 ^ 64 := by
  unfold pull at h
  rw [if_pos h4] at h
  split at h
  · assumption
  · split at h <;> cases h

end

def wire : Deframer Fault UInt8 Bytes where
  pull := pull
  rest_lt h := by
    obtain ⟨h4, -, hlen, -, rfl⟩ := pull_frame h
    rw [List.length_drop]
    omega
  frame_append {xs m r} ys h := by
    obtain ⟨h4, h0, hlen, rfl, rfl⟩ := pull_frame h
    rw [pull_of_nonneg (by rw [List.length_append]; omega) (by rwa [header_append ys h4])
      (by rw [header_append ys h4, List.length_append]; omega), header_append ys h4,
      List.drop_append_of_le_length h4,
      List.take_append_of_le_length (by rw [List.length_drop]; omega),
      List.drop_append_of_le_length hlen]
  fail_append {xs e} ys h := by
    obtain ⟨h4, hlen, hneg, rfl⟩ := pull_fail h
    rw [pull, header_append ys h4, if_pos (by rw [List.length_append]; omega),
      if_neg (by rw [List.length_append]; omega), if_pos hneg]

theorem wire_pull (xs : Bytes) : wire.pull xs = pull xs := rfl

/-! ### One turn of the loop is one pull -/

section
variable {buf : Buffer}

theorem header_content (h : 4 ≤ buf.readableBytes) : int32OfBytes (buf.peek 4) = header buf.content := by
  rw [header, buf.peek_eq_take h]

theorem assign_of_le {n : Nat} (hn : n ≤ buf.readableBytes) (hm : n ≤ maxSize) :
    assign buf n = .ok (buf.content.take n) := by
  have h₂ := buf.reader_le
  have h₃ := buf.writer_le
  have hn' : n ≤ buf.writerIndex - buf.readerIndex := hn
  rw [assign, if_neg (by omega), if_pos (by omega), buf.peek_eq_take hn]

theorem onReadIter_wait (h : wire.pull buf.content = .wait) : onReadIter buf = .ok none := by
  unfold onReadIter
  split
  · next h4 =>
    have hlt := pull_wait h (by simpa using h4)
    rw [Buffer.length_content, ← header_content h4] at hlt
    exact if_pos hlt
  · rfl

theorem onReadIter_frame {m r : Bytes} (h : wire.pull buf.content = .frame m r) :
    ∃ buf', onReadIter buf = .ok (some (m, buf')) ∧ buf'.content = r := by
  obtain ⟨h4, h0, hlen, rfl, rfl⟩ := pull_frame h
  have hn := need_of_nonneg h0
  have hlt := toInt_header_lt buf.content
  rw [Buffer.length_content] at h4 hlen
  obtain ⟨b₁, hb₁, hc₁, -⟩ := Buffer.retrieve_spec h4
  have hr₁ : b₁.readableBytes = buf.readableBytes - 4 := by
    rw [← b₁.length_content, hc₁, List.length_drop, Buffer.length_content]
  have hle : (header buf.content).toInt.toNat ≤ b₁.readableBytes := by omega
  obtain ⟨b₂, hb₂, hc₂, -⟩ := Buffer.retrieve_spec hle
  refine ⟨b₂, ?_, by rw [hc₂, hc₁, List.drop_drop]⟩
  unfold onReadIter
  rw [if_pos h4]
  simp only [header_content h4]
  rw [if_neg (by omega), toSize_of_nonneg h0, hb₁]
  simp only [bind, Except.bind]
  rw [assign_of_le (by omega) (by unfold maxSize; omega), hc₁]
  simp only [hb₂]
  rfl

theorem onReadIter_fail {e : Fault} (h : wire.pull buf.content = .fail e) :
    onReadIter buf = .error e := by
  obtain ⟨h4, hlen, hneg, rfl⟩ := pull_fail h
  rw [Buffer.length_content] at h4 hlen
  obtain ⟨b₁, hb₁, hc₁, -⟩ := Buffer.retrieve_spec h4
  unfold onReadIter
  rw [if_pos h4]
  simp only [header_content h4]
  rw [if_neg (by omega), hb₁]
  simp only [bind, Except.bind]
  rw [assign, if_pos (maxSize_lt_of_neg hneg)]

theorem onReadIter_lt {m : Bytes} {buf' : Buffer} (h : onReadIter buf = .ok (some (m, buf'))) :
    buf'.readableBytes < buf.readableBytes := by
  cases hp : wire.pull buf.content with
  | wait => rw [onReadIter_wait hp] at h; cases h
  | fail e => rw [onReadIter_fail hp] at h; cases h
  | frame m' r =>
    obtain ⟨b, hb, hc⟩ := onReadIter_frame hp
    rw [hb] at h
    cases h
    have := wire.rest_lt hp
    rwa [← hc, Buffer.length_content, Buffer.length_content] at this

end

section
variable {σ : Type}

/-- `ClientSession::onRead`: `process` returns the session and whether it accepted the message, which
only decides about a line on the console. -/
def onRead (process : σ → Bytes → Except Fault (σ × Bool)) (s : σ) (buf : Buffer) :
    Except Fault (σ × Buffer) :=
  match h : onReadIter buf with
  | .error e => .error e
  | .ok none => .ok (s, buf)
  | .ok (some (msg, buf')) =>
    have := onReadIter_lt h
    match process s msg with
    | .ok (s', _) => onRead process s' buf'
    | .error e => .error e
termination_by buf.readableBytes

variable {process : σ → Bytes → Except Fault (σ × Bool)} {s : σ} {buf : Buffer}

theorem onRead_none (h : onReadIter buf = .ok none) : onRead process s buf = .ok (s, buf) := by
  rw [onRead]
  split
  · next h' => rw [h] at h'; cases h'
  · rfl
  · next h' => rw [h] at h'; cases h'

theorem onRead_error {e : Fault} (h : onReadIter buf = .error e) : onRead process s buf = .error e := by
  rw [onRead]
  split
  · next h' => rw [h] at h'; cases h'; rfl
  · next h' => rw [h] at h'; cases h'
  · next h' => rw [h] at h'; cases h'

theorem onRead_some {m : Bytes} {buf' : Buffer} (h : onReadIter buf = .ok (some (m, buf'))) :
    onRead process s buf = process s m >>= fun p => onRead process p.1 buf' := by
  rw [onRead]
  split
  · next h' => rw [h] at h'; cases h'
  · next h' => rw [h] at h'; cases h'
  · next h' =>
    rw [h] at h'
    cases h'
    cases process s m <;> rfl

/-- On the content of the buffer the loop delivers the frames of `wire` to `process`. -/
theorem onRead_refines (process : σ → Bytes → Except Fault (σ × Bool)) (s : σ) (buf : Buffer) :
    (onRead process s buf).map (fun p => (p.1, p.2.content)) =
      wire.deliver (fun s m => (process s m).map Prod.fst) s buf.content := by
  generalize hxs : buf.content = xs
  induction xs using wire.deliver_induct generalizing s buf with
  | wait xs hp =>
    subst hxs
    rw [Deframer.deliver_wait hp, onRead_none (onReadIter_wait hp)]
    rfl
  | frame xs m r hp ih =>
    subst hxs
    obtain ⟨buf', hb, hc⟩ := onReadIter_frame hp
    rw [Deframer.deliver_frame hp, onRead_some hb]
    cases process s m with
    | error e => rfl
    | ok p => exact ih p.1 buf' hc
  | fail xs e hp =>
    subst hxs
    rw [Deframer.deliver_fail hp, onRead_error (onReadIter_fail hp)]
    rfl

end

end IMServer
