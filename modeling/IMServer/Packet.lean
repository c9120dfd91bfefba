import IMServer.BinaryReader
import IMServer.BinaryWriter
import IMServer.Framing

/-!
# Packets

The two ends of the packet layout: a body is built by `BinaryWriter` and framed by
`ClientSession::send`, and the first half of `ClientSession::process` takes a body apart with
`BinaryReader`. The two do not agree on any packet (`packet_never_roundTrips`).
-/

namespace IMServer
open Endian

/-- The outcome of reading a body: `process` returns `false` (having stored `_seq` or not), or goes
on to the switch over the command. -/
inductive Decoded
  | rejected (seq : Option Int32)
  | packet (cmd seq : Int32) (data : Bytes)
deriving DecidableEq

/-- `ClientSession::process` up to the switch. -/
def decode (msg : Bytes) : Except Fault Decoded := do
  let reader : BinaryReader := { msg := msg }
  match ← reader.readInt with
  | none => return .rejected none
  | some (cmd, reader) =>
    match ← reader.readInt with
    | none => return .rejected none
    | some (seq, reader) =>
      match ← reader.readSize with
      | none => return .rejected (some seq)
      | some (dataLen, reader) =>
        if maxSize < dataLen.toNat then throw .lengthError -- `data.resize(dataLen)`
        let (data, _) ← reader.readDataStr dataLen.toNat
        return .packet cmd seq data

/-- What `ClientSession::send` passes to the connection: the length of the body as an `int`, then
the body. -/
def framed (body : Bytes) : Bytes :=
  (BinaryWriter.writeData {} (int32Bytes (Int32.ofNat body.length))).getMsg ++ body

theorem framed_eq_frame {body : Bytes} (h : body.length < 2 ^ 31) : framed body = frame body := by
  have hi : (Int32.ofNat body.length).toInt = body.length := Int32.toInt_ofNat_of_lt h
  rw [framed, frame, BinaryWriter.getMsg, BinaryWriter.writeData_empty_msg, int32Bytes_of_toInt hi]

theorem decode_packet {msg data : Bytes} {cmd seq : Int32} (h : decode msg = .ok (.packet cmd seq data)) :
    ∃ r₁ r₂ r₃ r₄ n, ({ msg := msg } : BinaryReader).readInt = .ok (some (cmd, r₁)) ∧
      r₁.readInt = .ok (some (seq, r₂)) ∧ r₂.readSize = .ok (some (n, r₃)) ∧
      r₃.readDataStr n.toNat = .ok (data, r₄) := by
  unfold decode at h
  obtain ⟨o₁, h₁, h⟩ := Except.bind_eq_ok.1 h
  rcases o₁ with _ | ⟨c, r₁⟩
  · cases h
  obtain ⟨o₂, h₂, h⟩ := Except.bind_eq_ok.1 h
  rcases o₂ with _ | ⟨q, r₂⟩
  · cases h
  obtain ⟨o₃, h₃, h⟩ := Except.bind_eq_ok.1 h
  rcases o₃ with _ | ⟨n, r₃⟩
  · cases h
  simp only at h
  split at h
  · cases h
  · obtain ⟨⟨d, r₄⟩, h₄, h⟩ := Except.bind_eq_ok.1 h
    cases h
    exact ⟨r₁, r₂, r₃, r₄, n, h₁, h₂, h₃, h₄⟩

/-- A body that gets to the switch has a byte behind its 16-byte prefix, and no more than
`msg.size() - 15` bytes of data. -/
theorem decode_packet_length {msg data : Bytes} {cmd seq : Int32}
    (h : decode msg = .ok (.packet cmd seq data)) :
    17 ≤ msg.length ∧ (data = [] ∨ 15 + data.length ≤ msg.length) := by
  obtain ⟨r₁, r₂, r₃, r₄, n, h₁, h₂, h₃, h₄⟩ := decode_packet h
  obtain ⟨d₁, h₁, -⟩ := BinaryReader.readInt_some h₁
  obtain ⟨d₂, h₂, -⟩ := BinaryReader.readInt_some h₂
  obtain ⟨d₃, h₃, -⟩ := BinaryReader.readSize_some h₃
  obtain ⟨-, -, rfl⟩ := BinaryReader.readData_some (by decide) h₁
  obtain ⟨-, -, rfl⟩ := BinaryReader.readData_some (by decide) h₂
  obtain ⟨hlen, -, rfl⟩ := BinaryReader.readData_some (by decide) h₃
  have hi : ((0 : Int32) + Int32.ofNat 4 + Int32.ofNat 4).toInt = 8 := by decide
  have hj : ((0 : Int32) + Int32.ofNat 4 + Int32.ofNat 4 + Int32.ofNat 8).toInt = 16 := by decide
  simp only [hi] at hlen
  refine ⟨by omega, ?_⟩
  rcases BinaryReader.readDataStr_ok h₄ with ⟨-, hd⟩ | ⟨hd, hn⟩
  · exact .inl hd
  · simp only [hj] at hd
    exact .inr (by omega)

/-! ### Round trip -/

def packetBody (cmd seq : Int32) (data : Bytes) : Except Fault Bytes := do
  let writer := (BinaryWriter.writeData {} (int32Bytes cmd)).writeData (int32Bytes seq)
  let writer ← writer.writeDataStr data
  return writer.getMsg

def decodeAll (ds : List Decoded) (msg : Bytes) : Except Fault (List Decoded × Bool) := do
  match ← decode msg with
  | .rejected seq => return (ds ++ [.rejected seq], false)
  | .packet cmd seq data => return (ds ++ [.packet cmd seq data], true)

def RoundTrips (cmd seq : Int32) (data : Bytes) : Prop :=
  ∃ body, packetBody cmd seq data = .ok body ∧
    ∃ buf, receive decodeAll ([], Buffer.empty) (framed body) = .ok ([.packet cmd seq data], buf)

/-- What becomes of two scalars and a string: the command is gone, the sequence number stands in its
place. -/
def replyBody (seq : Int32) (data : Bytes) : Bytes :=
  int32Bytes seq ++ [0, 0, 0, 0] ++ UInt8.ofNat data.length :: data

theorem packetBody_ok {cmd seq : Int32} {data body : Bytes} (h : packetBody cmd seq data = .ok body) :
    data.length < 128 ∧ body = replyBody seq data := by
  obtain ⟨w, hw, h⟩ := Except.bind_eq_ok.1 h
  cases h
  obtain ⟨hlen, hmsg⟩ := BinaryWriter.writeDataStr_msg hw
  rw [BinaryWriter.writeData_twice_msg (by simp) (by simp)] at hmsg
  exact ⟨hlen, hmsg⟩

theorem packetBody_short {data : Bytes} (h : data.length < 128) (cmd seq : Int32) :
    packetBody cmd seq data = .ok (replyBody seq data) := by
  obtain ⟨w, hw⟩ := BinaryWriter.writeDataStr_short
    ((BinaryWriter.writeData {} (int32Bytes cmd)).writeData (int32Bytes seq)) h
  have hbody : packetBody cmd seq data = .ok w.getMsg := by rw [packetBody, hw]; rfl
  rw [hbody, (packetBody_ok hbody).2]

theorem packetBody_long {data : Bytes} (h : 128 ≤ data.length) (cmd seq : Int32) :
    packetBody cmd seq data = .error .diverges := by
  rw [packetBody, BinaryWriter.writeDataStr_long _ h]
  rfl

@[simp] theorem length_replyBody (seq : Int32) (data : Bytes) :
    (replyBody seq data).length = 9 + data.length := by
  simp [replyBody]
  omega

theorem decodeAll_map (ds : List Decoded) (msg : Bytes) :
    (decodeAll ds msg).map Prod.fst = (decode msg).map fun d => ds ++ [d] := by
  unfold decodeAll
  rcases decode msg with e | ⟨q⟩ | ⟨c, q, d⟩ <;> rfl

theorem receive_framed {body : Bytes} {ds : List Decoded} {buf : Buffer} (hlen : body.length < 2 ^ 31)
    (h : receive decodeAll ([], Buffer.empty) (framed body) = .ok (ds, buf)) :
    ∃ d, decode body = .ok d ∧ ds = [d] := by
  have hbody : ∀ b ∈ [body], b.length < 2 ^ 31 := by simpa using hlen
  have hcut : [framed body].flatten = [body].flatMap frame ++ [] := by simp [framed_eq_frame hlen]
  have href := receive_frames decodeAll [] Buffer.content_empty hbody rfl hcut
  rw [List.foldlM_cons, h] at href
  obtain ⟨ds', hf, heq⟩ := Except.map_eq_ok.1 href.symm
  obtain ⟨ds₁, h₁, hf⟩ := Except.foldlM_cons_ok.1 hf
  cases hf
  rw [decodeAll_map] at h₁
  obtain ⟨d, hdec, rfl⟩ := Except.map_eq_ok.1 h₁
  exact ⟨d, hdec, (congrArg Prod.fst heq).symm⟩

/-- No body the writer builds is read back as the packet it was built from: the reader expects a
prefix of 16 bytes and a byte behind it, the writer puts 9 bytes in front of the data. -/
theorem decode_packetBody_ne {cmd seq : Int32} {data body : Bytes}
    (h : packetBody cmd seq data = .ok body) (cmd' seq' : Int32) :
    decode body ≠ .ok (.packet cmd' seq' data) := by
  intro hdec
  obtain ⟨-, rfl⟩ := packetBody_ok h
  obtain ⟨h17, hdata⟩ := decode_packet_length hdec
  rw [length_replyBody] at h17 hdata
  rcases hdata with rfl | hdata
  · simp at h17
  · omega

theorem packet_never_roundTrips (cmd seq : Int32) (data : Bytes) : ¬ RoundTrips cmd seq data := by
  rintro ⟨body, hbody, buf, hrecv⟩
  obtain ⟨hlen, rfl⟩ := packetBody_ok hbody
  obtain ⟨d, hdec, heq⟩ := receive_framed (by rw [length_replyBody]; omega) hrecv
  cases heq
  exact decode_packetBody_ne hbody cmd seq hdec

/-- A heartbeat with sequence number 7 and no data: nine bytes go out, of which the receiver takes
`_seq` and then rejects the rest. -/
theorem packet_heartbeat_rejected :
    packetBody 1000 7 [] = .ok [7, 0, 0, 0, 0, 0, 0, 0, 0] ∧
      decode [7, 0, 0, 0, 0, 0, 0, 0, 0] = .ok (.rejected (some 0)) ∧ ¬ RoundTrips 1000 7 [] := by
  have hbody : packetBody 1000 7 [] = .ok [7, 0, 0, 0, 0, 0, 0, 0, 0] := by decide
  refine ⟨hbody, by decide, ?_⟩
  rintro ⟨body, hb, buf, hrecv⟩
  rw [hbody] at hb
  cases hb
  obtain ⟨d, hdec, heq⟩ := receive_framed (by simp) hrecv
  cases heq
  exact decode_packetBody_ne hbody 1000 7 hdec

end IMServer
