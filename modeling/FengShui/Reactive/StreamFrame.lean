import FengShui.Reactive.FrameCodec

/-!
# The frames of a stream, written and read back

`StreamFrame` is the sum of the frame types that carry a stream's traffic (and LEASE), with the
fields that the writer takes and the reader returns. `readStreamFrame` reads a header and then the
body of the type that the header names. `readStreamFrame_write` is the round trip; the one field
that does not survive it is an error message that starts with U+FEFF, which `utf8.decode` drops.
-/

namespace FengShui.Reactive

open ByteString ReactiveReadBuffer ReactiveWriteBuffer ReactiveReader ReactiveWriter

inductive StreamFrame where
  | requestChannel (streamId initialRequestCount : ℕ) (payload : ReactivePayload)
  | payload (streamId : ℕ) (completed follow : Bool) (payload : ReactivePayload)
  | error (streamId code : ℕ) (message : DartString)
  | requestN (streamId count : ℕ)
  | cancel (streamId : ℕ)
  | lease (timeToLive requests : ℕ)
  deriving DecidableEq, Repr

namespace StreamFrame

/-- The bytes that the writer of the frame's type produces. -/
def write : StreamFrame → Uint8List
  | .requestChannel streamId count content => writeRequestChannelFrame streamId count content
  | .payload streamId completed follow content =>
    writePayloadFrame streamId completed follow (some content)
  | .error streamId code message => writeErrorFrame streamId code message
  | .requestN streamId count => writeRequestNFrame streamId count
  | .cancel streamId => writeCancelFrame streamId
  | .lease timeToLive requests => writeLeaseFrame timeToLive requests

/-- The fields are in the range of the protocol. -/
def InRange : StreamFrame → Prop
  | .requestChannel streamId count _ => streamId < 2 ^ 31 ∧ count < 2 ^ 32
  | .payload streamId completed follow _ => streamId < 2 ^ 31 ∧ (completed → follow = false)
  | .error streamId code message =>
    streamId < 2 ^ 31 ∧ code < 2 ^ 32 ∧ Unicode.wellFormed message
  | .requestN streamId count => streamId < 2 ^ 31 ∧ count < 2 ^ 32
  | .cancel streamId => streamId < 2 ^ 31
  | .lease timeToLive requests => timeToLive < 2 ^ 32 ∧ requests < 2 ^ 32

/-- The number of bytes behind the length field fits the 24 bits of that field. -/
def Fits (frame : StreamFrame) : Prop :=
  frame.write.length - reactiveFrameLengthFieldSize < 2 ^ 24

instance (frame : StreamFrame) : Decidable frame.InRange := by
  cases frame <;> unfold InRange <;> infer_instance

instance (frame : StreamFrame) : Decidable frame.Fits := inferInstanceAs (Decidable (_ < _))

/-- What the reader returns: the same fields, but an error message loses a leading U+FEFF. -/
def received : StreamFrame → StreamFrame
  | .error streamId code message => .error streamId code (dropBom message)
  | .requestChannel streamId count content => .requestChannel streamId count content
  | .payload streamId completed follow content => .payload streamId completed follow content
  | .requestN streamId count => .requestN streamId count
  | .cancel streamId => .cancel streamId
  | .lease timeToLive requests => .lease timeToLive requests

end StreamFrame

/-- `readFrameHeader` followed by the body reader of the type in the header; none for a frame that
is cut short or is not a stream frame. -/
def readStreamFrame : Reading (Option StreamFrame) := do
  let some header ← readFrameHeader | return none
  match header.type with
  | reactiveFrameRequestChannel =>
    let some frame ← readRequestChannelFrame header | return none
    return frame.payload.map (.requestChannel frame.header.streamId frame.initialRequestCount)
  | reactiveFramePayload =>
    let some frame ← readPayloadFrame header | return none
    return some (.payload frame.header.streamId frame.completed frame.follow frame.payload)
  | reactiveFrameError =>
    let some frame ← readErrorFrame header | return none
    return some (.error frame.header.streamId frame.code frame.message)
  | reactiveFrameRequestN =>
    let some frame ← readRequestNFrame header | return none
    return some (.requestN frame.header.streamId frame.count)
  | reactiveFrameCancel => return some (.cancel header.streamId)
  | reactiveFrameLease =>
    let some frame ← readLeaseFrame header | return none
    return some (.lease frame.timeToLive frame.requests)
  | _ => return none

section RoundTrip

variable (pre rest : Uint8List) (checkpoint : ℕ)

theorem toNat_natCast_mod {n : ℕ} (h : n < 2 ^ 32) : ((n : ℤ) % 2 ^ 32).toNat = n := by omega

/-- The frame length of a frame that fits. -/
theorem length_lt_of_fits {frame : StreamFrame} {streamId : ℤ} {type metaBit flags : ℕ}
    {body : Uint8List} (hfits : frame.Fits)
    (hwrite : frame.write = encodeFrame streamId type metaBit flags body) :
    body.length + 6 < 256 ^ 3 := by
  rw [StreamFrame.Fits, hwrite, length_encodeFrame, reactiveFrameLengthFieldSize] at hfits
  omega


variable {streamId : ℕ} {content : ReactivePayload}

theorem readStreamFrame_requestChannel {count : ℕ}
    (hrange : (StreamFrame.requestChannel streamId count content).InRange)
    (hfits : (StreamFrame.requestChannel streamId count content).Fits) :
    readStreamFrame (cursor pre (writeRequestChannelFrame streamId count content ++ rest)
        checkpoint) =
      .ok (some (.requestChannel streamId count content))
        (cursor (pre ++ writeRequestChannelFrame streamId count content) rest checkpoint) := by
  obtain ⟨hid, hcount⟩ := hrange
  have hwrite := writeRequestChannelFrame_eq streamId count content
  have hlen := length_lt_of_fits hfits hwrite
  have hmeta := metadata_length_le content
  have h0 := readFrameHeader_encodeFrame pre rest checkpoint streamId _
    (show reactiveFrameRequestChannel < 64 by decide) (metadataBit_le_one content)
    (show 0 < 256 by decide) hlen
  have h1 (front : Uint8List) := readRequestChannelFrame_cursor front rest checkpoint
    (headerOf streamId reactiveFrameRequestChannel (metadataBit content) 0
      (int32ToBytes count ++ encodePayload content)) count content rfl
    rfl (by simp only [List.length_append] at hlen; omega)
  rw [hwrite, readStreamFrame, bind_ok h0]
  simp only [headerOf] at h1 ⊢
  rw [bind_ok (h1 _)]
  simp only [toNat_natCast_mod (show streamId < 2 ^ 32 by omega), toNat_natCast_mod hcount,
    Option.map_some]
  rw [encodeFrame, List.append_assoc pre]
  rfl

theorem readStreamFrame_payload {completed follow : Bool}
    (hrange : (StreamFrame.payload streamId completed follow content).InRange)
    (hfits : (StreamFrame.payload streamId completed follow content).Fits) :
    readStreamFrame (cursor pre
        (writePayloadFrame streamId completed follow (some content) ++ rest) checkpoint) =
      .ok (some (.payload streamId completed follow content))
        (cursor (pre ++ writePayloadFrame streamId completed follow (some content)) rest
          checkpoint) := by
  obtain ⟨hid, hfollow⟩ := hrange
  have hwrite := writePayloadFrame_eq streamId completed follow (some content)
  have hlen := length_lt_of_fits hfits hwrite
  have hmeta := metadata_length_le content
  have h0 := readFrameHeader_encodeFrame pre rest checkpoint streamId _
    (show reactiveFramePayload < 64 by decide) (metadataBit_le_one content)
    (payloadFlags_lt completed follow) hlen
  have h1 (front : Uint8List) := readPayloadFrame_cursor front rest checkpoint
    (headerOf streamId reactiveFramePayload (metadataBit content)
      (payloadFlags completed follow) (encodePayload content)) content rfl rfl
    (by simp only [Option.getD_some] at hlen; omega)
  rw [hwrite, readStreamFrame]
  simp only [Option.getD_some] at h0 ⊢
  rw [bind_ok h0]
  simp only [headerOf] at h1 ⊢
  rw [bind_ok (h1 _)]
  simp only [toNat_natCast_mod (show streamId < 2 ^ 32 by omega), payloadFlags_complete,
    payloadFlags_follow hfollow, Bool.decide_eq_true]
  rw [encodeFrame, List.append_assoc pre]
  rfl

/-- The message comes back as `utf8.decode` gives it. -/
theorem readStreamFrame_error {code : ℕ} {message : DartString}
    (hrange : (StreamFrame.error streamId code message).InRange)
    (hfits : (StreamFrame.error streamId code message).Fits) :
    readStreamFrame (cursor pre (writeErrorFrame streamId code message ++ rest) checkpoint) =
      .ok (some (.error streamId code (dropBom message)))
        (cursor (pre ++ writeErrorFrame streamId code message) rest checkpoint) := by
  obtain ⟨hid, hcode, hmsg⟩ := hrange
  have hwrite := writeErrorFrame_eq streamId code message
  have h0 := readFrameHeader_encodeFrame pre rest checkpoint streamId _
    (show reactiveFrameError < 64 by decide) (show 0 ≤ 1 by decide) (show 0 < 256 by decide)
    (length_lt_of_fits hfits hwrite)
  have h1 (front : Uint8List) := readErrorFrame_cursor front rest checkpoint
    (headerOf streamId reactiveFrameError 0 0 (int32ToBytes code ++ utf8Encode message)) code
    (utf8Encode message) rfl
  rw [hwrite, readStreamFrame, bind_ok h0]
  simp only [headerOf, utf8Decode_utf8Encode hmsg] at h1 ⊢
  rw [bind_ok (h1 _)]
  simp only [toNat_natCast_mod (show streamId < 2 ^ 32 by omega), toNat_natCast_mod hcode]
  rw [encodeFrame, List.append_assoc pre]
  rfl

theorem readStreamFrame_requestN {count : ℕ}
    (hrange : (StreamFrame.requestN streamId count).InRange)
    (hfits : (StreamFrame.requestN streamId count).Fits) :
    readStreamFrame (cursor pre (writeRequestNFrame streamId count ++ rest) checkpoint) =
      .ok (some (.requestN streamId count))
        (cursor (pre ++ writeRequestNFrame streamId count) rest checkpoint) := by
  obtain ⟨hid, hcount⟩ := hrange
  have hwrite := writeRequestNFrame_eq streamId count
  have h0 := readFrameHeader_encodeFrame pre rest checkpoint streamId _
    (show reactiveFrameRequestN < 64 by decide) (show 0 ≤ 1 by decide) (show 0 < 256 by decide)
    (length_lt_of_fits hfits hwrite)
  have h1 (front : Uint8List) := readRequestNFrame_cursor front rest checkpoint
    (headerOf streamId reactiveFrameRequestN 0 0 (int32ToBytes count)) count
  rw [hwrite, readStreamFrame, bind_ok h0]
  simp only [headerOf] at h1 ⊢
  rw [bind_ok (h1 _)]
  simp only [toNat_natCast_mod (show streamId < 2 ^ 32 by omega), toNat_natCast_mod hcount]
  rw [encodeFrame, List.append_assoc pre]
  rfl

theorem readStreamFrame_cancel (hrange : (StreamFrame.cancel streamId).InRange)
    (hfits : (StreamFrame.cancel streamId).Fits) :
    readStreamFrame (cursor pre (writeCancelFrame streamId ++ rest) checkpoint) =
      .ok (some (.cancel streamId))
        (cursor (pre ++ writeCancelFrame streamId) rest checkpoint) := by
  have hwrite := writeCancelFrame_eq streamId
  have h0 := readFrameHeader_encodeFrame pre rest checkpoint streamId _
    (show reactiveFrameCancel < 64 by decide) (show 0 ≤ 1 by decide) (show 0 < 256 by decide)
    (length_lt_of_fits hfits hwrite)
  have hid : streamId < 2 ^ 32 := lt_trans hrange (by decide)
  rw [hwrite, readStreamFrame, bind_ok h0]
  simp only [headerOf, toNat_natCast_mod hid]
  rw [encodeFrame, List.append_nil, List.nil_append]
  rfl

theorem readStreamFrame_lease {timeToLive requests : ℕ}
    (hrange : (StreamFrame.lease timeToLive requests).InRange)
    (hfits : (StreamFrame.lease timeToLive requests).Fits) :
    readStreamFrame (cursor pre (writeLeaseFrame timeToLive requests ++ rest) checkpoint) =
      .ok (some (.lease timeToLive requests))
        (cursor (pre ++ writeLeaseFrame timeToLive requests) rest checkpoint) := by
  obtain ⟨htime, hreqs⟩ := hrange
  have hwrite := writeLeaseFrame_eq timeToLive requests
  have h0 := readFrameHeader_encodeFrame pre rest checkpoint 0 _
    (show reactiveFrameLease < 64 by decide) (show 0 ≤ 1 by decide) (show 0 < 256 by decide)
    (length_lt_of_fits hfits hwrite)
  have h1 (front : Uint8List) := readLeaseFrame_cursor front rest checkpoint
    (headerOf 0 reactiveFrameLease 0 0 (int32ToBytes timeToLive ++ int32ToBytes requests))
    timeToLive requests
  rw [hwrite, readStreamFrame, bind_ok h0]
  simp only [headerOf] at h1 ⊢
  rw [bind_ok (h1 _)]
  simp only [toNat_natCast_mod htime, toNat_natCast_mod hreqs]
  rw [encodeFrame, List.append_assoc pre]
  rfl

end RoundTrip

/-- **Every stream frame is read back from its bytes**, whatever follows them, up to a leading
U+FEFF of an error message; and the reader ends exactly behind the frame. -/
theorem readStreamFrame_write (pre rest : Uint8List) (checkpoint : ℕ) (frame : StreamFrame)
    (hrange : frame.InRange) (hfits : frame.Fits) :
    readStreamFrame (cursor pre (frame.write ++ rest) checkpoint) =
      .ok (some frame.received) (cursor (pre ++ frame.write) rest checkpoint) := by
  cases frame with
  | requestChannel => exact readStreamFrame_requestChannel pre rest checkpoint hrange hfits
  | payload => exact readStreamFrame_payload pre rest checkpoint hrange hfits
  | error => exact readStreamFrame_error pre rest checkpoint hrange hfits
  | requestN => exact readStreamFrame_requestN pre rest checkpoint hrange hfits
  | cancel => exact readStreamFrame_cancel pre rest checkpoint hrange hfits
  | lease => exact readStreamFrame_lease pre rest checkpoint hrange hfits

/-- A REQUEST_CHANNEL frame with metadata and data, in front of other bytes. -/
theorem readStreamFrame_write_requestChannel :
    readStreamFrame (cursor [] (writeRequestChannelFrame 5 7 ⟨[1], [2, 3]⟩ ++ [9]) 0) =
      .ok (some (.requestChannel 5 7 ⟨[1], [2, 3]⟩))
        (cursor (writeRequestChannelFrame 5 7 ⟨[1], [2, 3]⟩) [9] 0) :=
  readStreamFrame_write [] [9] 0 (.requestChannel 5 7 ⟨[1], [2, 3]⟩) (by decide) (by decide)

/-- An error message of one U+FEFF comes back empty. -/
theorem readStreamFrame_error_byteOrderMark :
    (StreamFrame.error 1 0 [0xFEFF]).InRange ∧ (StreamFrame.error 1 0 [0xFEFF]).Fits ∧
      readStreamFrame (cursor [] (StreamFrame.error 1 0 [0xFEFF]).write 0) ≠
        .ok (some (.error 1 0 [0xFEFF]))
          (cursor (StreamFrame.error 1 0 [0xFEFF]).write [] 0) := by
  have hrange : (StreamFrame.error 1 0 [0xFEFF]).InRange := by decide
  have hfits : (StreamFrame.error 1 0 [0xFEFF]).Fits := by decide
  refine ⟨hrange, hfits, ?_⟩
  have h := readStreamFrame_error [] [] 0 hrange hfits
  rw [List.append_nil, List.nil_append] at h
  rw [StreamFrame.write, h]
  intro heq
  injection heq with hframe _
  exact absurd hframe (by decide)

end FengShui.Reactive
