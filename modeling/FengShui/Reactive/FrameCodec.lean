import FengShui.Reactive.Reader
import FengShui.Reactive.Writer

/-!
# Reading what the writer wrote

Each reader, on a buffer whose reader stands in front of what the writer of the same frame type
produced, returns the frame's fields and leaves the reader behind the frame. The header is shared
(`readFrameHeader_encodeFrame`); the payload of SETUP, REQUEST_CHANNEL and PAYLOAD frames is shared
as well (`readPayload_cursor`). `StreamFrame` collects the frames of a stream, and
`readStreamFrame_write` is the round trip of the whole format.
-/

namespace FengShui.Reactive

open ByteString ReactiveReadBuffer ReactiveWriteBuffer ReactiveReader ReactiveWriter List

section Cursor

variable (pre rest : Uint8List) (checkpoint : ℕ)

/-- The length of a payload in a frame. -/
theorem length_encodePayload (payload : ReactivePayload) :
    (encodePayload payload).length =
      (if payload.metadata.isEmpty then 0 else 3 + payload.metadata.length) +
        payload.data.length := by
  unfold encodePayload
  split <;> simp [Nat.add_assoc]

theorem metadata_length_le (payload : ReactivePayload) :
    payload.metadata.length ≤ (encodePayload payload).length := by
  rw [length_encodePayload]
  split
  · next h => simp [isEmpty_iff.mp h]
  · omega

/-- A payload with its metadata length, also when that is zero. -/
theorem readPayload_present {metadata : Uint8List} (data : Uint8List)
    (hmeta : metadata.length < 256 ^ 3) :
    readPayload true (3 + metadata.length + data.length)
        (cursor pre (toBytesBE 3 metadata.length ++ metadata ++ data ++ rest) checkpoint) =
      .ok (some ⟨metadata, data⟩)
        (cursor (pre ++ (toBytesBE 3 metadata.length ++ metadata ++ data)) rest checkpoint) := by
  have h1 := readMetadata_present pre (data ++ rest) checkpoint (data.length : ℤ) hmeta
  have h2 := readUint8List_cursor (pre ++ (toBytesBE 3 metadata.length ++ metadata)) rest
    checkpoint data rfl
  rw [readPayload, append_assoc _ data rest, bind_ok h1]
  simp only [bind_ok h2, append_assoc]
  rfl

/-- The payload that the writer put into a frame. -/
theorem readPayload_cursor (payload : ReactivePayload) {dataLength : ℤ}
    (hlen : dataLength = (encodePayload payload).length)
    (hmeta : payload.metadata.length < 256 ^ 3) :
    readPayload (metadataBit payload == 1) dataLength
        (cursor pre (encodePayload payload ++ rest) checkpoint) =
      .ok (some payload) (cursor (pre ++ encodePayload payload) rest checkpoint) := by
  subst hlen
  obtain ⟨metadata, data⟩ := payload
  simp only at hmeta
  rw [length_encodePayload]
  cases hm : metadata.isEmpty with
  | true =>
    have h := readUint8List_cursor pre rest checkpoint data rfl
    simp only [metadataBit, encodePayload, hm, if_true, nil_append, Nat.zero_add]
    rw [readPayload, show ((0 : ℕ) == 1) = false from rfl, bind_ok (readMetadata_absent ..)]
    simp only [bind_ok h, isEmpty_iff.mp hm]
    rfl
  | false =>
    have h := readPayload_present pre rest checkpoint data hmeta
    simp only [metadataBit, encodePayload, hm, Bool.false_eq_true, if_false]
    push_cast
    exact h

/-- The header that the reader finds in front of a frame. -/
def headerOf (streamId : ℤ) (type metaBit flags : ℕ) (body : Uint8List) : FrameHeader :=
  ⟨body.length + 6, (streamId % 2 ^ 32).toNat, type, flags, metaBit == 1⟩

theorem toNat_lt_of_mod (value : ℤ) : (value % 2 ^ 32).toNat < 256 ^ 4 := by omega

theorem ofBytesBE_int32ToBytes (value : ℤ) :
    ofBytesBE (int32ToBytes value) = (value % 2 ^ 32).toNat :=
  ofBytesBE_toBytesBE_of_lt (toNat_lt_of_mod value)

/-- The header of a frame whose length fits its field, whatever follows it. -/
theorem readFrameHeader_head (streamId : ℤ) {type metaBit flags : ℕ} (body : Uint8List)
    (htype : type < 64) (hmeta : metaBit ≤ 1) (hflags : flags < 256)
    (hbody : body.length + 6 < 256 ^ 3) :
    readFrameHeader (cursor pre (toBytesBE 3 (body.length + 6) ++ int32ToBytes streamId ++
        [UInt8.ofNat (type <<< 2 ||| metaBit), UInt8.ofNat flags] ++ rest) checkpoint) =
      .ok (some (headerOf streamId type metaBit flags body))
        (cursor (pre ++ (toBytesBE 3 (body.length + 6) ++ int32ToBytes streamId ++
          [UInt8.ofNat (type <<< 2 ||| metaBit), UInt8.ofNat flags])) rest checkpoint) := by
  have hbyte : (UInt8.ofNat (type <<< 2 ||| metaBit)).toNat = type * 4 + metaBit := by
    have hor : type <<< 2 ||| metaBit = type * 4 + metaBit := by
      rw [← Nat.shiftLeft_add_eq_or_of_lt (by omega), Nat.shiftLeft_eq]
    rw [hor, UInt8.toNat_ofNat', Nat.mod_eq_of_lt (by omega)]
  have h := readFrameHeader_cursor pre rest checkpoint
    (UInt8.ofNat (type <<< 2 ||| metaBit)) (UInt8.ofNat flags)
    (length_toBytesBE 3 (body.length + 6)) (length_int32ToBytes streamId)
  rw [h, headerOf, ofBytesBE_toBytesBE_of_lt hbody, ofBytesBE_int32ToBytes, hbyte]
  have htype' : (type * 4 + metaBit) >>> 2 = type := by
    rw [Nat.shiftRight_eq_div_pow]
    omega
  have hmeta' : (type * 4 + metaBit) &&& 0x01 = metaBit := by
    rw [Nat.and_one_is_mod]
    omega
  have hflags' : (UInt8.ofNat flags).toNat = flags := by simp [Nat.mod_eq_of_lt hflags]
  rw [htype', hmeta', hflags']

/-- The header in front of the body of its frame. -/
theorem readFrameHeader_encodeFrame (streamId : ℤ) {type metaBit flags : ℕ} (body : Uint8List)
    (htype : type < 64) (hmeta : metaBit ≤ 1) (hflags : flags < 256)
    (hbody : body.length + 6 < 256 ^ 3) :
    readFrameHeader (cursor pre (encodeFrame streamId type metaBit flags body ++ rest) checkpoint) =
      .ok (some (headerOf streamId type metaBit flags body))
        (cursor (pre ++ (toBytesBE 3 (body.length + 6) ++ int32ToBytes streamId ++
          [UInt8.ofNat (type <<< 2 ||| metaBit), UInt8.ofNat flags]))
            (body ++ rest) checkpoint) := by
  have h :=
    readFrameHeader_head pre (body ++ rest) checkpoint streamId body htype hmeta hflags hbody
  rwa [← append_assoc _ body rest] at h

variable (header : FrameHeader)

/-- After the fixed fields, the rest of the body is left. -/
theorem payloadSize_cursor {field body : Uint8List}
    (hhdr : header.frameLength = (field ++ body).length + 6) :
    payloadSize header pre.length (cursor (pre ++ field) rest checkpoint) =
      .ok body.length (cursor (pre ++ field) rest checkpoint) := by
  rw [payloadSize, get_bind]
  have hsize : (header.frameLength : ℤ) + reactiveFrameLengthFieldSize -
      ((cursor (pre ++ field) rest checkpoint).readerIndex -
        ((pre.length : ℤ) - reactiveFrameHeaderSize)) = body.length := by
    simp only [reactiveFrameLengthFieldSize, reactiveFrameHeaderSize, readerIndex_cursor]
    simp only [length_append] at hhdr ⊢
    push_cast
    omega
  rw [hsize]
  rfl

/-- The payload that the writer put into a frame, also when it is empty. -/
theorem readOptionalPayload_cursor (payload : ReactivePayload)
    (hmeta : header.metaPresent = (metadataBit payload == 1))
    (hmetadata : payload.metadata.length < 256 ^ 3) :
    readOptionalPayload header (encodePayload payload).length
        (cursor pre (encodePayload payload ++ rest) checkpoint) =
      .ok (some payload) (cursor (pre ++ encodePayload payload) rest checkpoint) := by
  unfold readOptionalPayload
  split
  · rw [hmeta]
    exact readPayload_cursor pre rest checkpoint payload rfl hmetadata
  · next hpos =>
    have hzero : (encodePayload payload).length = 0 := by omega
    have hempty : payload = ⟨emptyBytes, emptyBytes⟩ := by
      obtain ⟨metadata, data⟩ := payload
      cases metadata <;> cases data <;> simp_all [length_encodePayload]
    rw [eq_nil_of_length_eq_zero hzero, append_nil, nil_append, hempty]
    rfl

theorem readMessage_cursor (message : Uint8List) :
    readMessage message.length (cursor pre (message ++ rest) checkpoint) =
      .ok (some message) (cursor (pre ++ message) rest checkpoint) := by
  unfold readMessage
  split
  · exact readUint8List_cursor pre rest checkpoint message rfl
  · next hpos =>
    obtain rfl : message = [] := eq_nil_of_length_eq_zero (by omega)
    rw [append_nil, nil_append]
    rfl

theorem readLeaseFrame_cursor (timeToLive requests : ℤ) :
    readLeaseFrame header
        (cursor pre (int32ToBytes timeToLive ++ int32ToBytes requests ++ rest) checkpoint) =
      .ok (some ⟨header, (timeToLive % 2 ^ 32).toNat, (requests % 2 ^ 32).toNat⟩)
        (cursor (pre ++ (int32ToBytes timeToLive ++ int32ToBytes requests)) rest checkpoint) := by
  have h1 := readInt32_cursor pre (int32ToBytes requests ++ rest) checkpoint
    (int32ToBytes timeToLive) (length_int32ToBytes _)
  have h2 := readInt32_cursor (pre ++ int32ToBytes timeToLive) rest checkpoint
    (int32ToBytes requests) (length_int32ToBytes _)
  simp only [append_assoc] at h1 h2 ⊢
  rw [readLeaseFrame, bind_ok h1]
  simp only [bind_ok h2, ofBytesBE_int32ToBytes]
  rfl

theorem readRequestNFrame_cursor (count : ℤ) :
    readRequestNFrame header (cursor pre (int32ToBytes count ++ rest) checkpoint) =
      .ok (some ⟨header, (count % 2 ^ 32).toNat⟩)
        (cursor (pre ++ int32ToBytes count) rest checkpoint) := by
  have h := readInt32_cursor pre rest checkpoint (int32ToBytes count) (length_int32ToBytes _)
  rw [readRequestNFrame, bind_ok h, ofBytesBE_int32ToBytes]
  rfl

/-- The reader takes the first half of the position for the position, and the second for a
payload. -/
theorem readKeepAliveFrame_cursor {first second : Uint8List} (hfirst : first.length = 4)
    (hsecond : second.length = 4) (hmeta : header.metaPresent = false)
    (hhdr : header.frameLength = 14) :
    readKeepAliveFrame header (cursor pre (first ++ second ++ rest) checkpoint) =
      .ok (some ⟨header, ofBytesBE first,
          decide ((header.flags &&& reactiveFrameKeepAliveFlagRespond) > 0),
          some ⟨emptyBytes, second⟩⟩)
        (cursor (pre ++ (first ++ second)) rest checkpoint) := by
  have h1 := readInt32_cursor pre (second ++ rest) checkpoint first hfirst
  have hsize := payloadSize_cursor pre (second ++ rest) checkpoint header
    (show header.frameLength = (first ++ second).length + 6 by simp [hfirst, hsecond, hhdr])
  have h2 : readPayload header.metaPresent second.length
      (cursor (pre ++ first) (second ++ rest) checkpoint) =
      .ok (some ⟨emptyBytes, second⟩) (cursor (pre ++ first ++ second) rest checkpoint) := by
    rw [hmeta]
    exact readPayload_cursor (pre ++ first) rest checkpoint ⟨[], second⟩ rfl (by simp)
  have hpos : (second.length : ℤ) > 0 := by omega
  rw [append_assoc, readKeepAliveFrame, get_bind, bind_ok h1]
  simp only [readerIndex_cursor, bind_ok hsize]
  rw [if_pos hpos, bind_ok h2, append_assoc]
  rfl

/-- The message of an ERROR frame is decoded after all of its bytes are read. -/
theorem readErrorFrame_cursor (code : ℤ) (message : Uint8List)
    (hhdr : header.frameLength = (int32ToBytes code ++ message).length + 6) :
    readErrorFrame header (cursor pre (int32ToBytes code ++ message ++ rest) checkpoint) =
      match utf8Decode message with
      | .ok content => .ok (some ⟨header, content, (code % 2 ^ 32).toNat⟩)
        (cursor (pre ++ (int32ToBytes code ++ message)) rest checkpoint)
      | .error e => .error e
        (cursor (pre ++ (int32ToBytes code ++ message)) rest checkpoint) := by
  have h1 := readInt32_cursor pre (message ++ rest) checkpoint (int32ToBytes code)
    (length_int32ToBytes _)
  have hsize := payloadSize_cursor pre (message ++ rest) checkpoint header hhdr
  have h2 := readMessage_cursor (pre ++ int32ToBytes code) rest checkpoint message
  rw [append_assoc, readErrorFrame, get_bind, bind_ok h1]
  simp only [readerIndex_cursor, bind_ok hsize, bind_ok h2, ofBytesBE_int32ToBytes,
    append_assoc]
  cases utf8Decode message <;> rfl

theorem readRequestChannelFrame_cursor (initialRequestN : ℤ) (payload : ReactivePayload)
    (hmeta : header.metaPresent = (metadataBit payload == 1))
    (hhdr : header.frameLength =
      (int32ToBytes initialRequestN ++ encodePayload payload).length + 6)
    (hmetadata : payload.metadata.length < 256 ^ 3) :
    readRequestChannelFrame header
        (cursor pre (int32ToBytes initialRequestN ++ encodePayload payload ++ rest) checkpoint) =
      .ok (some ⟨header, (initialRequestN % 2 ^ 32).toNat, some payload⟩)
        (cursor (pre ++ (int32ToBytes initialRequestN ++ encodePayload payload)) rest
          checkpoint) := by
  have h1 := readInt32_cursor pre (encodePayload payload ++ rest) checkpoint
    (int32ToBytes initialRequestN) (length_int32ToBytes _)
  have hsize := payloadSize_cursor pre (encodePayload payload ++ rest) checkpoint header
    hhdr
  have h2 := readOptionalPayload_cursor (pre ++ int32ToBytes initialRequestN) rest checkpoint
    header payload hmeta hmetadata
  have hpos : header.frameLength > 0 := by omega
  rw [append_assoc, readRequestChannelFrame, get_bind, bind_ok h1]
  simp only [readerIndex_cursor, bind_ok hsize]
  rw [if_pos hpos, bind_ok h2, ofBytesBE_int32ToBytes, append_assoc]
  rfl

theorem readPayloadFrame_cursor (payload : ReactivePayload)
    (hmeta : header.metaPresent = (metadataBit payload == 1))
    (hhdr : header.frameLength = (encodePayload payload).length + 6)
    (hmetadata : payload.metadata.length < 256 ^ 3) :
    readPayloadFrame header (cursor pre (encodePayload payload ++ rest) checkpoint) =
      .ok (some ⟨header, decide ((header.flags &&& reactiveFrameHeaderFlagComplete) > 0),
          decide ((header.flags &&& reactiveFrameHeaderFlagFollow) > 0), payload⟩)
        (cursor (pre ++ encodePayload payload) rest checkpoint) := by
  have hsize : (header.frameLength : ℤ) + reactiveFrameLengthFieldSize - reactiveFrameHeaderSize =
      (encodePayload payload).length := by
    simp only [reactiveFrameLengthFieldSize, reactiveFrameHeaderSize]
    push_cast
    omega
  have h := readOptionalPayload_cursor pre rest checkpoint header payload hmeta hmetadata
  unfold readOptionalPayload at h
  rw [readPayloadFrame, hsize]
  split
  · next hpos =>
    rw [if_pos hpos] at h
    rw [bind_ok h]
    rfl
  · next hpos =>
    rw [if_neg hpos] at h
    injection h with hpay hcursor
    injection hpay with hpay
    rw [← hcursor, ← hpay]
    rfl

end Cursor

end FengShui.Reactive
