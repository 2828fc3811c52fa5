import FengShui.Reactive.Buffer
import FengShui.Reactive.Constants
import FengShui.Reactive.Exception
import FengShui.Reactive.Frame

/-!
# The frame readers (`reactive/reader.dart`)

`readFrameHeader` and the body reader of each frame type, as operations of `Reading`. A reader
returns `none` where the source returns null, on a buffer that ends too early.
-/

namespace FengShui.Reactive

open ByteString ReactiveReadBuffer ReactiveExceptions List

namespace ReactiveReader

def readFrameHeader : Reading (Option FrameHeader) := do
  let some frameLength ← readInt24 | return none
  let some streamId ← readInt32 | return none
  let frameTypeByte ← readInt8
  -- A missing type byte is caught by the flags, which are then missing too.
  let (type, metaPresent) := match frameTypeByte with
    | some frameTypeByte => (frameTypeByte >>> 2, frameTypeByte &&& 0x01 == 1)
    | none => (0, false)
  let some flags ← readInt8 | return none
  return some ⟨frameLength, streamId, type, flags, metaPresent⟩

/-- The first half of `_readPayload`: the metadata, and what they leave of the length. -/
def readMetadata (metadataPresent : Bool) (dataLength : ℤ) :
    Reading (Option (Uint8List × ℤ)) := do
  if metadataPresent then
    match ← readInt24 with
    | some metadataLength =>
      let dataLength := dataLength - reactiveMetadataLengthFieldSize - metadataLength
      if metadataLength > 0 then
        let some metadata ← readUint8List metadataLength | return none
        return some (metadata, dataLength)
      return some (emptyBytes, dataLength)
    | none => return some (emptyBytes, dataLength)
  return some (emptyBytes, dataLength)

/-- `_readPayload`. The length is what the frame length leaves for the payload. -/
def readPayload (metadataPresent : Bool) (dataLength : ℤ) : Reading (Option ReactivePayload) := do
  let some (metadata, dataLength) ← readMetadata metadataPresent dataLength | return none
  let some data ← readUint8List dataLength | return none
  return some ⟨metadata, data⟩

/-- What the frame length leaves after the bytes read since the body's start, as every reader of a
body with a payload computes it through its variable `delta`. -/
def payloadSize (header : FrameHeader) (start : ℕ) : Reading ℤ := do
  let delta : ℤ := start - reactiveFrameHeaderSize
  let delta := (← get).readerIndex - delta
  return header.frameLength + reactiveFrameLengthFieldSize - delta

/-- The payload of a SETUP or REQUEST_CHANNEL frame, empty when nothing is left for it. -/
def readOptionalPayload (header : FrameHeader) (payloadSize : ℤ) :
    Reading (Option ReactivePayload) :=
  if payloadSize > 0 then readPayload header.metaPresent payloadSize
  else return some ⟨emptyBytes, emptyBytes⟩

/-- The mime type of the announced length: null when the bytes are missing or there are none. -/
def readMimeType : Reading (Option DartString) := do
  let some length ← readInt8 | return none
  let some bytes ← readBytes length | return none
  if bytes.isEmpty then return none
  match utf8Decode bytes with
  | .ok mimeType => return some mimeType
  | .error e => throw e

/-- `readSetupFrame` behind the fixed fields. The mime types are read into untyped variables that
may stay null, which `SetupFrame`, whose fields are strings, then refuses. -/
def readSetupVariable (header : FrameHeader) (start keepAliveInterval keepAliveMaxLifetime : ℕ) :
    Reading SetupFrame := do
  let leaseEnable := decide ((header.flags &&& reactiveFrameSetupFlagLease) > 0)
  let metadataMimeType ← readMimeType
  let dataMimeType ← readMimeType
  let payloadSize ← payloadSize header start
  let payload ← readOptionalPayload header payloadSize
  match metadataMimeType, dataMimeType with
  | some metadataMimeType, some dataMimeType =>
    return ⟨header, metadataMimeType, dataMimeType, keepAliveInterval, keepAliveMaxLifetime,
      leaseEnable, payload⟩
  | _, _ => throw .typeError

def readSetupFrame (header : FrameHeader) : Reading SetupFrame := do
  let start := (← get).readerIndex
  let _ ← readInt16
  let _ ← readInt16
  let some keepAliveInterval ← readInt32
    | throw invalidSetup
  let some keepAliveMaxLifetime ← readInt32
    | throw invalidSetup
  readSetupVariable header start keepAliveInterval keepAliveMaxLifetime

def readLeaseFrame (header : FrameHeader) : Reading (Option LeaseFrame) := do
  let some timeToLive ← readInt32 | return none
  let some numberOfRequests ← readInt32 | return none
  return some ⟨header, timeToLive, numberOfRequests⟩

def readKeepAliveFrame (header : FrameHeader) : Reading (Option KeepAliveFrame) := do
  let start := (← get).readerIndex
  let some lastReceivedPosition ← readInt32 | return none
  let dataLength ← payloadSize header start
  let respond := decide ((header.flags &&& reactiveFrameKeepAliveFlagRespond) > 0)
  if dataLength > 0 then
    let some payload ← readPayload header.metaPresent dataLength | return none
    return some ⟨header, lastReceivedPosition, respond, some payload⟩
  return some ⟨header, lastReceivedPosition, respond, none⟩

/-- The bytes of an error message, none when nothing is left for them. -/
def readMessage (dataLength : ℤ) : Reading (Option Uint8List) :=
  if dataLength > 0 then readUint8List dataLength else return some emptyBytes

def readErrorFrame (header : FrameHeader) : Reading (Option ErrorFrame) := do
  let start := (← get).readerIndex
  let some code ← readInt32 | return none
  let dataLength ← payloadSize header start
  let some message ← readMessage dataLength | return none
  match utf8Decode message with
  | .ok message => return some ⟨header, message, code⟩
  | .error e => throw e

def readRequestChannelFrame (header : FrameHeader) : Reading (Option RequestChannelFrame) := do
  let start := (← get).readerIndex
  let some initialRequestN ← readInt32 | return none
  let payloadSize ← payloadSize header start
  if header.frameLength > 0 then
    let payload ← readOptionalPayload header payloadSize
    return some ⟨header, initialRequestN, payload⟩
  return some ⟨header, initialRequestN, none⟩

def readRequestNFrame (header : FrameHeader) : Reading (Option RequestNFrame) := do
  let some count ← readInt32 | return none
  return some ⟨header, count⟩

def readPayloadFrame (header : FrameHeader) : Reading (Option PayloadFrame) := do
  let payloadSize : ℤ :=
    header.frameLength + reactiveFrameLengthFieldSize - reactiveFrameHeaderSize
  let completed := decide ((header.flags &&& reactiveFrameHeaderFlagComplete) > 0)
  let follow := decide ((header.flags &&& reactiveFrameHeaderFlagFollow) > 0)
  if payloadSize > 0 then
    let some data ← readPayload header.metaPresent payloadSize | return none
    return some ⟨header, completed, follow, data⟩
  return some ⟨header, completed, follow, .empty⟩

/-! ## Reading what is there -/

section Cursor

variable (pre rest : Uint8List) (checkpoint : ℕ)

/-- The nine bytes of a header. -/
theorem readFrameHeader_cursor {length streamId : Uint8List} (type flags : UInt8)
    (hlen : length.length = 3) (hstreamId : streamId.length = 4) :
    readFrameHeader (cursor pre (length ++ streamId ++ [type, flags] ++ rest) checkpoint) =
      .ok (some ⟨ofBytesBE length, ofBytesBE streamId, type.toNat >>> 2, flags.toNat,
          type.toNat &&& 0x01 == 1⟩)
        (cursor (pre ++ (length ++ streamId ++ [type, flags])) rest checkpoint) := by
  have h1 := readInt24_cursor pre (streamId ++ type :: flags :: rest) checkpoint length hlen
  have h2 := readInt32_cursor (pre ++ length) (type :: flags :: rest) checkpoint streamId hstreamId
  have h3 := readInt8_cursor (pre ++ length ++ streamId) (flags :: rest) checkpoint type
  have h4 := readInt8_cursor (pre ++ length ++ streamId ++ [type]) rest checkpoint flags
  simp only [append_assoc, cons_append, nil_append] at h1 h2 h3 h4 ⊢
  rw [readFrameHeader, bind_ok h1]
  simp only [bind_ok h2, bind_ok h3, bind_ok h4]
  rfl

/-- No metadata: the payload is the data. -/
theorem readMetadata_absent (dataLength : ℤ) :
    readMetadata false dataLength (cursor pre rest checkpoint) =
      .ok (some (emptyBytes, dataLength)) (cursor pre rest checkpoint) := rfl

/-- Metadata with their length in front leave the length of the data. -/
theorem readMetadata_present {metadata : Uint8List} (dataLength : ℤ)
    (hmeta : metadata.length < 256 ^ 3) :
    readMetadata true (3 + metadata.length + dataLength)
        (cursor pre (toBytesBE 3 metadata.length ++ metadata ++ rest) checkpoint) =
      .ok (some (metadata, dataLength))
        (cursor (pre ++ (toBytesBE 3 metadata.length ++ metadata)) rest checkpoint) := by
  have h1 := readInt24_cursor pre (metadata ++ rest) checkpoint (toBytesBE 3 metadata.length)
    (length_toBytesBE _ _)
  have h2 := readUint8List_cursor (pre ++ toBytesBE 3 metadata.length) rest checkpoint metadata rfl
  rw [ofBytesBE_toBytesBE_of_lt hmeta] at h1
  have hleft : (3 : ℤ) + metadata.length + dataLength - reactiveMetadataLengthFieldSize -
      metadata.length = dataLength := by
    simp only [reactiveMetadataLengthFieldSize]
    omega
  rw [append_assoc, ← append_assoc pre]
  simp only [readMetadata, if_true, bind_ok h1, hleft]
  by_cases hpos : metadata.length > 0
  · simp only [if_pos hpos, bind_ok h2]
    rfl
  · obtain rfl : metadata = [] := eq_nil_of_length_eq_zero (by omega)
    simp only [if_neg hpos, nil_append, append_nil]
    rfl

/-- Nine bytes are a header, whatever they are. -/
theorem readFrameHeader_cursor_long (h : reactiveFrameHeaderSize ≤ rest.length) :
    ∃ front left, rest = front ++ left ∧ front.length = reactiveFrameHeaderSize ∧
      ∃ header, readFrameHeader (cursor pre rest checkpoint) =
        .ok (some header) (cursor (pre ++ front) left checkpoint) := by
  rw [reactiveFrameHeaderSize] at h
  obtain ⟨length, rest, rfl, hlen⟩ : ∃ a b, rest = a ++ b ∧ a.length = 3 :=
    ⟨rest.take 3, rest.drop 3, (take_append_drop ..).symm, by rw [length_take]; omega⟩
  rw [length_append, hlen] at h
  obtain ⟨streamId, rest, rfl, hstreamId⟩ : ∃ a b, rest = a ++ b ∧ a.length = 4 :=
    ⟨rest.take 4, rest.drop 4, (take_append_drop ..).symm, by rw [length_take]; omega⟩
  rw [length_append, hstreamId] at h
  match rest, h with
  | type :: flags :: rest, _ =>
    have hread := readFrameHeader_cursor pre rest checkpoint type flags hlen hstreamId
    simp only [append_assoc, cons_append, nil_append] at hread
    exact ⟨length ++ (streamId ++ [type, flags]), rest, by simp,
      by simp [hlen, hstreamId, reactiveFrameHeaderSize], _, hread⟩

/-- A header that is cut short. -/
theorem readFrameHeader_cursor_short (h : rest.length < reactiveFrameHeaderSize) :
    ∃ taken left, rest = taken ++ left ∧ readFrameHeader (cursor pre rest checkpoint) =
      .ok none (cursor (pre ++ taken) left checkpoint) := by
  rw [reactiveFrameHeaderSize] at h
  rcases lt_or_ge rest.length 3 with h3 | h3
  · refine ⟨[], rest, rfl, ?_⟩
    rw [readFrameHeader, bind_ok (readInt24_cursor_short pre rest checkpoint h3), append_nil]
    rfl
  obtain ⟨length, rest, rfl, hlen⟩ : ∃ a b, rest = a ++ b ∧ a.length = 3 :=
    ⟨rest.take 3, rest.drop 3, (take_append_drop ..).symm, by simpa using h3⟩
  have h1 := readInt24_cursor pre rest checkpoint length hlen
  rw [length_append, hlen] at h
  rcases lt_or_ge rest.length 4 with h4 | h4
  · refine ⟨length, rest, rfl, ?_⟩
    rw [readFrameHeader, bind_ok h1]
    simp only [bind_ok (readInt32_cursor_short (pre ++ length) rest checkpoint h4)]
    rfl
  obtain ⟨streamId, rest, rfl, hstreamId⟩ : ∃ a b, rest = a ++ b ∧ a.length = 4 :=
    ⟨rest.take 4, rest.drop 4, (take_append_drop ..).symm, by simpa using h4⟩
  have h2 := readInt32_cursor (pre ++ length) rest checkpoint streamId hstreamId
  rw [length_append, hstreamId] at h
  cases rest with
  | nil =>
    have h3 := readInt8_cursor_nil (pre ++ length ++ streamId) checkpoint
    refine ⟨length ++ streamId, [], by simp, ?_⟩
    rw [readFrameHeader, bind_ok h1]
    simp only [bind_ok h2, bind_ok h3]
    rw [append_assoc pre]
    rfl
  | cons type rest =>
    obtain rfl : rest = [] := eq_nil_of_length_eq_zero (by simp at h; omega)
    have h3 := readInt8_cursor (pre ++ length ++ streamId) [] checkpoint type
    have h4 := readInt8_cursor_nil (pre ++ length ++ streamId ++ [type]) checkpoint
    refine ⟨length ++ streamId ++ [type], [], by simp, ?_⟩
    rw [readFrameHeader, bind_ok h1]
    simp only [bind_ok h2, bind_ok h3, bind_ok h4]
    rw [append_assoc pre, append_assoc pre]
    rfl

/-- Whatever length of metadata is announced, the length of the data is what they leave. -/
theorem readMetadata_announced {field left : Uint8List} (dataLength : ℤ) (hfield : field.length = 3)
    (hleft : ofBytesBE field ≤ left.length) :
    readMetadata true dataLength (cursor pre (field ++ left) checkpoint) =
      .ok (some (left.take (ofBytesBE field), dataLength - 3 - ofBytesBE field))
        (cursor (pre ++ (field ++ left.take (ofBytesBE field))) (left.drop (ofBytesBE field))
          checkpoint) := by
  have hlt := ofBytesBE_lt field
  have hlen : (left.take (ofBytesBE field)).length = ofBytesBE field := by
    rw [length_take]
    omega
  have hmeta : (left.take (ofBytesBE field)).length < 256 ^ 3 := by
    rw [hlen, ← hfield]
    exact hlt
  have h := readMetadata_present pre (left.drop (ofBytesBE field)) checkpoint
    (dataLength - 3 - ofBytesBE field) hmeta
  have hsum : (3 : ℤ) + ofBytesBE field + (dataLength - 3 - ofBytesBE field) = dataLength := by
    omega
  have hbytes : toBytesBE 3 (ofBytesBE field) = field := by rw [← hfield, toBytesBE_ofBytesBE]
  rwa [hlen, hsum, hbytes, append_assoc, take_append_drop] at h

end Cursor

/-! ## Readers only move forward -/

theorem consumes_readMetadata (metadataPresent : Bool) (dataLength : ℤ) :
    Consumes (readMetadata metadataPresent dataLength) := by
  cases metadataPresent with
  | false => exact consumes_pure _
  | true =>
    refine consumes_readInt24.bind fun
      | none => consumes_pure _
      | some metadataLength => ?_
    simp only
    split
    · exact (consumes_readUint8List _).bind fun
        | none => consumes_pure _
        | some _ => consumes_pure _
    · exact consumes_pure _

theorem consumes_readPayload (metadataPresent : Bool) (dataLength : ℤ) :
    Consumes (readPayload metadataPresent dataLength) :=
  (consumes_readMetadata _ _).bind fun
    | none => consumes_pure _
    | some _ => (consumes_readUint8List _).bind fun
      | none => consumes_pure _
      | some _ => consumes_pure _

theorem consumes_payloadSize (header : FrameHeader) (start : ℕ) :
    Consumes (payloadSize header start) :=
  consumes_get.bind fun _ => consumes_pure _

theorem consumes_readOptionalPayload (header : FrameHeader) (payloadSize : ℤ) :
    Consumes (readOptionalPayload header payloadSize) := by
  unfold readOptionalPayload
  split
  · exact consumes_readPayload _ _
  · exact consumes_pure _

theorem consumes_readMimeType : Consumes readMimeType := by
  refine consumes_readInt8.bind fun
    | none => consumes_pure _
    | some length => (consumes_readBytes _).bind fun
      | none => consumes_pure _
      | some bytes => ?_
  simp only
  split
  · exact consumes_pure _
  · cases utf8Decode bytes with
    | ok => exact consumes_pure _
    | error => exact consumes_throw _

variable (header : FrameHeader)

theorem consumes_readSetupVariable (start keepAliveInterval keepAliveMaxLifetime : ℕ) :
    Consumes (readSetupVariable header start keepAliveInterval keepAliveMaxLifetime) :=
  consumes_readMimeType.bind fun metadataMimeType =>
    consumes_readMimeType.bind fun dataMimeType => (consumes_payloadSize _ _).bind fun _ =>
      (consumes_readOptionalPayload _ _).bind fun _ =>
        match metadataMimeType, dataMimeType with
        | some _, some _ => consumes_pure _
        | some _, none => consumes_throw _
        | none, _ => consumes_throw _

theorem consumes_readSetupFrame : Consumes (readSetupFrame header) :=
  consumes_get.bind fun _ => consumes_readInt16.bind fun _ => consumes_readInt16.bind fun _ =>
    consumes_readInt32.bind fun
      | none => consumes_throw _
      | some _ => consumes_readInt32.bind fun
        | none => consumes_throw _
        | some _ => consumes_readSetupVariable header _ _ _

theorem consumes_readLeaseFrame : Consumes (readLeaseFrame header) :=
  consumes_readInt32.bind fun
    | none => consumes_pure _
    | some _ => consumes_readInt32.bind fun
      | none => consumes_pure _
      | some _ => consumes_pure _

theorem consumes_readKeepAliveFrame : Consumes (readKeepAliveFrame header) := by
  refine consumes_get.bind fun _ => consumes_readInt32.bind fun
    | none => consumes_pure _
    | some _ => (consumes_payloadSize _ _).bind fun _ => ?_
  simp only
  split
  · exact (consumes_readPayload _ _).bind fun
      | none => consumes_pure _
      | some _ => consumes_pure _
  · exact consumes_pure _

theorem consumes_readMessage (dataLength : ℤ) : Consumes (readMessage dataLength) := by
  unfold readMessage
  split
  · exact consumes_readUint8List _
  · exact consumes_pure _

theorem consumes_readErrorFrame : Consumes (readErrorFrame header) := by
  refine consumes_get.bind fun _ => consumes_readInt32.bind fun
    | none => consumes_pure _
    | some _ => (consumes_payloadSize _ _).bind fun _ => (consumes_readMessage _).bind fun
      | none => consumes_pure _
      | some message => ?_
  simp only
  cases utf8Decode message with
  | ok => exact consumes_pure _
  | error => exact consumes_throw _

theorem consumes_readRequestChannelFrame : Consumes (readRequestChannelFrame header) := by
  refine consumes_get.bind fun _ => consumes_readInt32.bind fun
    | none => consumes_pure _
    | some _ => (consumes_payloadSize _ _).bind fun _ => ?_
  split
  · exact (consumes_readOptionalPayload _ _).bind fun _ => consumes_pure _
  · exact consumes_pure _

theorem consumes_readRequestNFrame : Consumes (readRequestNFrame header) :=
  consumes_readInt32.bind fun
    | none => consumes_pure _
    | some _ => consumes_pure _

theorem consumes_readPayloadFrame : Consumes (readPayloadFrame header) := by
  unfold readPayloadFrame
  simp only
  split
  · exact (consumes_readPayload _ _).bind fun
      | none => consumes_pure _
      | some _ => consumes_pure _
  · exact consumes_pure _

end ReactiveReader

end FengShui.Reactive
