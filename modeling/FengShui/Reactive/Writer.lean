import FengShui.Reactive.Buffer
import FengShui.Reactive.Constants
import FengShui.Reactive.Frame

/-!
# The frame writer (`reactive/writer.dart`)

Every writer fills a `ReactiveWriteBuffer` front to back and then overwrites the three bytes of the
frame length. `encodeFrame` is the layout that they all have, and each writer has an equation that
gives its frame in that form (`writeSetupFrame_eq` and the ones after it), so that nothing later
unfolds the write buffer.
-/

namespace FengShui.Reactive

open ByteString ReactiveWriteBuffer

/-- The bit that tells that a frame carries metadata. -/
def metadataBit (payload : ReactivePayload) : ℕ := if payload.metadata.isEmpty then 0 else 1

namespace ReactiveWriter

/-- `_refillFrameLength`. -/
def refillFrameLength (frameBuffer : ReactiveWriteBuffer) : ReactiveWriteBuffer :=
  let frameLength : ℤ := frameBuffer.capacity - reactiveFrameLengthFieldSize
  frameBuffer.resetWriterIndex.writeInt24 frameLength

/-- The metadata, with its length, and the data, each when it is not empty: the tail that
`writeSetupFrame`, `writeRequestChannelFrame` and `writePayloadFrame` share. -/
def writePayload (frameBuffer : ReactiveWriteBuffer) (payload : ReactivePayload) :
    ReactiveWriteBuffer :=
  let frameBuffer :=
    if !payload.metadata.isEmpty then
      (frameBuffer.writeInt24 payload.metadata.length).writeUint8List payload.metadata
    else frameBuffer
  if !payload.data.isEmpty then frameBuffer.writeUint8List payload.data else frameBuffer

def writeSetupFrame (keepAliveInterval keepAliveMaxLifetime : ℤ)
    (metadataMimeType dataMimeType : DartString) (lease : Bool) (setupPayload : ReactivePayload) :
    Uint8List :=
  let frameBuffer := new
    |>.writeInt24 0
    |>.writeInt32 0
    |>.writeInt8 (if setupPayload.metadata.isEmpty then reactiveFrameSetup <<< 2
        else reactiveFrameSetup <<< 2 ||| 1)
    |>.writeInt8 (if lease then reactiveFrameSetupFlagLease else 0)
    |>.writeInt16 reactiveProtocolMajorVersion
    |>.writeInt16 reactiveProtocolMinorVersion
    |>.writeInt32 keepAliveInterval
    |>.writeInt32 keepAliveMaxLifetime
    |>.writeInt8 metadataMimeType.length
    |>.writeBytes (utf8Encode metadataMimeType)
    |>.writeInt8 dataMimeType.length
    |>.writeBytes (utf8Encode dataMimeType)
  (refillFrameLength (writePayload frameBuffer setupPayload)).toUint8Array

def writeKeepAliveFrame (respond : Bool) (lastPosition : ℤ) : Uint8List :=
  let frameBuffer := new
    |>.writeInt24 0
    |>.writeInt32 0
    |>.writeInt8 (reactiveFrameKeepalive <<< 2)
    |>.writeInt8 (if respond then reactiveFrameKeepAliveFlagRespond else 0)
    |>.writeInt64 lastPosition
  (refillFrameLength frameBuffer).toUint8Array

def writeRequestNFrame (streamId count : ℤ) : Uint8List :=
  let frameBuffer := new
    |>.writeInt24 0
    |>.writeInt32 streamId
    |>.writeInt8 (reactiveFrameRequestN <<< 2)
    |>.writeInt8 0
    |>.writeInt32 count
  (refillFrameLength frameBuffer).toUint8Array

def writeRequestChannelFrame (streamId initialRequestN : ℤ) (payload : ReactivePayload) :
    Uint8List :=
  let frameBuffer := new
    |>.writeInt24 0
    |>.writeInt32 streamId
    |>.writeInt8 (if payload.metadata.isEmpty then reactiveFrameRequestChannel <<< 2
        else reactiveFrameRequestChannel <<< 2 ||| 1)
    |>.writeInt8 0
    |>.writeInt32 initialRequestN
  (refillFrameLength (writePayload frameBuffer payload)).toUint8Array

def writePayloadFrame (streamId : ℤ) (completed follow : Bool) (payload : Option ReactivePayload) :
    Uint8List :=
  let frameBuffer := new
    |>.writeInt24 0
    |>.writeInt32 streamId
  let flags :=
    if completed then reactiveFrameHeaderFlagComplete
    else reactiveFrameHeaderFlagNext ||| (if follow then reactiveFrameHeaderFlagFollow else 0)
  match payload with
  | some payload =>
    let frameBuffer := frameBuffer
      |>.writeInt8 (if payload.metadata.isEmpty then reactiveFramePayload <<< 2
          else reactiveFramePayload <<< 2 ||| 1)
      |>.writeInt8 flags
    (refillFrameLength (writePayload frameBuffer payload)).toUint8Array
  | none =>
    let frameBuffer := frameBuffer
      |>.writeInt8 (reactiveFramePayload <<< 2)
      |>.writeInt8 flags
    (refillFrameLength frameBuffer).toUint8Array

def writeErrorFrame (streamId code : ℤ) (message : DartString) : Uint8List :=
  let frameBuffer := new
    |>.writeInt24 0
    |>.writeInt32 streamId
    |>.writeInt8 (reactiveFrameError <<< 2)
    |>.writeInt8 0
    |>.writeInt32 code
    |>.writeBytes (utf8Encode message)
  (refillFrameLength frameBuffer).toUint8Array

def writeCancelFrame (streamId : ℤ) : Uint8List :=
  let frameBuffer := new
    |>.writeInt24 0
    |>.writeInt32 streamId
    |>.writeInt8 (reactiveFrameCancel <<< 2)
    |>.writeInt8 0
  (refillFrameLength frameBuffer).toUint8Array

def writeLeaseFrame (timeToLive requests : ℤ) : Uint8List :=
  let frameBuffer := new
    |>.writeInt24 0
    |>.writeInt32 0
    |>.writeInt8 (reactiveFrameLease <<< 2)
    |>.writeInt8 0
    |>.writeInt32 timeToLive
    |>.writeInt32 requests
  (refillFrameLength frameBuffer).toUint8Array

end ReactiveWriter

/-! ## The layout of a frame -/

/-- A frame: its length without the length field, the stream id, the type with the metadata bit,
the flags, and the body. -/
def encodeFrame (streamId : ℤ) (type metaBit flags : ℕ) (body : Uint8List) : Uint8List :=
  toBytesBE 3 (body.length + 6) ++ int32ToBytes streamId ++
    [UInt8.ofNat (type <<< 2 ||| metaBit), UInt8.ofNat flags] ++ body

/-- The bytes of a payload in a frame. -/
def encodePayload (payload : ReactivePayload) : Uint8List :=
  (if payload.metadata.isEmpty then []
    else toBytesBE 3 payload.metadata.length ++ payload.metadata) ++ payload.data

/-- The flags of a PAYLOAD frame. -/
def payloadFlags (completed follow : Bool) : ℕ :=
  if completed then reactiveFrameHeaderFlagComplete
  else reactiveFrameHeaderFlagNext ||| (if follow then reactiveFrameHeaderFlagFollow else 0)

theorem metadataBit_le_one (payload : ReactivePayload) : metadataBit payload ≤ 1 := by
  unfold metadataBit
  split <;> omega

theorem payloadFlags_lt (completed follow : Bool) : payloadFlags completed follow < 256 := by
  cases completed <;> cases follow <;> decide

/-- The flags of a PAYLOAD frame tell whether it completes the stream. -/
theorem payloadFlags_complete (completed follow : Bool) :
    (payloadFlags completed follow &&& reactiveFrameHeaderFlagComplete) > 0 ↔ completed := by
  cases completed <;> cases follow <;> decide

/-- The flags of a PAYLOAD frame tell whether more fragments follow, when it does not complete the
stream. -/
theorem payloadFlags_follow {completed follow : Bool} (h : completed → follow = false) :
    (payloadFlags completed follow &&& reactiveFrameHeaderFlagFollow) > 0 ↔ follow := by
  cases completed <;> cases follow <;> simp_all [payloadFlags, reactiveFrameHeaderFlagComplete,
    reactiveFrameHeaderFlagFollow, reactiveFrameHeaderFlagNext]

@[simp]
theorem length_int32ToBytes (value : ℤ) : (int32ToBytes value).length = 4 := by simp [int32ToBytes]

@[simp]
theorem length_encodeFrame (streamId : ℤ) (type metaBit flags : ℕ) (body : Uint8List) :
    (encodeFrame streamId type metaBit flags body).length = body.length + 9 := by
  simp [encodeFrame]
  omega

section Refill

variable (data : List ℕ) (front : Uint8List)

/-- Filling in the frame length of a buffer that starts with three bytes. -/
theorem refillFrameLength_filled (h : front.length = 3) :
    (ReactiveWriter.refillFrameLength (filled (front.map UInt8.toNat ++ data))).toUint8Array =
      toBytesBE 3 data.length ++ data.map UInt8.ofNat := by
  have hlen : ((filled (front.map UInt8.toNat ++ data)).capacity : ℤ) -
      reactiveFrameLengthFieldSize = (data.length : ℕ) := by
    simp [h, reactiveFrameLengthFieldSize]
  rw [ReactiveWriter.refillFrameLength, hlen, writeInt24,
    writeBytes_resetWriterIndex _ (by simp [h]), int24ToBytes_natCast]

theorem writePayload_filled (payload : ReactivePayload) :
    ReactiveWriter.writePayload (filled data) payload =
      filled (data ++ (encodePayload payload).map UInt8.toNat) := by
  have hdata (front : List ℕ) :
      (if !payload.data.isEmpty then (filled front).writeUint8List payload.data
        else filled front) = filled (front ++ payload.data.map UInt8.toNat) := by
    cases hd : payload.data with
    | nil => simp
    | cons b data => simp [writeUint8List]
  unfold ReactiveWriter.writePayload encodePayload
  cases hm : payload.metadata with
  | nil => simpa using hdata data
  | cons b metadata =>
    simp only [List.isEmpty_cons, Bool.not_false, if_true]
    have hmeta : ((filled data).writeInt24 (b :: metadata).length).writeUint8List (b :: metadata) =
        filled (data ++ (toBytesBE 3 (b :: metadata).length ++ b :: metadata).map UInt8.toNat) := by
      rw [writeInt24, writeUint8List, int24ToBytes_natCast, writeBytes_filled, writeBytes_filled]
      simp only [List.map_append, List.append_assoc]
    rw [hmeta, hdata]
    simp

end Refill

section Layout

open ReactiveWriter

/-- A frame whose fields are appended one by one is laid out as `encodeFrame` says. -/
theorem refillFrameLength_eq_encodeFrame (streamId : ℤ) (type metaBit flags : ℕ) (body : List ℕ) :
    (refillFrameLength (filled ((int24ToBytes 0).map UInt8.toNat ++
        ((int32ToBytes streamId).map UInt8.toNat ++ (type <<< 2 ||| metaBit) :: flags ::
          body)))).toUint8Array =
      encodeFrame streamId type metaBit flags (body.map UInt8.ofNat) := by
  rw [refillFrameLength_filled _ _ (length_int24ToBytes 0), encodeFrame]
  simp [Function.comp_def, Nat.add_comm, Nat.add_left_comm]

theorem map_ofNat_map_toNat (bytes : Uint8List) :
    (bytes.map UInt8.toNat).map UInt8.ofNat = bytes := by
  simp [Function.comp_def]

/-- The layout of a frame whose body was written as bytes. -/
theorem refillFrameLength_eq_of_bytes (streamId : ℤ) (type metaBit flags : ℕ) (body : Uint8List) :
    (refillFrameLength (filled ((int24ToBytes 0).map UInt8.toNat ++
        ((int32ToBytes streamId).map UInt8.toNat ++ (type <<< 2 ||| metaBit) :: flags ::
          body.map UInt8.toNat)))).toUint8Array =
      encodeFrame streamId type metaBit flags body := by
  rw [refillFrameLength_eq_encodeFrame, map_ofNat_map_toNat]

theorem typeByte_eq (type : ℕ) (payload : ReactivePayload) :
    (if payload.metadata.isEmpty then type <<< 2 else type <<< 2 ||| 1) =
      type <<< 2 ||| metadataBit payload := by
  unfold metadataBit
  split <;> simp

/-- The type byte of a frame without metadata. -/
theorem typeByte_zero (type : ℕ) : type <<< 2 = type <<< 2 ||| 0 := (Nat.or_zero _).symm

/-- The body of a SETUP frame. -/
def setupBody (keepAliveInterval keepAliveMaxLifetime : ℤ)
    (metadataMimeType dataMimeType : DartString) (payload : ReactivePayload) : Uint8List :=
  int16ToBytes reactiveProtocolMajorVersion ++ int16ToBytes reactiveProtocolMinorVersion ++
    int32ToBytes keepAliveInterval ++ int32ToBytes keepAliveMaxLifetime ++
    UInt8.ofNat metadataMimeType.length :: utf8Encode metadataMimeType ++
    UInt8.ofNat dataMimeType.length :: utf8Encode dataMimeType ++ encodePayload payload

theorem writeSetupFrame_eq (keepAliveInterval keepAliveMaxLifetime : ℤ)
    (metadataMimeType dataMimeType : DartString) (lease : Bool) (payload : ReactivePayload) :
    writeSetupFrame keepAliveInterval keepAliveMaxLifetime metadataMimeType dataMimeType lease
        payload =
      encodeFrame 0 reactiveFrameSetup (metadataBit payload)
        (if lease then reactiveFrameSetupFlagLease else 0)
        (setupBody keepAliveInterval keepAliveMaxLifetime metadataMimeType dataMimeType
          payload) := by
  have hbody : setupBody keepAliveInterval keepAliveMaxLifetime metadataMimeType dataMimeType
      payload =
    ((int16ToBytes reactiveProtocolMajorVersion ++ int16ToBytes reactiveProtocolMinorVersion ++
      int32ToBytes keepAliveInterval ++ int32ToBytes keepAliveMaxLifetime).map UInt8.toNat ++
      metadataMimeType.length :: (utf8Encode metadataMimeType).map UInt8.toNat ++
      dataMimeType.length :: (utf8Encode dataMimeType).map UInt8.toNat ++
      (encodePayload payload).map UInt8.toNat).map UInt8.ofNat := by
    simp [setupBody, Function.comp_def]
  rw [hbody, ← refillFrameLength_eq_encodeFrame, writeSetupFrame, typeByte_eq]
  simp [new_eq_filled, writeInt24, writeInt32, writeInt16, writePayload_filled]

theorem writeKeepAliveFrame_eq (respond : Bool) (lastPosition : ℤ) :
    writeKeepAliveFrame respond lastPosition =
      encodeFrame 0 reactiveFrameKeepalive 0
        (if respond then reactiveFrameKeepAliveFlagRespond else 0) (int64ToBytes lastPosition) := by
  rw [← refillFrameLength_eq_of_bytes, writeKeepAliveFrame, typeByte_zero]
  simp [new_eq_filled, writeInt24, writeInt32, writeInt64]

theorem writeRequestNFrame_eq (streamId count : ℤ) :
    writeRequestNFrame streamId count =
      encodeFrame streamId reactiveFrameRequestN 0 0 (int32ToBytes count) := by
  rw [← refillFrameLength_eq_of_bytes, writeRequestNFrame, typeByte_zero]
  simp [new_eq_filled, writeInt24, writeInt32]

theorem writeRequestChannelFrame_eq (streamId initialRequestN : ℤ) (payload : ReactivePayload) :
    writeRequestChannelFrame streamId initialRequestN payload =
      encodeFrame streamId reactiveFrameRequestChannel (metadataBit payload) 0
        (int32ToBytes initialRequestN ++ encodePayload payload) := by
  rw [← refillFrameLength_eq_of_bytes, writeRequestChannelFrame, typeByte_eq]
  simp [new_eq_filled, writeInt24, writeInt32, writePayload_filled]

theorem writePayloadFrame_eq (streamId : ℤ) (completed follow : Bool)
    (payload : Option ReactivePayload) :
    writePayloadFrame streamId completed follow payload =
      encodeFrame streamId reactiveFramePayload (metadataBit (payload.getD .empty))
        (payloadFlags completed follow) (encodePayload (payload.getD .empty)) := by
  rw [← refillFrameLength_eq_of_bytes]
  cases payload with
  | none =>
    rw [writePayloadFrame, typeByte_zero]
    simp [new_eq_filled, writeInt24, writeInt32, metadataBit, encodePayload, ReactivePayload.empty,
      ReactivePayload.ofData, payloadFlags]
  | some payload =>
    rw [writePayloadFrame, typeByte_eq]
    simp [new_eq_filled, writeInt24, writeInt32, writePayload_filled, payloadFlags]

theorem writeErrorFrame_eq (streamId code : ℤ) (message : DartString) :
    writeErrorFrame streamId code message =
      encodeFrame streamId reactiveFrameError 0 0 (int32ToBytes code ++ utf8Encode message) := by
  rw [← refillFrameLength_eq_of_bytes, writeErrorFrame, typeByte_zero]
  simp [new_eq_filled, writeInt24, writeInt32]

theorem writeCancelFrame_eq (streamId : ℤ) :
    writeCancelFrame streamId = encodeFrame streamId reactiveFrameCancel 0 0 [] := by
  rw [← refillFrameLength_eq_of_bytes, writeCancelFrame, typeByte_zero]
  simp [new_eq_filled, writeInt24, writeInt32]

theorem writeLeaseFrame_eq (timeToLive requests : ℤ) :
    writeLeaseFrame timeToLive requests =
      encodeFrame 0 reactiveFrameLease 0 0 (int32ToBytes timeToLive ++ int32ToBytes requests) := by
  rw [← refillFrameLength_eq_of_bytes, writeLeaseFrame, typeByte_zero]
  simp [new_eq_filled, writeInt24, writeInt32]

end Layout

end FengShui.Reactive
