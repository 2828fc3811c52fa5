import FengShui.Core.Dart

/-!
# Payloads and frames (`reactive/payload.dart`, `reactive/frame.dart`)
-/

namespace FengShui.Reactive

structure ReactivePayload where
  metadata : Uint8List
  data : Uint8List
  deriving DecidableEq, Repr

namespace ReactivePayload

def ofData (data : Uint8List) : ReactivePayload := ⟨emptyBytes, data⟩

def ofMetadata (metadata : Uint8List) : ReactivePayload := ⟨metadata, emptyBytes⟩

def empty : ReactivePayload := ofData emptyBytes

end ReactivePayload

structure FrameHeader where
  frameLength : ℕ
  streamId : ℕ
  type : ℕ
  flags : ℕ
  metaPresent : Bool
  deriving DecidableEq, Repr

/-- The payload is null when the reader found it cut short. -/
structure SetupFrame where
  header : FrameHeader
  metadataMimeType : DartString
  dataMimeType : DartString
  keepAliveInterval : ℕ
  keepAliveMaxLifetime : ℕ
  leaseEnable : Bool
  payload : Option ReactivePayload
  deriving DecidableEq, Repr

structure LeaseFrame where
  header : FrameHeader
  timeToLive : ℕ
  requests : ℕ
  deriving DecidableEq, Repr

structure KeepAliveFrame where
  header : FrameHeader
  lastReceivedPosition : ℕ
  respond : Bool
  payload : Option ReactivePayload
  deriving DecidableEq, Repr

structure ErrorFrame where
  header : FrameHeader
  message : DartString
  code : ℕ
  deriving DecidableEq, Repr

structure RequestChannelFrame where
  header : FrameHeader
  initialRequestCount : ℕ
  payload : Option ReactivePayload
  deriving DecidableEq, Repr

structure RequestNFrame where
  header : FrameHeader
  count : ℕ
  deriving DecidableEq, Repr

structure PayloadFrame where
  header : FrameHeader
  completed : Bool
  follow : Bool
  payload : ReactivePayload
  deriving DecidableEq, Repr

end FengShui.Reactive
