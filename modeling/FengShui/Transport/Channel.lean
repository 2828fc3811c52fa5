import FengShui.Core.DartMap
import FengShui.Memory.StaticBuffers
import Mathlib.Data.Int.Notation

/-!
# The channels (`client.dart`, `server.dart` and `file.dart` of `transport`)

The four classes of channels share their shape: a call takes its buffers, looks whether the channel
closes, leaves its handlers in two maps under the ids of the buffers and hands the buffers to the
ring; the completion goes to a `notify` function, which gives the buffer on or back.
-/

namespace FengShui.Transport

/-- `transportEvent…`. -/
inductive Event where
  | read
  | write
  | receiveMessage
  | sendMessage
  | connect
  deriving DecidableEq, Repr

/-- What a member of a channel asks for: how many buffers for which event, whether it takes them
with `allocateArray`, and the handlers it was given. -/
structure Request where
  event : Event
  many : Bool
  count : ℕ
  onError : Bool
  onDone : Bool
  deriving DecidableEq, Repr

namespace Request

def one (event : Event) (onError onDone : Bool) : Request := ⟨event, false, 1, onError, onDone⟩

def array (event : Event) (count : ℕ) (onError onDone : Bool) : Request :=
  ⟨event, true, count, onError, onDone⟩

end Request

namespace TransportClientChannel

def read : Request := .one .read false false

def writeSingle (_bytes : Uint8List) (onError onDone : Bool) : Request := .one .write onError onDone

def writeMany (bytes : List Uint8List) (onError onDone : Bool) : Request :=
  .array .write bytes.length onError onDone

def receive : Request := .one .receiveMessage false false

def sendSingle (_bytes : Uint8List) (onError onDone : Bool) : Request :=
  .one .sendMessage onError onDone

def sendMany (bytes : List Uint8List) (onError onDone : Bool) : Request :=
  .array .sendMessage bytes.length onError onDone

end TransportClientChannel

namespace TransportServerConnectionChannel

def read : Request := .one .read false false

def writeSingle (_bytes : Uint8List) (onError onDone : Bool) : Request := .one .write onError onDone

def writeMany (bytes : List Uint8List) (onError onDone : Bool) : Request :=
  .array .write bytes.length onError onDone

end TransportServerConnectionChannel

namespace TransportServerChannel

def receive : Request := .one .receiveMessage false false

def respondSingle (_bytes : Uint8List) (onError onDone : Bool) : Request :=
  .one .sendMessage onError onDone

def respondMany (bytes : List Uint8List) (onError onDone : Bool) : Request :=
  .array .sendMessage bytes.length onError onDone

end TransportServerChannel

namespace TransportFileChannel

def readSingle : Request := .one .read false false

def writeSingle (_bytes : Uint8List) (onError onDone : Bool) : Request := .one .write onError onDone

def readMany (count : ℕ) : Request := .array .read count false false

def writeMany (bytes : List Uint8List) (onError onDone : Bool) : Request :=
  .array .write bytes.length onError onDone

end TransportFileChannel

/-- What the `notify` functions differ in. -/
structure Notifier where
  /-- The events of which a success gives the buffer on as a payload. -/
  reads : List Event
  /-- The events that give the buffer back and call a handler. -/
  writes : List Event
  /-- The events of which a failure closes the channel. -/
  closes : List Event
  succeeds : ℤ → Bool

def TransportClientChannel.notifyData : Notifier where
  reads := [.read, .receiveMessage]
  writes := [.write, .sendMessage]
  closes := [.read]
  succeeds result := 0 < result

def TransportServerConnectionChannel.notify : Notifier where
  reads := [.read]
  writes := [.write]
  closes := [.read, .write]
  succeeds result := 0 < result

def TransportServerChannel.notifyDatagram : Notifier where
  reads := [.receiveMessage]
  writes := [.sendMessage]
  closes := []
  succeeds result := 0 < result

def TransportFileChannel.notify : Notifier where
  reads := [.read]
  writes := [.write]
  closes := []
  succeeds result := 0 ≤ result

inductive Kind where
  | client
  | serverConnection
  | server
  | file
  deriving DecidableEq, Repr

namespace Kind

def notifier : Kind → Notifier
  | client => TransportClientChannel.notifyData
  | serverConnection => TransportServerConnectionChannel.notify
  | server => TransportServerChannel.notifyDatagram
  | file => TransportFileChannel.notify

end Kind

/-- The members that take buffers, by class. -/
inductive Member where
  | clientRead
  | clientWriteSingle (bytes : Uint8List) (onError onDone : Bool)
  | clientWriteMany (bytes : List Uint8List) (onError onDone : Bool)
  | clientReceive
  | clientSendSingle (bytes : Uint8List) (onError onDone : Bool)
  | clientSendMany (bytes : List Uint8List) (onError onDone : Bool)
  | connectionRead
  | connectionWriteSingle (bytes : Uint8List) (onError onDone : Bool)
  | connectionWriteMany (bytes : List Uint8List) (onError onDone : Bool)
  | serverReceive
  | serverRespondSingle (bytes : Uint8List) (onError onDone : Bool)
  | serverRespondMany (bytes : List Uint8List) (onError onDone : Bool)
  | fileReadSingle
  | fileWriteSingle (bytes : Uint8List) (onError onDone : Bool)
  | fileReadMany (count : ℕ)
  | fileWriteMany (bytes : List Uint8List) (onError onDone : Bool)
  deriving DecidableEq, Repr

namespace Member

def kind : Member → Kind
  | clientRead | clientWriteSingle .. | clientWriteMany .. | clientReceive | clientSendSingle ..
  | clientSendMany .. => .client
  | connectionRead | connectionWriteSingle .. | connectionWriteMany .. => .serverConnection
  | serverReceive | serverRespondSingle .. | serverRespondMany .. => .server
  | fileReadSingle | fileWriteSingle .. | fileReadMany .. | fileWriteMany .. => .file

def request : Member → Request
  | clientRead => TransportClientChannel.read
  | clientWriteSingle bytes onError onDone =>
    TransportClientChannel.writeSingle bytes onError onDone
  | clientWriteMany bytes onError onDone => TransportClientChannel.writeMany bytes onError onDone
  | clientReceive => TransportClientChannel.receive
  | clientSendSingle bytes onError onDone => TransportClientChannel.sendSingle bytes onError onDone
  | clientSendMany bytes onError onDone => TransportClientChannel.sendMany bytes onError onDone
  | connectionRead => TransportServerConnectionChannel.read
  | connectionWriteSingle bytes onError onDone =>
    TransportServerConnectionChannel.writeSingle bytes onError onDone
  | connectionWriteMany bytes onError onDone =>
    TransportServerConnectionChannel.writeMany bytes onError onDone
  | serverReceive => TransportServerChannel.receive
  | serverRespondSingle bytes onError onDone =>
    TransportServerChannel.respondSingle bytes onError onDone
  | serverRespondMany bytes onError onDone =>
    TransportServerChannel.respondMany bytes onError onDone
  | fileReadSingle => TransportFileChannel.readSingle
  | fileWriteSingle bytes onError onDone => TransportFileChannel.writeSingle bytes onError onDone
  | fileReadMany count => TransportFileChannel.readMany count
  | fileWriteMany bytes onError onDone => TransportFileChannel.writeMany bytes onError onDone

/-- A request that is not one of many has one operation. -/
theorem count_request (member : Member) (h : member.request.many = false) :
    member.request.count = 1 := by
  cases member with
  | clientWriteMany | clientSendMany | connectionWriteMany | serverRespondMany | fileReadMany
    | fileWriteMany => cases h
  | _ => rfl

end Member

/-- A call of a member: its number among all calls, and its channel. -/
structure Call where
  number : ℕ
  channel : ℕ
  request : Request
  deriving DecidableEq, Repr

/-- The buffers that a call asks for. -/
def Call.count (call : Call) : ℕ := call.request.count

/-- How far `close` is. -/
inductive Stage where
  | opened
  /-- Awaits the connections of the server. -/
  | connections (graceful : Bool)
  /-- Awaits `_closer`, with a timeout if it is to be graceful. -/
  | awaits (graceful : Bool)
  /-- Behind the last `await`: the registry does not have the channel any more. -/
  | closed
  deriving DecidableEq, Repr

structure Channel where
  kind : Kind
  /-- `_server`, of a connection. -/
  server : Option ℕ
  pending : ℤ
  active : Bool
  closing : Bool
  /-- Whether `_closer` is completed. -/
  closer : Bool
  stage : Stage
  /-- The handlers by buffer id; a handler is named by the call it was given to. -/
  errorHandlers : DartMap ℕ ℕ
  doneHandlers : DartMap ℕ ℕ

namespace Channel

def create (kind : Kind) (server : Option ℕ) : Channel :=
  ⟨kind, server, 0, true, false, false, .opened, .empty, .empty⟩

/-- `close` from `if (_pending > 0)` on, up to its `await`. -/
def beginClose (graceful : Bool) (channel : Channel) : Channel :=
  if 0 < channel.pending then
    { channel with active := channel.active && graceful, stage := .awaits graceful }
  else { channel with active := false, stage := .closed }

/-- `close` up to its first `await`. -/
def close (graceful : Bool) (channel : Channel) : Channel :=
  if channel.closing then channel
  else
    match channel.kind with
    | .server => { channel with closing := true, stage := .connections graceful }
    | _ => { channel with closing := true }.beginClose graceful

/-- `_handlers[bufferId] = handler` for every id, if the handler was given. -/
def setAll (given : Bool) (call : ℕ) (bufferIds : List ℕ) (handlers : DartMap ℕ ℕ) : DartMap ℕ ℕ :=
  if given then bufferIds.foldl (fun handlers bufferId => handlers.set bufferId call) handlers
  else handlers

def register (call : Call) (bufferIds : List ℕ) (channel : Channel) : Channel :=
  { channel with
    errorHandlers := setAll call.request.onError call.number bufferIds channel.errorHandlers
    doneHandlers := setAll call.request.onDone call.number bufferIds channel.doneHandlers }

/-- `_pending--` and what the `notify` functions do with `_closer`. The inactive branch of the
client completes it without looking whether the channel closes. -/
def lower (channel : Channel) : Channel :=
  let channel := { channel with pending := channel.pending - 1 }
  if channel.active then
    if channel.pending = 0 && channel.closing then { channel with active := false, closer := true }
    else channel
  else if channel.pending = 0 && (channel.closing || channel.kind = .client) then
    { channel with closer := true }
  else channel

/-- The handlers of the outcome. -/
def handlers (succeeded : Bool) (channel : Channel) : DartMap ℕ ℕ :=
  if succeeded then channel.doneHandlers else channel.errorHandlers

def removeHandler (succeeded : Bool) (bufferId : ℕ) (channel : Channel) : Channel :=
  if succeeded then { channel with doneHandlers := channel.doneHandlers.remove bufferId }
  else { channel with errorHandlers := channel.errorHandlers.remove bufferId }

section Lower

variable (channel : Channel)

/-- One operation less is pending. -/
@[simp]
theorem pending_lower : channel.lower.pending = channel.pending - 1 := by
  unfold lower
  dsimp only
  split <;> split <;> rfl

/-- A completion closes nothing. -/
@[simp]
theorem closing_lower : channel.lower.closing = channel.closing := by
  unfold lower
  dsimp only
  split <;> split <;> rfl

/-- It does not go on with a close. -/
@[simp]
theorem stage_lower : channel.lower.stage = channel.stage := by
  unfold lower
  dsimp only
  split <;> split <;> rfl

/-- It keeps the handlers of errors. -/
@[simp]
theorem errorHandlers_lower : channel.lower.errorHandlers = channel.errorHandlers := by
  unfold lower
  dsimp only
  split <;> split <;> rfl

/-- It keeps the handlers of results. -/
@[simp]
theorem doneHandlers_lower : channel.lower.doneHandlers = channel.doneHandlers := by
  unfold lower
  dsimp only
  split <;> split <;> rfl

/-- It keeps both kinds of handlers. -/
@[simp]
theorem handlers_lower (succeeded : Bool) :
    channel.lower.handlers succeeded = channel.handlers succeeded := by
  unfold handlers
  rw [errorHandlers_lower, doneHandlers_lower]

/-- What is not active behind it was not active before, or closing. -/
theorem active_lower (h : channel.lower.active = false) :
    channel.active = false ∨ channel.closing = true := by
  unfold lower at h
  dsimp only at h
  split at h
  · split at h
    · rename_i hclosing
      exact .inr (Bool.and_eq_true_iff.mp hclosing).2
    · exact .inl h
  · rename_i hactive
    exact .inl (Bool.not_eq_true _ ▸ hactive)

/-- `_closer` is completed behind the last completion. -/
theorem closer_lower (h : channel.lower.closer = true) :
    channel.closer = true ∨
      channel.pending - 1 = 0 ∧ (channel.closing = true ∨ channel.active = false) := by
  unfold lower at h
  dsimp only at h
  split at h
  · split at h
    · rename_i hlast
      obtain ⟨hpend, hclosing⟩ := Bool.and_eq_true_iff.mp hlast
      exact .inr ⟨of_decide_eq_true hpend, .inl hclosing⟩
    · exact .inl h
  · rename_i hactive
    split at h
    · rename_i hlast
      exact .inr ⟨of_decide_eq_true (Bool.and_eq_true_iff.mp hlast).1,
        .inr (Bool.not_eq_true _ ▸ hactive)⟩
    · exact .inl h

/-- The last completion of a closing channel completes the closer. -/
theorem closer_lower_of_eq_zero (hpend : channel.pending - 1 = 0)
    (hclosing : channel.closing = true) : channel.lower.closer = true := by
  have hlast : decide (channel.pending - 1 = 0) = true := decide_eq_true hpend
  unfold lower
  dsimp only
  rw [hlast, hclosing]
  split <;> rfl

end Lower

/-- What no handler is part of stays as it is where one is removed. -/
theorem removeHandler_eq (succeeded : Bool) (bufferId : ℕ) (channel : Channel) :
    channel.removeHandler succeeded bufferId =
      { channel with
        errorHandlers := (channel.removeHandler succeeded bufferId).errorHandlers
        doneHandlers := (channel.removeHandler succeeded bufferId).doneHandlers } := by
  unfold removeHandler
  split <;> rfl

end Channel

end FengShui.Transport
