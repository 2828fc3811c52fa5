import FengShui.Core.Dart
import FengShui.Lib.FileBytes
import FengShui.Lib.Transition
import Mathlib.Data.Int.Notation

/-!
# Loading a file (`transport/file/provider.dart`, `transport/file/file.dart`)

`TransportFile.load` listens to the channel, reads in rounds of linked reads, and completes its
future from the payloads and errors that come back. A load is modelled with the pool of static
buffers to itself, as a step function: the kernel completes the reads of a chain one behind the
other, and the microtasks deliver what `notify` has added to the controller. `cancel` of the
subscription runs in the microtask in which the future completes, in front of the next event.
-/

namespace FengShui.Transport

open FengShui.FileBytes

/-- A submission queue entry of `transport_read`: its offset and whether it has `IOSQE_IO_LINK`. -/
structure FileRead where
  offset : ℕ
  linked : Bool
  deriving DecidableEq, Repr

/-- What `notify` adds to `_inboundEvents`. -/
inductive FileEvent where
  | payload (bytes : Uint8List)
  /-- `TransportCanceledException`. -/
  | canceled
  deriving DecidableEq, Repr

/-- What the future of `load` completes with. -/
inductive Loaded where
  | bytes (bytes : Uint8List)
  /-- `StateError`, where the stream has been listened to before. -/
  | stateError
  deriving DecidableEq, Repr

namespace TransportFileChannel

/-- `transport_read`, whose offset is a `uint32_t`. -/
def transportRead (offset : ℕ) (linked : Bool) : FileRead := ⟨offset % 2 ^ 32, linked⟩

/-- The loop of `readMany`, and the read behind it; `readSingle` is that read alone. -/
def reads (size : ℕ) : ℕ → ℕ → List FileRead
  | 0, _ => []
  | 1, offset => [transportRead offset false]
  | count + 2, offset => transportRead offset true :: reads size (count + 1) (offset + size)

end TransportFileChannel

/-- `_loadFile`, with the channel and the buffers. -/
structure Load where
  /-- Whether `blocksCount == 1`, at first. -/
  single : Bool
  offset : ℕ
  blocksCount : ℕ
  counter : ℕ
  bytes : Uint8List
  listening : Bool
  /-- What the completer was completed with. -/
  completions : List Loaded
  /-- The reads of the chain that are not completed. -/
  inflight : List FileRead
  /-- A read of the chain was short. -/
  broken : Bool
  /-- What is added and not delivered. -/
  events : List FileEvent
  /-- The static buffers that are free. -/
  available : ℕ
  /-- The payloads that nobody has taken, and whose buffers are not released. -/
  dropped : ℕ
  deriving DecidableEq, Repr

namespace Load

/-- `allocateArray` or `get`, and the reads. There is nobody to give back the buffers that are
missing. -/
def submit (reads : List FileRead) (load : Load) : Load :=
  if reads.length ≤ load.available then
    { load with available := load.available - reads.length, inflight := load.inflight ++ reads }
  else { load with available := 0 }

def readSingle (offset : ℕ) (load : Load) : Load :=
  load.submit [TransportFileChannel.transportRead offset false]

def readMany (size count offset : ℕ) (load : Load) : Load :=
  load.submit (TransportFileChannel.reads size count offset)

/-- `load`, behind `stat`, on a file that was listened to before or not. -/
def start (size : ℕ) (listened : Bool) (blocksCount offset available : ℕ) : Load :=
  let load : Load :=
    ⟨blocksCount = 1, offset, blocksCount, 0, [], !listened, [], [], false, [], available, 0⟩
  if listened then { load with completions := [.stateError] }
  else if load.single then load.readSingle offset
  else load.readMany size blocksCount offset

/-- The events that are payloads. -/
def payloads (events : List FileEvent) : ℕ := events.countP (· ≠ .canceled)

/-- `completer.complete(bytes.takeBytes())`, and the `cancel` behind it. -/
def complete (load : Load) : Load :=
  { load with
    completions := load.completions ++ [.bytes load.bytes]
    bytes := []
    listening := false
    events := []
    dropped := load.dropped + payloads load.events }

/-- The listener; `takeBytes` of the payload releases its buffer. -/
def onData (size stat : ℕ) (payload : Uint8List) (load : Load) : Load :=
  let load := { load with available := load.available + 1 }
  if payload.isEmpty then load.complete
  else
    let load := { load with bytes := load.bytes ++ payload }
    let left : ℤ := stat - load.bytes.length
    if left = 0 then load.complete
    else if load.single then load.readSingle (load.offset + load.bytes.length)
    else if load.counter + 1 = load.blocksCount then
      let blocksCount := min load.blocksCount (max (left.tdiv size) 1).toNat
      { load with counter := 0, blocksCount := blocksCount }.readMany size blocksCount
        (load.offset + load.bytes.length)
    else { load with counter := load.counter + 1 }

/-- `onError`, of a cancelled read. -/
def onError (load : Load) : Load := load.complete

/-- `notify` of a read that was not cancelled: the controller drops a payload without a listener. -/
def notifyPayload (bytes : Uint8List) (load : Load) : Load :=
  if load.listening then { load with events := load.events ++ [.payload bytes] }
  else { load with dropped := load.dropped + 1 }

/-- `notify` of a cancelled read. -/
def notifyCanceled (load : Load) : Load :=
  { load with
    available := load.available + 1
    events := if load.listening then load.events ++ [.canceled] else load.events }

end Load

inductive LoadAction where
  /-- The kernel completes the next read, with so many bytes. -/
  | completed (count : ℕ)
  /-- The next read is behind a short one. -/
  | canceled
  /-- The next event comes to the listener. -/
  | deliver
  deriving DecidableEq, Repr

/-- What the kernel may answer to a read. -/
def Legal (size length offset count : ℕ) : Prop :=
  if offset < length then 1 ≤ count ∧ count ≤ size ∧ offset + count ≤ length else count = 0

instance (size length offset count : ℕ) : Decidable (Legal size length offset count) := by
  unfold Legal
  infer_instance

namespace Load

def step (size : ℕ) (file : Uint8List) (load : Load) : LoadAction → Option Load
  | .completed count =>
    match load.inflight with
    | read :: inflight =>
      if load.broken = false ∧ Legal size file.length read.offset count then
        -- A chain ends with the read that is not linked.
        let load := { load with inflight := inflight, broken := read.linked && count < size }
        some (load.notifyPayload (pread file read.offset count))
      else none
    | [] => none
  | .canceled =>
    match load.inflight with
    | read :: inflight =>
      if load.broken = true then
        let load := { load with inflight := inflight, broken := read.linked }
        some load.notifyCanceled
      else none
    | [] => none
  | .deliver =>
    match load.events with
    | .payload bytes :: events =>
      let load := { load with events := events }
      some (load.onData size file.length bytes)
    | .canceled :: events =>
      let load := { load with events := events }
      some load.onError
    | [] => none

/-- There is nothing in flight and nothing to deliver. -/
def Settled (load : Load) : Prop := load.inflight = [] ∧ load.events = []

end Load

end FengShui.Transport
