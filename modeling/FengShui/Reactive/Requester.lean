import FengShui.Core.Subscription
import FengShui.Lib.Transition
import FengShui.Reactive.Assembler
import FengShui.Reactive.Exception
import FengShui.Reactive.Writer

/-!
# The requester (`reactive/requester.dart`)

The requester of a stream keeps the payloads that are scheduled in a queue behind a subscription,
which it pauses while it has no credit or cuts a payload into fragments, and gathers their frames in
a buffer that it hands to the connection from time to time. What is asynchronous in the code are
the actions of `step`: the calls of the application and of the broker, the subscription taking an
event, the connection reporting that a write is done, and the end of a timeout or of the wait in
`close`. Everything between two of them is one function here, as it is one uninterrupted piece of
code there.

Besides the fields of the code the state has two histories that nothing reads, `held` and `handed`:
the frames whose bytes are in the buffer, and those whose bytes went to the connection. That they
are is `Recorded` of `RequesterMoves`.
-/

namespace FengShui.Reactive

structure ReactiveChannelConfiguration where
  initialRequestCount : ℕ
  frameMaxSize : ℕ
  chunksLimit : ℕ
  fragmentSize : ℕ
  deriving DecidableEq, Repr

/-- `_ReactivePendingPayload`. -/
structure ReactivePendingPayload where
  bytes : Uint8List
  last : Bool
  frame : Bool
  deriving DecidableEq, Repr

/-! ## Frames and writes -/

/-- A frame that the requester makes. -/
inductive OutFrame where
  /-- A PAYLOAD frame; `starts` tells the first frame of a payload that does not end the stream. -/
  | payload (data : Uint8List) (completed follow starts : Bool)
  /-- The bytes of a frame of another type. -/
  | other (bytes : Uint8List)
  deriving DecidableEq, Repr

namespace OutFrame

def bytes (streamId : ℤ) : OutFrame → Uint8List
  | payload data completed follow _ =>
    ReactiveWriter.writePayloadFrame streamId completed follow (some (ReactivePayload.ofData data))
  | other bytes => bytes

def isPayload : OutFrame → Bool
  | payload .. => true
  | other _ => false

def isStart : OutFrame → Bool
  | payload _ _ _ starts => starts
  | other _ => false

end OutFrame

/-- A call of the connection. -/
inductive ConnectionWrite where
  | writeSingle (bytes : Uint8List)
  | writeMany (bytes : List Uint8List) (linked : Bool)
  deriving DecidableEq, Repr

/-- The bytes of a call, in their order. -/
def ConnectionWrite.bytes : ConnectionWrite → Uint8List
  | writeSingle bytes => bytes
  | writeMany bytes _ => bytes.flatten

/-- What is to be called when a write is done. -/
inductive OnDone where
  | fragmentate
  | fragmentateNext
  deriving DecidableEq, Repr

/-- The fields of the current fragments are `late` in the code; nothing reads them before a payload
is cut. -/
structure ReactiveRequester where
  pending : ℤ
  requested : ℤ
  closing : Bool
  accepting : Bool
  sending : Bool
  fragmenting : Bool
  currentFragments : List Uint8List
  currentFragmentNumber : ℕ
  currentFragmentsCount : ℕ
  lastFragments : Bool
  buffer : ReactiveRequesterBuffer
  /-- The subscription of `_input`. -/
  subscription : Subscription ReactivePendingPayload
  /-- `_closer.isCompleted`. -/
  closerCompleted : Bool
  /-- The calls of `close` that wait for `_closer` or their timeout. -/
  timers : ℕ
  /-- The calls of `close` whose timeout is over and that wait for `_closer`. -/
  waiting : ℕ
  /-- The callbacks of writes that are not done yet. -/
  callbacks : List OnDone
  /-- The calls of the connection so far. -/
  written : List ConnectionWrite
  /-- The frames in the buffer. -/
  held : List OutFrame
  /-- The frames handed to the connection so far. -/
  handed : List OutFrame
  deriving DecidableEq, Repr

/-- What happens to a requester. -/
inductive RequesterAction where
  | request (count : ℕ)
  | schedulePayload (bytes : Uint8List) (complete : Bool)
  | scheduleError (message : DartString)
  | scheduleCancel
  | resume (count : ℕ)
  /-- `close`, with a timeout or without. -/
  | close (graceful : Bool)
  /-- The timeout of a call of `close` is over. -/
  | timeout
  /-- A call of `close` goes on because `_closer` is completed. -/
  | closed
  /-- The subscription takes an event. -/
  | deliver
  /-- The connection reports that a write is done. -/
  | done (index : ℕ)
  deriving DecidableEq, Repr

namespace ReactiveRequester

/-- The constructor: the subscription starts paused. -/
def new (chunkSize : ℕ) : ReactiveRequester where
  pending := 0
  requested := 0
  closing := false
  accepting := true
  sending := true
  fragmenting := false
  currentFragments := []
  currentFragmentNumber := 0
  currentFragmentsCount := 0
  lastFragments := false
  buffer := .new chunkSize
  subscription := ⟨[], 1, false⟩
  closerCompleted := false
  timers := 0
  waiting := 0
  callbacks := []
  written := []
  held := []
  handed := []

section Code

variable (streamId : ℤ) (configuration : ReactiveChannelConfiguration)

/-- `_buffer.add` of a frame. -/
def addFrame (requester : ReactiveRequester) (frame : OutFrame) : ReactiveRequester :=
  { requester with
    buffer := requester.buffer.add (frame.bytes streamId)
    held := requester.held ++ [frame] }

/-- `_connection.writeMany` of the chunks of the buffer. -/
def writeMany (linked : Bool) (onDone : Option OnDone) (requester : ReactiveRequester) :
    ReactiveRequester :=
  { requester with
    written := requester.written ++ [.writeMany requester.buffer.chunks linked]
    callbacks := requester.callbacks ++ onDone.toList
    handed := requester.handed ++ requester.held }

/-- `_buffer.clear`. -/
def clearBuffer (requester : ReactiveRequester) : ReactiveRequester :=
  { requester with buffer := requester.buffer.clear, held := [] }

def request (count : ℕ) (requester : ReactiveRequester) : ReactiveRequester :=
  if !requester.accepting then requester
  else
    let frame := ReactiveWriter.writeRequestNFrame streamId count
    { requester with
      written := requester.written ++ [.writeSingle frame]
      handed := requester.handed ++ [.other frame] }

/-- What the three `schedule` functions do with a payload when the requester accepts it. -/
def schedule (payload : ReactivePendingPayload) (requester : ReactiveRequester) :
    ReactiveRequester :=
  let requester := { requester with
    accepting := !payload.last
    subscription := requester.subscription.add payload
    pending := requester.pending + 1 }
  let requester :=
    if payload.last && requester.requested ≠ reactiveInfinityRequestsCount then
      { requester with requested := requester.requested + 1 }
    else requester
  if requester.requested > 0 && !requester.fragmenting && requester.sending then
    { requester with subscription := requester.subscription.resume }
  else requester

def schedulePayload (bytes : Uint8List) (complete : Bool) (requester : ReactiveRequester) :
    ReactiveRequester :=
  if !requester.accepting then requester else schedule ⟨bytes, complete, false⟩ requester

def scheduleError (message : DartString) (requester : ReactiveRequester) : ReactiveRequester :=
  if !requester.accepting then requester
  else
    let frame :=
      ReactiveWriter.writeErrorFrame streamId ReactiveExceptions.applicationErrorCode message
    schedule ⟨frame, true, true⟩ requester

def scheduleCancel (requester : ReactiveRequester) : ReactiveRequester :=
  if !requester.accepting then requester
  else schedule ⟨ReactiveWriter.writeCancelFrame streamId, true, true⟩ requester

def resume (count : ℕ) (requester : ReactiveRequester) : ReactiveRequester :=
  if !requester.sending || requester.fragmenting then requester
  else if requester.requested = reactiveInfinityRequestsCount then
    { requester with subscription := requester.subscription.resume }
  else if count ≥ reactiveInfinityRequestsCount then
    { requester with
      requested := reactiveInfinityRequestsCount
      subscription := requester.subscription.resume }
  else
    let requested := requester.requested + count
    { requester with
      requested :=
        if requested > reactiveInfinityRequestsCount then reactiveInfinityRequestsCount
        else requested
      subscription := requester.subscription.resume }

/-- The part of `close` behind the wait. -/
def finishClose (requester : ReactiveRequester) : ReactiveRequester :=
  { clearBuffer { requester with sending := false, fragmenting := false, requested := 0 } with
    subscription := requester.subscription.cancel }

def close (graceful : Bool) (requester : ReactiveRequester) : ReactiveRequester :=
  if requester.closing then requester
  else
    let requester := { requester with accepting := false }
    if requester.pending > 0 && graceful then { requester with timers := requester.timers + 1 }
    else finishClose requester

/-- `onTimeout` of the wait in `close`. -/
def onTimeout (requester : ReactiveRequester) : ReactiveRequester :=
  let requester := { requester with
    sending := false
    timers := requester.timers - 1
    waiting := requester.waiting + 1 }
  if requester.fragmenting then requester else { requester with closerCompleted := true }

/-- `_stop`. -/
def stop (requester : ReactiveRequester) : ReactiveRequester :=
  { requester with
    sending := false
    subscription := requester.subscription.pause
    closerCompleted := true }

/-- The frames of one round of fragments, of which there are `chunks`. `more` tells that further
rounds follow, `starts` that the first fragment starts a payload that does not end the stream. -/
def fragmentFrames (more lastFragments : Bool) (chunks : ℕ) :
    Bool → ℕ → List Uint8List → List OutFrame
  | _, _, [] => []
  | starts, index, fragment :: fragments =>
    -- `||` leaves the index alone when more rounds follow.
    let index := if more then index else index + 1
    let follow := more || index ≠ chunks
    .payload fragment (if follow then false else lastFragments) follow starts ::
      fragmentFrames more lastFragments chunks false index fragments

/-- `_fragmentate`. -/
def fragmentate (requester : ReactiveRequester) : ReactiveRequester :=
  let chunks := min configuration.chunksLimit requester.currentFragments.length
  let starts := requester.currentFragmentNumber = 0 && !requester.lastFragments
  let requester := { requester with
    currentFragmentNumber := requester.currentFragmentNumber + chunks }
  let more := requester.currentFragmentNumber < requester.currentFragmentsCount
  let frames := fragmentFrames more requester.lastFragments chunks starts 0
    (requester.currentFragments.take chunks)
  let requester := frames.foldl (addFrame streamId) requester
  let requester := writeMany true (some .fragmentateNext) requester
  clearBuffer { requester with currentFragments := requester.currentFragments.drop chunks }

/-- `_fragmentateNext`. -/
def fragmentateNext (requester : ReactiveRequester) : ReactiveRequester :=
  if requester.currentFragmentNumber < requester.currentFragmentsCount then
    fragmentate streamId configuration requester
  else if requester.lastFragments then close false requester
  else
    -- The right operand of `_closing && (!_sending || --_pending == 0)` counts down.
    let requester :=
      if requester.closing && requester.sending then
        { requester with pending := requester.pending - 1 }
      else requester
    if requester.closing && (!requester.sending || requester.pending = 0) then stop requester
    else
      let requester := { requester with fragmenting := false }
      if requester.requested = reactiveInfinityRequestsCount then
        { requester with subscription := requester.subscription.resume }
      else
        let requester := { requester with requested := requester.requested - 1 }
        if requester.requested > 0 then
          { requester with subscription := requester.subscription.resume }
        else requester

/-- The first part of `_send`, for a payload above the limit: what `disassemble` throws goes to the
zone of the subscription, and the state stays as it is then. -/
def sendFragments (payload : ReactivePendingPayload) (requester : ReactiveRequester) :
    ReactiveRequester :=
  let requester := { requester with
    fragmenting := true
    subscription := requester.subscription.pause }
  match ReactiveAssembler.disassemble payload.bytes configuration.fragmentSize with
  | .error _ => requester
  | .ok fragments =>
    let requester := { requester with
      currentFragments := fragments
      currentFragmentNumber := 0
      currentFragmentsCount := fragments.length
      lastFragments := payload.last }
    if requester.buffer.chunks.isEmpty then fragmentate streamId configuration requester
    else
      let requester := writeMany false (some .fragmentate) requester
      clearBuffer { requester with pending := requester.pending - requester.buffer.count }

/-- The frame of a payload that is sent whole. -/
def wholeFrame (payload : ReactivePendingPayload) : OutFrame :=
  if payload.frame then .other payload.bytes
  else .payload payload.bytes payload.last false (!payload.last)

/-- The last part of `_send`, for a payload that is sent whole and does not end the stream. -/
def sendWhole (payload : ReactivePendingPayload) (requester : ReactiveRequester) :
    ReactiveRequester :=
  let requester := addFrame streamId requester (wholeFrame payload)
  let requester :=
    if requester.requested ≠ reactiveInfinityRequestsCount then
      let requester := { requester with requested := requester.requested - 1 }
      if requester.requested = 0 then
        { requester with subscription := requester.subscription.pause }
      else requester
    else requester
  if requester.buffer.count ≥ configuration.chunksLimit ||
      requester.pending - requester.buffer.count = 0 || requester.requested = 0 then
    let requester := writeMany false none requester
    let requester := clearBuffer { requester with
      pending := requester.pending - requester.buffer.count }
    if requester.pending = 0 && requester.closing then stop requester else requester
  else requester

/-- `_send`. -/
def send (payload : ReactivePendingPayload) (requester : ReactiveRequester) : ReactiveRequester :=
  if !requester.sending then requester
  else if payload.bytes.length > configuration.frameMaxSize then
    sendFragments streamId configuration payload requester
  else if payload.last then
    close false (writeMany true none (addFrame streamId requester (wholeFrame payload)))
  else sendWhole streamId configuration payload requester

def onDone (callback : OnDone) (requester : ReactiveRequester) : ReactiveRequester :=
  match callback with
  | .fragmentate => fragmentate streamId configuration requester
  | .fragmentateNext => fragmentateNext streamId configuration requester

/-- One action, `none` when it cannot happen. -/
def step (requester : ReactiveRequester) : RequesterAction → Option ReactiveRequester
  | .request count => some (request streamId count requester)
  | .schedulePayload bytes complete => some (schedulePayload bytes complete requester)
  | .scheduleError message => some (scheduleError streamId message requester)
  | .scheduleCancel => some (scheduleCancel streamId requester)
  | .resume count => some (resume count requester)
  | .close graceful => some (close graceful requester)
  | .timeout =>
    if 0 < requester.timers && !requester.closerCompleted then some (onTimeout requester) else none
  | .closed =>
    if requester.closerCompleted && 0 < requester.timers + requester.waiting then
      -- Each of them ends once, and which of them does not matter.
      some (finishClose { requester with
        waiting := requester.waiting - 1
        timers := if requester.waiting = 0 then requester.timers - 1 else requester.timers })
    else none
  | .deliver =>
    requester.subscription.next?.map fun (payload, subscription) =>
      send streamId configuration payload { requester with subscription := subscription }
  | .done index =>
    requester.callbacks[index]?.map fun callback =>
      onDone streamId configuration callback
        { requester with callbacks := requester.callbacks.eraseIdx index }

end Code

end ReactiveRequester

end FengShui.Reactive
