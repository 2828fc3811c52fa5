import FengShui.Lib.Effect
import FengShui.Lib.Transition
import FengShui.Reactive.Lease
import FengShui.Reactive.Requester
import FengShui.Reactive.Responder
import FengShui.Reactive.Supplier

/-!
# The broker and its streams (`broker.dart`, `stream.dart` and `producer.dart` of `reactive`)

The objects that live on after they have left the map of streams (a stream, its requester and its
producer) are in `objects`, and the map holds their indices. What the application does is an
`Application`: its codecs, and what its callbacks do, which may depend on all callbacks so far.
`calls` keeps these for the statements; a callback calls producers and may throw. What happens to a
broker besides the calls of the responder is in `BrokerAction`.
-/

namespace FengShui.Reactive

/-- `ReactiveCodec`, with the values of the application. -/
structure ReactiveCodec (Value : Type) where
  encode : Value → Except DartException Uint8List
  decode : Uint8List → Except DartException Value

/-- A call of the channel of a stream. -/
inductive Callback (Value : Type) where
  | onSubscribe
  | onPayload (payload : Option Value)
  | onRequest (count : ℕ)
  | onError (code : ℕ) (error : DartString)
  | onComplete
  | onCancel
  deriving DecidableEq, Repr

/-- The functions of `ReactiveProducer`. -/
inductive ProducerCall (Value : Type) where
  | payload (data : Value) (complete : Bool)
  | error (message : DartString)
  | cancel
  | complete
  | request (count : ℕ)
  | unbound
  deriving DecidableEq, Repr

/-- What the broker uses of the application and its configuration. A callback is described by the
calls of producers that it makes, with the indices of their streams, and by what it throws; it may
depend on the callbacks so far, itself included. -/
structure Application (Value : Type) where
  codecs : DartString → Option (ReactiveCodec Value)
  leaseConfiguration : Option ReactiveLeaseConfiguration
  staticBuffersCapacity : ℕ
  /-- `{reactiveRoutingKey: key}`. -/
  routing : DartString → Value
  /-- `metadata[reactiveRoutingKey]`, as a `String`. -/
  method : Value → Except DartException DartString
  callback : List (ℕ × Callback Value) → List (ℕ × ProducerCall Value) × Option DartException
  /-- `_onError?.call`. -/
  onError : ℕ → DartString → Option DartException
  /-- `error.toString()`. -/
  describe : DartException → DartString

structure ReactiveStream (Value : Type) where
  id : ℤ
  key : DartString
  configuration : ReactiveChannelConfiguration
  /-- The codec of the producer. -/
  codec : ReactiveCodec Value
  initialRequestCount : ℕ
  requester : ReactiveRequester
  subscribed : Bool
  requested : Bool
  fragments : List Uint8List

structure ReactiveSetupConfiguration where
  metadataMimeType : DartString
  dataMimeType : DartString
  keepAliveInterval : ℕ
  keepAliveMaxLifetime : ℕ
  lease : Bool
  deriving DecidableEq, Repr

structure ReactiveKeepAliveTimer where
  lastPong : ℤ
  /-- The interval and the longest lifetime, once the timers run. -/
  started : Option (ℕ × ℕ)
  deriving DecidableEq, Repr

structure ReactiveBroker (Value : Type) where
  channels : DartMap DartString ReactiveChannelConfiguration
  /-- `_streams`, with the indices of the streams. -/
  streams : DartMap ℤ ℕ
  objects : List (ReactiveStream Value)
  leaseLimiter : ReactiveLeaseLimiter
  /-- `_leaseScheduler` is active. -/
  leaseScheduled : Bool
  currentLocalStreamId : ℤ
  streamIdSupplier : ReactiveStreamIdSupplier
  dataCodec : Option (ReactiveCodec Value)
  metadataCodec : Option (ReactiveCodec Value)
  accepting : Bool
  sending : Bool
  activated : Bool
  keepAliveTimer : ReactiveKeepAliveTimer
  /-- The clock. -/
  now : ℤ
  /-- The frames that the broker itself wrote. -/
  written : List Uint8List
  /-- The callbacks so far, with the indices of their streams. -/
  calls : List (ℕ × Callback Value)
  /-- The payloads that failed and that are to be reported to the peer. -/
  failures : List (ℕ × DartException)
  /-- The streams whose end a call of `close` waits for. -/
  closing : Option (List ℕ)

/-- A part of the code of the broker: it may throw, and keeps what it did until then. -/
abbrev Broking (Value : Type) := EStateM DartException (ReactiveBroker Value)

/-- What happens to a broker. -/
inductive BrokerAction (Value : Type) where
  /-- A call of the responder. -/
  | call (call : BrokerCall)
  | connect (setupConfiguration : ReactiveSetupConfiguration)
  | consume (key : DartString) (configuration : ReactiveChannelConfiguration)
  /-- The application calls a producer. -/
  | produce (index : ℕ) (call : ProducerCall Value)
  /-- Something happens to the requester of a stream. -/
  | requester (index : ℕ) (action : RequesterAction)
  /-- A payload that failed is reported. -/
  | fail
  /-- The lease scheduler runs. -/
  | refresh
  | tick (now : ℤ)
  | close (graceful : Bool)
  /-- `close` goes on because the streams are closed. -/
  | closed

namespace Application

/-- An application with one channel, that accepts everything and does nothing. -/
def idle : Application Unit where
  codecs _ := some ⟨fun _ => .ok [], fun _ => .ok ()⟩
  leaseConfiguration := none
  staticBuffersCapacity := 4
  routing _ := ()
  method _ := .ok []
  callback _ := ([], none)
  onError _ _ := none
  describe _ := []

end Application

namespace ReactiveProducer

variable {Value : Type}

/-- A call of the producer of a stream. -/
def run (call : ProducerCall Value) (stream : ReactiveStream Value) : ReactiveStream Value :=
  match call with
  | .payload data complete =>
    match stream.codec.encode data with
    | .ok bytes => { stream with requester := stream.requester.schedulePayload bytes complete }
    | .error _ => stream
  | .error message => { stream with requester := stream.requester.scheduleError stream.id message }
  | .cancel => { stream with requester := stream.requester.scheduleCancel stream.id }
  | .complete => { stream with requester := stream.requester.schedulePayload emptyBytes true }
  | .request count => { stream with requester := stream.requester.request stream.id count }
  | .unbound => { stream with
      requester := stream.requester.request stream.id reactiveInfinityRequestsCount.toNat }

end ReactiveProducer

namespace ReactiveBroker

section Code

variable {Value : Type} (application : Application Value)

/-- A change of a stream. -/
def updateStream (index : ℕ) (update : ReactiveStream Value → ReactiveStream Value)
    (broker : ReactiveBroker Value) : ReactiveBroker Value :=
  { broker with objects := broker.objects.modify index update }

/-- A change of the requester of a stream. -/
def updateRequester (index : ℕ) (update : ReactiveRequester → ReactiveRequester) :
    ReactiveBroker Value → ReactiveBroker Value :=
  updateStream index fun stream => { stream with requester := update stream.requester }

/-- `_connection.writeSingle` of the broker itself. -/
def writeSingle (bytes : Uint8List) (broker : ReactiveBroker Value) : ReactiveBroker Value :=
  { broker with written := broker.written ++ [bytes] }

/-- A `late` codec. -/
def late (codec : Option (ReactiveCodec Value)) : Broking Value (ReactiveCodec Value) :=
  match codec with
  | some codec => return codec
  | none => throw .lateInitializationError

/-- A call of the channel of a stream. -/
def invoke (index : ℕ) (callback : Callback Value) : Broking Value Unit := do
  modify fun broker => { broker with calls := broker.calls ++ [(index, callback)] }
  let (calls, thrown) := application.callback (← get).calls
  modify fun broker => calls.foldl
    (fun broker (index, call) => updateStream index (ReactiveProducer.run call) broker) broker
  match thrown with
  | some e => throw e
  | none => return

/-- The result of code that is not part of the broker. -/
def lift {α : Type} (result : Except DartException α) : Broking Value α :=
  match result with
  | .ok a => return a
  | .error e => throw e

/-! ### Streams -/

/-- `ReactiveStream.subscribe`. -/
def subscribe (index : ℕ) : Broking Value Unit := do
  let some stream := (← get).objects[index]? | return
  if stream.subscribed then return
  modify (updateStream index fun stream => { stream with subscribed := true })
  invoke application index .onSubscribe

/-- `ReactiveStream.onPayloadFragment`. -/
def onPayloadFragment (index : ℕ) (codec : ReactiveCodec Value) (payload : Uint8List)
    (follow complete : Bool) : Broking Value Unit := do
  let some stream := (← get).objects[index]? | return
  let deliver (fragments : List Uint8List) : Broking Value Unit := do
    -- `reassemble` clears the list that it is given.
    let assembled ← lift (ReactiveAssembler.reassemble fragments)
    modify (updateStream index fun stream => { stream with fragments := [] })
    let value ← lift (codec.decode assembled)
    invoke application index (.onPayload (some value))
  if follow then
    modify
      (updateStream index fun stream => { stream with fragments := stream.fragments ++ [payload] })
    if complete then deliver (stream.fragments ++ [payload])
  else if stream.fragments.isEmpty then
    if payload.isEmpty then invoke application index (.onPayload none)
    else
      let value ← lift (codec.decode payload)
      invoke application index (.onPayload (some value))
  else
    modify
      (updateStream index fun stream => { stream with fragments := stream.fragments ++ [payload] })
    deliver (stream.fragments ++ [payload])

/-! ### Calls of the responder -/

def reconfigureLease (timeToLive requests : ℕ) (broker : ReactiveBroker Value) :
    ReactiveBroker Value :=
  { broker with leaseLimiter := broker.leaseLimiter.reconfigure broker.now timeToLive requests }

/-- The lease frame of a configuration. -/
def leaseFrame (leaseConfiguration : ReactiveLeaseConfiguration) : Uint8List :=
  ReactiveWriter.writeLeaseFrame leaseConfiguration.timeToLiveCheck leaseConfiguration.requests

/-- An assignment to `_dataCodec`, which is `late final`. -/
def setDataCodec (codec : ReactiveCodec Value) : Broking Value Unit := do
  if (← get).dataCodec.isSome then throw .lateInitializationError
  else modify fun broker => { broker with dataCodec := some codec }

/-- An assignment to `_metadataCodec`. -/
def setMetadataCodec (codec : ReactiveCodec Value) : Broking Value Unit := do
  if (← get).metadataCodec.isSome then throw .lateInitializationError
  else modify fun broker => { broker with metadataCodec := some codec }

/-- The lease that a SETUP frame asks for. -/
def startLease (lease : Bool) (broker : ReactiveBroker Value) : ReactiveBroker Value :=
  match lease, application.leaseConfiguration with
  | true, some leaseConfiguration =>
    let broker :=
      reconfigureLease leaseConfiguration.timeToLiveCheck leaseConfiguration.requests broker
    let broker := writeSingle (leaseFrame leaseConfiguration) broker
    { broker with leaseScheduled := true }
  | _, _ => broker

/-- The end of `setup` and `connect`. -/
def activate (keepAliveInterval keepAliveMaxLifetime : ℕ) (broker : ReactiveBroker Value) :
    ReactiveBroker Value :=
  { broker with
    keepAliveTimer := { broker.keepAliveTimer with
      started := some (keepAliveInterval, keepAliveMaxLifetime) }
    activated := true }

/-- The answer to a SETUP frame that is not accepted. -/
def rejectSetup : ReactiveBroker Value → ReactiveBroker Value :=
  writeSingle (ReactiveWriter.writeErrorFrame 0 ReactiveExceptions.invalidSetupCode
    ReactiveExceptions.invalidSetupContent)

def setup (dataMimeType metadataMimeType : DartString)
    (keepAliveInterval keepAliveMaxLifetime : ℕ) (lease : Bool) : Broking Value Unit :=
  match application.codecs dataMimeType, application.codecs metadataMimeType with
  | some dataCodec, some metadataCodec => do
    if lease && application.leaseConfiguration.isNone then modify rejectSetup
    else
      setDataCodec dataCodec
      setMetadataCodec metadataCodec
      modify (startLease application lease)
      modify (activate keepAliveInterval keepAliveMaxLifetime)
  | _, _ => modify rejectSetup

/-- What `lease` does with a stream: it opens it if that is not done yet. -/
def leaseStream (index : ℕ) : Broking Value Unit := do
  let some stream := (← get).objects[index]? | return
  if stream.requested then return
  modify (updateStream index fun stream => { stream with requested := true })
  let metadataCodec ← late (← get).metadataCodec
  let metadata ← lift (metadataCodec.encode (application.routing stream.key))
  modify (writeSingle (ReactiveWriter.writeRequestChannelFrame stream.id stream.initialRequestCount
    (ReactivePayload.ofMetadata metadata)))

def lease (timeToLive requests : ℕ) : Broking Value Unit := do
  modify (reconfigureLease timeToLive requests)
  (← get).streams.values.forM (leaseStream application)

/-- A new stream under its id. -/
def addStream (stream : ReactiveStream Value) (broker : ReactiveBroker Value) :
    ReactiveBroker Value :=
  { broker with
    streams := broker.streams.set stream.id broker.objects.length
    objects := broker.objects ++ [stream] }

/-- The `ReactiveStream` of a channel with a new requester. -/
def newStream (id : ℤ) (key : DartString) (configuration : ReactiveChannelConfiguration)
    (codec : ReactiveCodec Value) (initialRequestCount : ℕ) : ReactiveStream Value where
  id := id
  key := key
  configuration := configuration
  codec := codec
  initialRequestCount := initialRequestCount
  requester := .new application.staticBuffersCapacity
  subscribed := false
  requested := false
  fragments := []

def initiate (remoteStreamId initialRequestCount : ℕ) (initialPayload : ReactivePayload) :
    Broking Value Unit := do
  let metadataCodec ← late (← get).metadataCodec
  let metadata ← lift (metadataCodec.decode initialPayload.metadata)
  let method ← lift (application.method metadata)
  let some configuration := (← get).channels.get? method | return
  let dataCodec ← late (← get).dataCodec
  let index := (← get).objects.length
  modify (addStream (newStream application remoteStreamId method configuration dataCodec
    initialRequestCount))
  subscribe application index
  modify (updateRequester index (ReactiveRequester.request remoteStreamId initialRequestCount))

/-- `complete` and `cancel`: the stream leaves the map, the channel is told, and the requester is
closed. -/
def endStream (callback : Callback Value) (streamId : ℕ) : Broking Value Unit := do
  let some index := (← get).streams.get? streamId | return
  modify fun broker => { broker with streams := broker.streams.remove streamId }
  invoke application index callback
  modify (updateRequester index (ReactiveRequester.close false))

def complete (streamId : ℕ) : Broking Value Unit := endStream application .onComplete streamId

def cancel (streamId : ℕ) : Broking Value Unit := endStream application .onCancel streamId

/-- `Future.sync(…).onError(…)`: what the part throws is reported to the peer later. -/
def caught (index : ℕ) (part : Broking Value Unit) : Broking Value Unit := fun broker =>
  match part broker with
  | .ok _ broker => .ok () broker
  | .error e broker => .ok () { broker with failures := broker.failures ++ [(index, e)] }

/-- The payload that does not end the stream. -/
def receiveFragment (index : ℕ) (data : Uint8List) (follow : Bool) : Broking Value Unit :=
  caught index do
    onPayloadFragment application index (← late (← get).dataCodec) data follow false

/-- The payload that ends the stream. -/
def receiveLast (index : ℕ) (data : Uint8List) (follow : Bool) : Broking Value Unit := do
  if !data.isEmpty then
    onPayloadFragment application index (← late (← get).dataCodec) data follow true

def receive (remoteStreamId : ℕ) (payload : ReactivePayload) (completed follow : Bool) :
    Broking Value Unit := do
  let data := payload.data
  let some index := (← get).streams.get? remoteStreamId | return
  if completed then
    receiveLast application index data follow
    complete application remoteStreamId
  else if !data.isEmpty then receiveFragment application index data follow

/-- The answer to a REQUEST_N frame that the lease does not allow. -/
def rejectRequest (remoteStreamId : ℕ) : ReactiveBroker Value → ReactiveBroker Value :=
  writeSingle (ReactiveWriter.writeErrorFrame remoteStreamId ReactiveExceptions.rejectedRequestCode
    ReactiveExceptions.rejectedContent)

/-- Whether the lease allows a request, and the broker behind the check. -/
def checkLease (count : ℕ) (broker : ReactiveBroker Value) : Bool × ReactiveBroker Value :=
  if broker.leaseLimiter.enabled then
    let (restricted, leaseLimiter) := broker.leaseLimiter.restricted broker.now count
    if restricted then (false, { broker with leaseLimiter := leaseLimiter })
    else (true, { broker with leaseLimiter := leaseLimiter.notify broker.now count })
  else (true, broker)

def request (remoteStreamId count : ℕ) : Broking Value Unit := do
  if ← modifyGet (checkLease count) then
    let some index := (← get).streams.get? remoteStreamId | return
    subscribe application index
    invoke application index (.onRequest count)
    modify (updateRequester index (ReactiveRequester.resume count))
  else modify (rejectRequest remoteStreamId)

def handle (remoteStreamId code : ℕ) (message : DartString) : Broking Value Unit := do
  if remoteStreamId ≠ 0 then
    let some index := (← get).streams.get? remoteStreamId | return
    invoke application index (.onError code message)
    invoke application index .onComplete
  else
    match application.onError code message with
    | some e => throw e
    | none => return

/-- `ReactiveKeepAliveTimer.pong`. -/
def pong (respond : Bool) : Broking Value Unit := do
  modify fun broker => { broker with
    keepAliveTimer := { broker.keepAliveTimer with lastPong := broker.now } }
  if respond then modify (writeSingle (ReactiveWriter.writeKeepAliveFrame false 0))

def call : BrokerCall → Broking Value Unit
  | .setup dataMimeType metadataMimeType keepAliveInterval keepAliveMaxLifetime lease =>
    setup application dataMimeType metadataMimeType keepAliveInterval keepAliveMaxLifetime lease
  | .lease timeToLive requests => lease application timeToLive requests
  | .pong respond => pong respond
  | .request remoteStreamId count => request application remoteStreamId count
  | .initiate remoteStreamId initialRequestCount initialPayload =>
    initiate application remoteStreamId initialRequestCount initialPayload
  | .receive remoteStreamId payload completed follow =>
    receive application remoteStreamId payload completed follow
  | .cancel streamId => cancel application streamId
  | .handle remoteStreamId code message => handle application remoteStreamId code message

/-! ### What else happens -/

/-- The stream of a channel in `connect`. -/
def openStream (setupConfiguration : ReactiveSetupConfiguration) (dataCodec : ReactiveCodec Value)
    (key : DartString) (configuration : ReactiveChannelConfiguration)
    (broker : ReactiveBroker Value) : ReactiveBroker Value :=
  let stream := newStream application broker.currentLocalStreamId key configuration dataCodec
    configuration.initialRequestCount
  addStream { stream with requested := !setupConfiguration.lease } broker

/-- `_currentLocalStreamId = streamIdSupplier.next(_streams)`. -/
def takeStreamId (next : ℤ) (supplier : ReactiveStreamIdSupplier) (broker : ReactiveBroker Value) :
    ReactiveBroker Value :=
  { broker with currentLocalStreamId := next, streamIdSupplier := supplier }

/-- An assignment to both codecs. -/
def setCodecs (dataCodec : ReactiveCodec Value) (metadataCodec : Option (ReactiveCodec Value))
    (broker : ReactiveBroker Value) : ReactiveBroker Value :=
  { broker with dataCodec := some dataCodec, metadataCodec := metadataCodec }

/-- The loop of `connect` over the channels; it is `none` when the supplier finds no id. -/
def connectChannels (setupConfiguration : ReactiveSetupConfiguration)
    (dataCodec metadataCodec : ReactiveCodec Value) :
    List (DartString × ReactiveChannelConfiguration) → ReactiveBroker Value →
      Option (EStateM.Result DartException (ReactiveBroker Value) (List Uint8List))
  | [], broker => some (.ok [] broker)
  | (key, configuration) :: channels, broker =>
    match metadataCodec.encode (application.routing key) with
    | .error e => some (.error e broker)
    | .ok metadata =>
      let streamId := broker.currentLocalStreamId
      let broker := openStream application setupConfiguration dataCodec key configuration broker
      let frames :=
        if setupConfiguration.lease then []
        else [ReactiveWriter.writeRequestChannelFrame streamId configuration.initialRequestCount
          (ReactivePayload.ofMetadata metadata)]
      match broker.streamIdSupplier.next broker.streams.keys with
      | none => none
      | some (next, supplier) =>
        match connectChannels setupConfiguration dataCodec metadataCodec channels
            (takeStreamId next supplier broker) with
        | some (.ok rest broker) => some (.ok (frames ++ rest) broker)
        | result => result

/-- `connect`, and the write of the frames that it returns behind the SETUP frame. -/
def connect (setupConfiguration : ReactiveSetupConfiguration) (broker : ReactiveBroker Value) :
    Option (ReactiveBroker Value) :=
  -- A codec that is missing or set throws before anything is done.
  match application.codecs setupConfiguration.dataMimeType, broker.dataCodec with
  | some dataCodec, none =>
    match application.codecs setupConfiguration.metadataMimeType, broker.metadataCodec with
    | some metadataCodec, none =>
      match connectChannels application setupConfiguration dataCodec metadataCodec
          broker.channels.entries (setCodecs dataCodec (some metadataCodec) broker) with
      | none => none
      | some (.error _ broker) => some broker
      | some (.ok frames broker) =>
        let setupFrame := ReactiveWriter.writeSetupFrame setupConfiguration.keepAliveInterval
          setupConfiguration.keepAliveMaxLifetime setupConfiguration.metadataMimeType
          setupConfiguration.dataMimeType setupConfiguration.lease ReactivePayload.empty
        some (writeSingle (setupFrame ++ frames.flatten)
          (activate setupConfiguration.keepAliveInterval setupConfiguration.keepAliveMaxLifetime
            broker))
    | _, metadataCodec => some (setCodecs dataCodec metadataCodec broker)
  | _, _ => some broker

/-- `close`, up to the wait for the streams. -/
def close (graceful : Bool) (broker : ReactiveBroker Value) : ReactiveBroker Value :=
  if !broker.accepting then broker
  else
    let broker := { broker with accepting := false, closing := some broker.streams.values }
    broker.streams.values.foldl
      (fun broker index => updateRequester index (ReactiveRequester.close graceful) broker) broker

/-- `close`, behind the wait. -/
def closed (broker : ReactiveBroker Value) : ReactiveBroker Value :=
  { broker with
    sending := false
    leaseScheduled := false
    keepAliveTimer := { broker.keepAliveTimer with started := none }
    streams := .empty
    channels := .empty
    closing := none }

/-- The streams that `close` waits for are closed. -/
def streamsClosed (indices : List ℕ) (broker : ReactiveBroker Value) : Bool :=
  indices.all fun index =>
    match broker.objects[index]? with
    | some stream => stream.requester.subscription.canceled
    | none => true

/-- What the requester does by itself, besides what the broker and the producer make it do. -/
def isOwn : RequesterAction → Bool
  | .timeout | .closed | .deliver | .done _ => true
  | _ => false

/-- One action, `none` when it cannot happen. -/
def step (broker : ReactiveBroker Value) : BrokerAction Value → Option (ReactiveBroker Value)
  | .call brokerCall => some (Effect.stateOf (call application brokerCall broker))
  | .connect setupConfiguration => connect application setupConfiguration broker
  | .consume key configuration =>
    some { broker with channels := broker.channels.set key configuration }
  | .produce index producerCall =>
    some (updateStream index (ReactiveProducer.run producerCall) broker)
  | .requester index action =>
    if isOwn action then do
      let stream ← broker.objects[index]?
      let requester ← stream.requester.step stream.id stream.configuration action
      return updateRequester index (fun _ => requester) broker
    else none
  | .fail =>
    match broker.failures with
    | [] => none
    | (index, e) :: failures =>
      some (updateStream index (ReactiveProducer.run (.error (application.describe e)))
        { broker with failures := failures })
  | .refresh =>
    match broker.leaseScheduled, application.leaseConfiguration with
    | true, some leaseConfiguration =>
      some (writeSingle (leaseFrame leaseConfiguration)
        (reconfigureLease leaseConfiguration.timeToLiveCheck leaseConfiguration.requests broker))
    | _, _ => none
  | .tick now => if broker.now ≤ now then some { broker with now := now } else none
  | .close graceful => some (close graceful broker)
  | .closed =>
    match broker.closing with
    | some indices => if streamsClosed indices broker then some (closed broker) else none
    | none => none

/-- The broker of a new connection. -/
def new (supplier : ReactiveStreamIdSupplier) (streamId now : ℤ) : ReactiveBroker Value where
  channels := .empty
  streams := .empty
  objects := []
  leaseLimiter := .new now
  leaseScheduled := false
  currentLocalStreamId := streamId
  streamIdSupplier := supplier
  dataCodec := none
  metadataCodec := none
  accepting := true
  sending := true
  activated := false
  keepAliveTimer := ⟨now, none⟩
  now := now
  written := []
  calls := []
  failures := []
  closing := none

/-- The broker as the responder sees it. -/
def toBroker : Broker (ReactiveBroker Value) where
  accepting broker := broker.accepting
  sending broker := broker.sending
  activated broker := broker.activated
  call := call application

/-- A SETUP frame and a REQUEST_CHANNEL frame of stream 1. -/
def opening : List (BrokerAction Unit) :=
  [.consume [] ⟨1, 64, 2, 64⟩, .call (.setup [] [] 0 0 false), .call (.initiate 1 1 .empty)]

end Code

/-! ### The loop of `connect` -/

variable {Value : Type} {application : Application Value} {broker : ReactiveBroker Value}

variable {setupConfiguration : ReactiveSetupConfiguration}

/-- What every round keeps is kept by the loop. -/
theorem connectChannels_invariant (Inv : ReactiveBroker Value → Prop)
    {dataCodec metadataCodec : ReactiveCodec Value}
    {channels : List (DartString × ReactiveChannelConfiguration)}
    (hround : ∀ key configuration broker next supplier, (key, configuration) ∈ channels →
      Inv broker →
      (openStream application setupConfiguration dataCodec key configuration
          broker).streamIdSupplier.next (openStream application setupConfiguration dataCodec key
          configuration broker).streams.keys = some (next, supplier) →
        Inv (takeStreamId next supplier
          (openStream application setupConfiguration dataCodec key configuration broker)))
    {result : EStateM.Result DartException (ReactiveBroker Value) (List Uint8List)}
    (h : Inv broker)
    (hres :
    connectChannels application setupConfiguration dataCodec metadataCodec channels broker =
      some result) : Inv (Effect.stateOf result) := by
  induction channels generalizing broker result with
  | nil =>
    cases hres
    exact h
  | cons channel channels ih =>
    obtain ⟨key, configuration⟩ := channel
    unfold connectChannels at hres
    split at hres
    · cases hres
      exact h
    · dsimp only at hres
      split at hres
      · cases hres
      · rename_i hnext
        have h := hround key configuration broker _ _ List.mem_cons_self h hnext
        have hround := fun key configuration broker next supplier hmem =>
          hround key configuration broker next supplier (List.mem_cons_of_mem _ hmem)
        split at hres
        · rename_i hrest
          cases hres
          have h := ih hround h hrest
          exact h
        · exact ih hround h hres

/-- What the loop keeps from the assignment of the codecs on, and what the rest does not touch, is
kept by `connect`. -/
theorem connect_invariant (Inv : ReactiveBroker Value → Prop)
    (hcodecs : ∀ dataCodec metadataCodec, Inv (setCodecs dataCodec metadataCodec broker))
    (hround : ∀ dataCodec key configuration next supplier opened,
      (key, configuration) ∈ broker.channels.entries → Inv opened →
      (openStream application setupConfiguration dataCodec key configuration
          opened).streamIdSupplier.next (openStream application setupConfiguration dataCodec key
          configuration opened).streams.keys = some (next, supplier) →
        Inv (takeStreamId next supplier
          (openStream application setupConfiguration dataCodec key configuration opened)))
    (hactivate : ∀ broker interval lifetime bytes, Inv broker →
      Inv (writeSingle bytes (activate interval lifetime broker))) {next : ReactiveBroker Value}
    (h : Inv broker) (hnext : connect application setupConfiguration broker = some next) :
    Inv next := by
  unfold connect at hnext
  split at hnext
  · rename_i dataCodec _ _
    split at hnext
    · split at hnext
      · cases hnext
      · rename_i hres
        cases hnext
        exact connectChannels_invariant Inv
          (fun key configuration opened next supplier =>
            hround dataCodec key configuration next supplier opened) (hcodecs _ _) hres
      · rename_i hres
        cases hnext
        exact hactivate _ _ _ _
          (connectChannels_invariant Inv
          (fun key configuration opened next supplier =>
            hround dataCodec key configuration next supplier opened) (hcodecs _ _) hres)
    · cases hnext
      exact hcodecs _ _
  · cases hnext
    exact h

/-! ### What the responder makes of the broker -/

/-- What `handle` does to the broker are calls of the responder, one after the other. -/
theorem exists_calls_of_handle (payload : Uint8List) (buffer : ReactiveReadBuffer)
    (broker : ReactiveBroker Value) : ∃ calls : List BrokerCall,
      Transition.run (step application) broker (calls.map .call) =
        some (ReactiveResponder.handle (toBroker application) payload buffer broker).state := by
  refine ReactiveResponder.handle_invariant (toBroker application)
    (fun next => ∃ calls : List BrokerCall,
      Transition.run (step application) broker (calls.map .call) = some next) ?_ ⟨[], rfl⟩
  rintro brokerCall next - ⟨calls, hrun⟩
  refine ⟨calls ++ [brokerCall], ?_⟩
  rw [List.map_append, Transition.run_append_of_run hrun]
  rfl

end ReactiveBroker

end FengShui.Reactive
