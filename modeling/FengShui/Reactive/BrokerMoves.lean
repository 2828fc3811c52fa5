import FengShui.Reactive.Broker

/-!
# What a call does to the broker

`Outcome` lists what a call of the responder can do to the map of streams, to the streams themselves
and to the callbacks so far, and `outcome_call` says that this is all. `step_cases` is the same for
every action. The statements about runs of the broker are proved over these, and do not unfold the
code.

The streams change in one way only, by steps of their requesters (`Later`): so whatever holds of
every state of a requester holds of the requesters of a broker.
-/

namespace FengShui.Reactive

open Effect List

/-- The callbacks that end a stream. -/
def Callback.isTerminal {Value : Type} : Callback Value → Bool
  | onComplete | onCancel => true
  | _ => false

namespace ReactiveBroker

variable {Value : Type}

/-- What becomes of a stream: its requester makes steps. -/
structure Later (stream next : ReactiveStream Value) : Prop where
  id : next.id = stream.id
  configuration : next.configuration = stream.configuration
  requester : Transition.Reachable (ReactiveRequester.step stream.id stream.configuration)
    stream.requester next.requester

theorem Later.refl (stream : ReactiveStream Value) : Later stream stream := ⟨rfl, rfl, .refl _⟩

variable {stream : ReactiveStream Value} {objects later : List (ReactiveStream Value)}
  {update : ReactiveStream Value → ReactiveStream Value} {α β : Type}
  {R : ReactiveBroker Value → ReactiveBroker Value → Prop}

theorem Later.trans {next last : ReactiveStream Value} (h : Later stream next)
    (h' : Later next last) : Later stream last := by
  obtain ⟨hid, hconfig, hreq⟩ := h
  obtain ⟨hid', hconfig', hreq'⟩ := h'
  rw [hid, hconfig] at hreq'
  exact ⟨hid'.trans hid, hconfig'.trans hconfig, hreq.trans hreq'⟩

/-- The same streams, later. -/
structure Carries (objects objects' : List (ReactiveStream Value)) : Prop where
  length : objects'.length = objects.length
  later : ∀ (index : ℕ) stream, objects[index]? = some stream →
    ∃ next, objects'[index]? = some next ∧ Later stream next

theorem Carries.refl (objects : List (ReactiveStream Value)) : Carries objects objects :=
  ⟨rfl, fun _ stream h => ⟨stream, h, .refl stream⟩⟩

theorem Carries.trans {last : List (ReactiveStream Value)} (h : Carries objects later)
    (h' : Carries later last) : Carries objects last := by
  refine ⟨h'.length.trans h.length, fun index stream hstream => ?_⟩
  obtain ⟨next, hnext, hlater⟩ := h.later index stream hstream
  obtain ⟨final, hfinal, hlater'⟩ := h'.later index next hnext
  exact ⟨final, hfinal, hlater.trans hlater'⟩

/-- A stream that is there later was there before. -/
theorem Carries.before (h : Carries objects later) {index : ℕ} {next : ReactiveStream Value}
    (hnext : later[index]? = some next) :
    ∃ stream, objects[index]? = some stream ∧ Later stream next := by
  have hlt : index < objects.length := by
    rw [← h.length]
    exact (List.getElem?_eq_some_iff.mp hnext).1
  obtain ⟨found, hfound, hlater⟩ := h.later index _ (getElem?_eq_getElem hlt)
  rw [hnext] at hfound
  cases hfound
  exact ⟨_, getElem?_eq_getElem hlt, hlater⟩

theorem Carries.modify {index : ℕ}
    (h : ∀ stream, objects[index]? = some stream → Later stream (update stream)) :
    Carries objects (objects.modify index update) := by
  refine ⟨length_modify .., fun i stream hstream => ?_⟩
  rw [getElem?_modify, hstream]
  by_cases hidx : index = i
  · subst hidx
    exact ⟨update stream, by simp, h stream hstream⟩
  · exact ⟨stream, by simp [hidx], .refl stream⟩

/-- The map of streams and the channels are untouched, and the streams only change by themselves. -/
structure Stays (broker next : ReactiveBroker Value) : Prop where
  channels : next.channels = broker.channels
  streams : next.streams = broker.streams
  objects : Carries broker.objects next.objects

/-- A computation that makes callbacks of one stream, and leaves the map as it is. -/
structure Talks (index : ℕ) (allowed : List (Callback Value) → Prop)
    (broker next : ReactiveBroker Value) : Prop extends Stays broker next where
  calls : ∃ callbacks, allowed callbacks ∧
    next.calls = broker.calls ++ callbacks.map (Prod.mk index)

/-- None of the callbacks ends the stream. -/
def Quiet (callbacks : List (Callback Value)) : Prop :=
  ∀ callback ∈ callbacks, callback.isTerminal = false

/-- A computation without callbacks. -/
structure Silent (broker next : ReactiveBroker Value) : Prop extends Stays broker next where
  calls : next.calls = broker.calls

variable {application : Application Value} {broker next last : ReactiveBroker Value} {index : ℕ}

theorem Stays.refl (broker : ReactiveBroker Value) : Stays broker broker :=
  ⟨rfl, rfl, .refl broker.objects⟩

theorem Stays.trans (h : Stays broker next) (h' : Stays next last) : Stays broker last :=
  ⟨h'.channels.trans h.channels, h'.streams.trans h.streams, h.objects.trans h'.objects⟩

theorem Silent.refl (broker : ReactiveBroker Value) : Silent broker broker := ⟨.refl broker, rfl⟩

theorem Silent.trans (h : Silent broker next) (h' : Silent next last) : Silent broker last :=
  ⟨h.toStays.trans h'.toStays, h'.calls.trans h.calls⟩

/-- What touches none of the fields that the statements are about. -/
theorem silent_of_eq (hchans : next.channels = broker.channels)
    (hstreams : next.streams = broker.streams) (hobjs : next.objects = broker.objects)
    (hcalls : next.calls = broker.calls) : Silent broker next :=
  ⟨⟨hchans, hstreams, hobjs ▸ .refl _⟩, hcalls⟩

theorem Silent.talks (h : Silent broker next) : Talks index Quiet broker next :=
  ⟨h.toStays, ⟨[], by simp [Quiet], by simpa using h.calls⟩⟩

theorem Talks.trans (h : Talks index Quiet broker next) (h' : Talks index Quiet next last) :
    Talks index Quiet broker last := by
  obtain ⟨hstays, callbacks, hquiet, hcalls⟩ := h
  obtain ⟨hstays', callbacks', hquiet', hcalls'⟩ := h'
  refine ⟨hstays.trans hstays', callbacks ++ callbacks', ?_, ?_⟩
  · intro callback hmem
    rcases mem_append.mp hmem with hmem | hmem
    · exact hquiet callback hmem
    · exact hquiet' callback hmem
  · rw [hcalls', hcalls, map_append, append_assoc]

/-! ## Changes of one stream -/

theorem silent_updateStream
    (h : ∀ stream, broker.objects[index]? = some stream → Later stream (update stream)) :
    Silent broker (updateStream index update broker) :=
  ⟨⟨rfl, rfl, Carries.modify h⟩, rfl⟩

/-- A change of what the requester does not see. -/
theorem silent_updateStream_of_eq
    (h : ∀ stream, ((update stream).id, (update stream).configuration, (update stream).requester) =
      (stream.id, stream.configuration, stream.requester)) (index : ℕ)
    (broker : ReactiveBroker Value) : Silent broker (updateStream index update broker) := by
  refine silent_updateStream fun stream _ => ?_
  obtain ⟨hid, hconfig, hreq⟩ : _ ∧ _ ∧ _ := by simpa using h stream
  exact ⟨hid, hconfig, hreq ▸ .refl _⟩

/-- A step of the requester. -/
theorem later_step {requester : ReactiveRequester} (action : RequesterAction)
    (h : stream.requester.step stream.id stream.configuration action = some requester) :
    Later stream { stream with requester := requester } := ⟨rfl, rfl, .single h⟩

theorem silent_updateRequester (index : ℕ) {update : ReactiveRequester → ReactiveRequester}
    (action : RequesterAction)
    (h : ∀ stream, broker.objects[index]? = some stream →
      stream.requester.step stream.id stream.configuration action =
        some (update stream.requester)) : Silent broker (updateRequester index update broker) :=
  silent_updateStream fun stream hstream => later_step action (h stream hstream)

/-- A call of a producer is at most one step of the requester. -/
theorem later_run (call : ProducerCall Value) (stream : ReactiveStream Value) :
    Later stream (ReactiveProducer.run call stream) := by
  cases call with
  | payload data complete =>
    unfold ReactiveProducer.run
    dsimp only
    cases stream.codec.encode data with
    | ok bytes => exact later_step (.schedulePayload bytes complete) rfl
    | error e => exact .refl stream
  | error message => exact later_step (.scheduleError message) rfl
  | cancel => exact later_step .scheduleCancel rfl
  | complete => exact later_step (.schedulePayload emptyBytes true) rfl
  | request count => exact later_step (.request count) rfl
  | unbound => exact later_step (.request reactiveInfinityRequestsCount.toNat) rfl

theorem silent_produce (calls : List (ℕ × ProducerCall Value)) (broker : ReactiveBroker Value) :
    Silent broker (calls.foldl
      (fun broker (index, call) => updateStream index (ReactiveProducer.run call) broker)
        broker) := by
  induction calls generalizing broker with
  | nil => exact .refl broker
  | cons call calls ih =>
    have hcall : Silent broker (updateStream call.1 (ReactiveProducer.run call.2) broker) :=
      silent_updateStream fun stream _ => later_run call.2 stream
    exact hcall.trans (ih _)

/-! ## Parts of calls -/

theorem keeps_late (codec : Option (ReactiveCodec Value)) : Keeps Silent broker (late codec) := by
  unfold late
  split
  · exact keeps_pure (Silent.refl broker) _
  · exact keeps_throw (Silent.refl broker) _

theorem keeps_lift (result : Except DartException α) :
    Keeps Silent broker (lift result : Broking Value α) := by
  unfold lift
  split
  · exact keeps_pure (Silent.refl broker) _
  · exact keeps_throw (Silent.refl broker) _

theorem keeps_late_bind (h : R broker broker) {codec : Option (ReactiveCodec Value)}
    {f : ReactiveCodec Value → Broking Value β} (hf : ∀ c, codec = some c → Keeps R broker (f c)) :
    Keeps R broker (late codec >>= f) := by
  cases codec with
  | none => exact h
  | some codec => exact hf codec rfl

theorem keeps_lift_bind (h : R broker broker) {result : Except DartException α}
    {f : α → Broking Value β} (hf : ∀ a, result = .ok a → Keeps R broker (f a)) :
    Keeps R broker (lift result >>= f) := by
  cases result with
  | error e => exact h
  | ok a => exact hf a rfl

/-- The broker behind a callback, whether that returns or throws. -/
def called (application : Application Value) (index : ℕ) (callback : Callback Value)
    (broker : ReactiveBroker Value) : ReactiveBroker Value :=
  (application.callback (broker.calls ++ [(index, callback)])).1.foldl
    (fun broker (index, call) => updateStream index (ReactiveProducer.run call) broker)
    { broker with calls := broker.calls ++ [(index, callback)] }

theorem invoke_eq (application : Application Value) (index : ℕ) (callback : Callback Value)
    (broker : ReactiveBroker Value) :
    invoke application index callback broker =
      match (application.callback (broker.calls ++ [(index, callback)])).2 with
      | some e => .error e (called application index callback broker)
      | none => .ok () (called application index callback broker) := by
  show (match (application.callback (broker.calls ++ [(index, callback)])).2 with
    | some e => throw e
    | none => return : Broking Value Unit) _ = _
  cases (application.callback (broker.calls ++ [(index, callback)])).2 <;> rfl

/-- A callback is recorded, and what it does leaves the map as it is. -/
theorem talks_called (application : Application Value) (index : ℕ) (callback : Callback Value)
    (broker : ReactiveBroker Value) :
    Talks index (· = [callback]) broker (called application index callback broker) := by
  have hsilent := silent_produce
    (application.callback (broker.calls ++ [(index, callback)])).1
    { broker with calls := broker.calls ++ [(index, callback)] }
  exact ⟨⟨hsilent.channels, hsilent.streams, hsilent.objects⟩, [callback], rfl, hsilent.calls⟩

theorem keeps_invoke (application : Application Value) (index : ℕ) (callback : Callback Value)
    (broker : ReactiveBroker Value) :
    Keeps (Talks index (· = [callback])) broker (invoke application index callback) := by
  unfold Keeps
  rw [invoke_eq]
  cases (application.callback (broker.calls ++ [(index, callback)])).2 <;>
    exact talks_called application index callback broker

theorem keeps_invoke_quiet {callback : Callback Value} (h : callback.isTerminal = false)
    (index : ℕ) (broker : ReactiveBroker Value) :
    Keeps (Talks index Quiet) broker (invoke application index callback) := by
  obtain ⟨hstays, callbacks, rfl, hcalls⟩ := keeps_invoke application index callback broker
  exact ⟨hstays, [callback], by simpa [Quiet] using h, hcalls⟩

/-- What makes no callback of another stream composes with what does the same. -/
theorem keeps_then {m : Broking Value α} {f : α → Broking Value β} (hm : Keeps Silent broker m)
    (hf : ∀ a next, Keeps (Talks index Quiet) next (f a)) :
    Keeps (Talks index Quiet) broker (m >>= f) :=
  (hm.mono fun _ h => h.talks).bind_trans (fun _ _ _ => Talks.trans) fun a next _ _ => hf a next

theorem keeps_subscribe (application : Application Value) (index : ℕ)
    (broker : ReactiveBroker Value) :
    Keeps (Talks index Quiet) broker (subscribe application index) := by
  unfold subscribe
  apply keeps_get_bind
  split
  · split
    · exact keeps_pure (Silent.refl broker).talks _
    · refine keeps_then
        (keeps_modify (silent_updateStream_of_eq (by intro _; rfl) index broker)) fun _ next => ?_
      exact keeps_invoke_quiet rfl index next
  · exact keeps_pure (Silent.refl broker).talks _

/-- What changes of the fragments of the stream and its payload callbacks keep. -/
theorem keeps_onPayloadFragment_of (hrefl : ∀ broker, R broker broker)
    (htrans : ∀ s t u, R s t → R t u → R s u) {index : ℕ}
    (hupdate : ∀ (update : List Uint8List → List Uint8List) broker, R broker
      (updateStream index (fun stream => { stream with fragments := update stream.fragments })
        broker))
    (hinvoke : ∀ payload broker, Keeps R broker (invoke application index (.onPayload payload)))
    (codec : ReactiveCodec Value) (payload : Uint8List) (follow complete : Bool)
    (broker : ReactiveBroker Value) :
    Keeps R broker (onPayloadFragment application index codec payload follow complete) := by
  have hdecode (bytes : Uint8List) (broker : ReactiveBroker Value) : Keeps R broker (do
      let value ← lift (codec.decode bytes)
      invoke application index (.onPayload (some value)) : Broking Value Unit) :=
    keeps_lift_bind (hrefl broker) fun _ _ => hinvoke _ broker
  have hdeliver (fragments : List Uint8List) (broker : ReactiveBroker Value) : Keeps R broker (do
      let assembled ← lift (ReactiveAssembler.reassemble fragments)
      modify (updateStream index fun stream => { stream with fragments := [] })
      let value ← lift (codec.decode assembled)
      invoke application index (.onPayload (some value)) : Broking Value Unit) :=
    keeps_lift_bind (hrefl broker) fun assembled _ =>
      Keeps.bind_trans htrans (keeps_modify (hupdate (fun _ => []) broker)) fun _ next _ _ =>
        hdecode assembled next
  -- The branches in the order of the source: more fragments follow, a payload on its own, the last
  -- fragment.
  unfold onPayloadFragment
  apply keeps_get_bind
  split
  · dsimp only
    split
    · refine Keeps.bind_trans htrans (keeps_modify (hupdate (· ++ [payload]) broker))
        fun _ next _ _ => ?_
      split
      · exact hdeliver _ next
      · exact keeps_pure (hrefl next) _
    · split
      · split
        · exact hinvoke none broker
        · exact hdecode payload broker
      · exact Keeps.bind_trans htrans (keeps_modify (hupdate (· ++ [payload]) broker))
          fun _ next _ _ => hdeliver _ next
  · exact keeps_pure (hrefl broker) _

theorem keeps_onPayloadFragment (index : ℕ) (codec : ReactiveCodec Value) (payload : Uint8List)
    (follow complete : Bool) (broker : ReactiveBroker Value) :
    Keeps (Talks index Quiet) broker
      (onPayloadFragment application index codec payload follow complete) :=
  keeps_onPayloadFragment_of (fun broker => (Silent.refl broker).talks) (fun _ _ _ => Talks.trans)
    (fun _ broker => (silent_updateStream_of_eq (by intro _; rfl) index broker).talks)
    (fun _ => keeps_invoke_quiet rfl index) codec payload follow complete broker

/-! ## What a call of the responder does -/

/-- The stream whose callbacks a call reaches. -/
def reached (broker : ReactiveBroker Value) : BrokerCall → Option ℕ
  | .request remoteStreamId count =>
    if (checkLease count broker).1 then broker.streams.get? remoteStreamId else none
  | .receive remoteStreamId payload completed follow =>
    if completed || !payload.data.isEmpty && !follow then broker.streams.get? remoteStreamId
    else none
  | .cancel streamId => broker.streams.get? streamId
  | .handle remoteStreamId _ _ =>
    if remoteStreamId ≠ 0 then broker.streams.get? remoteStreamId else none
  | _ => none

/-- The stream that a call ends, and the callbacks up to the one that tells it so. -/
def ending (application : Application Value) (broker : ReactiveBroker Value) :
    BrokerCall → Option (ℕ × List (ℕ × Callback Value))
  | .cancel streamId =>
    (broker.streams.get? streamId).map fun index => (index, broker.calls ++ [(index, .onCancel)])
  | .receive remoteStreamId payload true follow => do
    let index ← broker.streams.get? remoteStreamId
    -- A payload that throws leaves the stream in the map.
    match receiveLast application index payload.data follow broker with
    | .ok _ next => some (index, next.calls ++ [(index, .onComplete)])
    | .error _ _ => none
  | _ => none

/-- A REQUEST_CHANNEL frame opens a stream: the codecs are there, and its metadata name a
channel. -/
def opens (application : Application Value) (initialPayload : ReactivePayload)
    (broker : ReactiveBroker Value) : Bool :=
  match broker.metadataCodec, broker.dataCodec with
  | some metadataCodec, some _ =>
    match metadataCodec.decode initialPayload.metadata >>= application.method with
    | .ok method => (broker.channels.get? method).isSome
    | .error _ => false
  | _, _ => false

/-- The stream under an id leaves the map with a last callback, and its requester is closed unless
that throws. -/
structure Ends (application : Application Value) (id : ℤ) (index : ℕ)
    (broker next : ReactiveBroker Value) : Prop where
  channels : next.channels = broker.channels
  streams : next.streams = broker.streams.remove id
  objects : Carries broker.objects next.objects
  calls : ∃ callbacks callback, Quiet callbacks ∧
    next.calls = broker.calls ++ (callbacks ++ [callback]).map (Prod.mk index)
  closes : (application.callback next.calls).2 = none →
    ∀ stream, broker.objects[index]? = some stream →
    ∃ last, Later stream last ∧
      next.objects[index]? = some { last with requester := last.requester.close false }

/-- A stream under a new index, and callbacks of it that do not end it. -/
structure Begins (application : Application Value) (id : ℤ) (broker next : ReactiveBroker Value) :
    Prop where
  channels : next.channels = broker.channels
  streams : next.streams = broker.streams.set id broker.objects.length
  objects : ∃ stream key, stream.id = id ∧
    broker.channels.get? key = some stream.configuration ∧
    stream.requester = .new application.staticBuffersCapacity ∧
    Carries (broker.objects ++ [stream]) next.objects
  calls : ∃ callbacks, Quiet callbacks ∧
    next.calls = broker.calls ++ callbacks.map (Prod.mk broker.objects.length)

/-- What a call can do. -/
inductive Outcome (application : Application Value) (broker : ReactiveBroker Value)
    (call : BrokerCall) (next : ReactiveBroker Value) : Prop
  | silent (h : Silent broker next)
  | talks {index : ℕ} (hreached : reached broker call = some index)
      (h : Talks index Quiet broker next)
  | ends {id : ℤ} {index : ℕ} (hreached : reached broker call = some index)
      (hmapped : broker.streams.get? id = some index)
      (hending : ending application broker call = some (index, next.calls))
      (h : Ends application id index broker next)
  /-- An ERROR frame: the stream stays in the map. -/
  | fails {index : ℕ} (hreached : reached broker call = some index) (code : ℕ)
      (message : DartString)
      (h : Talks index (fun callbacks => callbacks = [.onError code message] ∨
        callbacks = [.onError code message, .onComplete]) broker next)
  | begins {remoteStreamId initialRequestCount : ℕ} {initialPayload : ReactivePayload}
      (hcall : call = .initiate remoteStreamId initialRequestCount initialPayload)
      (hopens : opens application initialPayload broker = true)
      (h : Begins application remoteStreamId broker next)

theorem endStream_eq {streamId : ℕ} (hmap : broker.streams.get? streamId = some index)
    (application : Application Value) (callback : Callback Value) :
    endStream application callback streamId broker =
      let removed := { broker with streams := broker.streams.remove streamId }
      match (application.callback (broker.calls ++ [(index, callback)])).2 with
      | some e => .error e (called application index callback removed)
      | none => .ok () (updateRequester index (ReactiveRequester.close false)
          (called application index callback removed)) := by
  -- The map no longer has the stream when the callback runs.
  have hstream : endStream application callback streamId broker =
      (do
        invoke application index callback
        modify (updateRequester index (ReactiveRequester.close false)) : Broking Value Unit)
        { broker with streams := broker.streams.remove streamId } := by
    unfold endStream
    rw [get_bind_apply, hmap]
    rfl
  rw [hstream]
  change EStateM.bind _ _ _ = _
  unfold EStateM.bind
  rw [invoke_eq]
  dsimp only
  cases (application.callback (broker.calls ++ [(index, callback)])).2 <;> rfl

/-- The last callback of a stream that has left the map, and `close` behind it. -/
theorem ends_endStream {streamId : ℕ} (hmap : broker.streams.get? streamId = some index)
    (application : Application Value) (callback : Callback Value) :
    Ends application streamId index broker
        (stateOf (endStream application callback streamId broker)) ∧
      (stateOf (endStream application callback streamId broker)).calls =
        broker.calls ++ [(index, callback)] := by
  obtain ⟨⟨hchans, hstreams, hobjs⟩, _, rfl, hcalls⟩ := talks_called application index callback
    { broker with streams := broker.streams.remove streamId }
  rw [endStream_eq hmap]
  cases hthrown : (application.callback (broker.calls ++ [(index, callback)])).2 with
  | some e =>
    -- The callback threw: the requester is not closed, but the stream is gone from the map.
    refine ⟨⟨hchans, hstreams, hobjs, ⟨[], callback, by simp [Quiet], hcalls⟩, ?_⟩, hcalls⟩
    intro hnone
    exfalso
    have hsome := hthrown
    rw [show broker.calls ++ [(index, callback)] = _ from hcalls.symm] at hsome
    exact absurd (hsome.symm.trans hnone) (by simp)
  | none =>
    have hclose : Silent (called application index callback
        { broker with streams := broker.streams.remove streamId }) _ :=
      silent_updateRequester index (.close false) fun stream _ => rfl
    refine ⟨⟨hclose.channels.trans hchans, hclose.streams.trans hstreams,
      hobjs.trans hclose.objects, ⟨[], callback, by simp [Quiet], hclose.calls.trans hcalls⟩, ?_⟩,
      hclose.calls.trans hcalls⟩
    intro _ stream hstream
    obtain ⟨last, hlast, hlater⟩ := hobjs.later index stream hstream
    refine ⟨last, hlater, ?_⟩
    show (List.modify _ _ _)[index]? = _
    rw [getElem?_modify, hlast]
    simp

/-- Callbacks that do not end a stream, and the end of it. -/
theorem Talks.trans_ends {id : ℤ} (h : Talks index Quiet broker next)
    (h' : Ends application id index next last) : Ends application id index broker last := by
  obtain ⟨⟨hchans, hstreams, hobjs⟩, callbacks, hquiet, hcalls⟩ := h
  obtain ⟨hchans', hstreams', hobjs', ⟨callbacks', callback, hquiet', hcalls'⟩, hcloses⟩ := h'
  refine ⟨hchans'.trans hchans, hstreams' ▸ hstreams ▸ rfl, hobjs.trans hobjs',
    ⟨callbacks ++ callbacks', callback, ?_, ?_⟩, ?_⟩
  · intro callback hmem
    rcases mem_append.mp hmem with hmem | hmem
    · exact hquiet callback hmem
    · exact hquiet' callback hmem
  · rw [hcalls', hcalls, append_assoc, map_append, map_append, map_append,
      append_assoc]
  · intro hnone stream hstream
    obtain ⟨middle, hmid, hlater⟩ := hobjs.later index stream hstream
    obtain ⟨last, hlast, hclosed⟩ := hcloses hnone middle hmid
    exact ⟨last, hlater.trans hlast, hclosed⟩

/-- A fragment that others follow makes no callback. -/
theorem silent_onPayloadFragment (index : ℕ) (codec : ReactiveCodec Value) (payload : Uint8List) :
    Keeps Silent broker (onPayloadFragment application index codec payload true false) := by
  unfold onPayloadFragment
  apply keeps_get_bind
  split
  · exact keeps_modify (silent_updateStream_of_eq (by intro _; rfl) index broker)
  · exact keeps_pure (Silent.refl broker) _

theorem keeps_receiveLast (application : Application Value) (index : ℕ) (data : Uint8List)
    (follow : Bool) (broker : ReactiveBroker Value) :
    Keeps (Talks index Quiet) broker (receiveLast application index data follow) := by
  unfold receiveLast
  split
  · apply keeps_get_bind
    exact keeps_then (keeps_late _) fun codec next =>
      keeps_onPayloadFragment index codec data follow true next
  · exact keeps_pure (Silent.refl broker).talks _

/-- What the part throws changes nothing but the failures to report. -/
theorem keeps_caught {part : Broking Value Unit} (hpart : Keeps R broker part)
    (hfail : ∀ next failures, R broker next → R broker { next with failures := failures }) :
    Keeps R broker (caught index part) := by
  unfold Keeps caught at *
  cases hres : part broker with
  | ok a next =>
    rw [hres] at hpart
    exact hpart
  | error e next =>
    rw [hres] at hpart
    exact hfail next _ hpart

theorem keeps_receiveFragment (index : ℕ) (data : Uint8List) (follow : Bool)
    (broker : ReactiveBroker Value) :
    Keeps (Talks index Quiet) broker (receiveFragment application index data follow) := by
  refine keeps_caught ?_ fun next failures h => ⟨⟨h.channels, h.streams, h.objects⟩, h.calls⟩
  apply keeps_get_bind
  exact keeps_then (keeps_late _) fun codec next =>
    keeps_onPayloadFragment index codec data follow false next

theorem silent_receiveFragment (index : ℕ) (data : Uint8List) (broker : ReactiveBroker Value) :
    Keeps Silent broker (receiveFragment application index data true) := by
  refine keeps_caught ?_ fun next failures h => ⟨⟨h.channels, h.streams, h.objects⟩, h.calls⟩
  apply keeps_get_bind
  exact (keeps_late _).bind_trans (fun _ _ _ => Silent.trans) fun codec next _ _ =>
    silent_onPayloadFragment index codec data

/-- Behind a payload that makes quiet callbacks, the stream is still there to end. -/
theorem outcome_receiveLast {remoteStreamId : ℕ}
    (hmap : broker.streams.get? remoteStreamId = some index) (payload : ReactivePayload)
    (follow : Bool) :
    Keeps (fun broker => Outcome application broker (.receive remoteStreamId payload true follow))
      broker (do
        receiveLast application index payload.data follow
        complete application remoteStreamId : Broking Value Unit) := by
  have hreached : reached broker (.receive remoteStreamId payload true follow) = some index := by
    simpa [reached] using hmap
  have hlast := keeps_receiveLast application index payload.data follow broker
  unfold Keeps at hlast ⊢
  change Outcome application broker _ (stateOf (EStateM.bind _ _ broker))
  unfold EStateM.bind
  cases hres : receiveLast application index payload.data follow broker with
  | error e next =>
    -- A callback threw behind the map was read: the stream stays in it.
    rw [hres] at hlast
    exact .talks hreached hlast
  | ok a next =>
    rw [hres, stateOf_ok] at hlast
    -- A callback does not change the map, so `complete` finds the same stream.
    have hmap' : next.streams.get? remoteStreamId = some index := by
      rw [hlast.streams]
      exact hmap
    obtain ⟨hends, hcalls⟩ := ends_endStream hmap' application .onComplete
    refine .ends hreached hmap ?_ (hlast.trans_ends hends)
    have hending : ending application broker (.receive remoteStreamId payload true follow) =
        some (index, next.calls ++ [(index, .onComplete)]) := by
      simp [ending, hmap, hres]
    exact hending.trans (by rw [← hcalls]; rfl)

theorem outcome_receive (remoteStreamId : ℕ) (payload : ReactivePayload) (completed follow : Bool) :
    Keeps (fun broker => Outcome application broker
      (.receive remoteStreamId payload completed follow)) broker
      (receive application remoteStreamId payload completed follow) := by
  unfold receive
  apply keeps_get_bind
  split
  · rename_i index hmap
    cases completed with
    | true =>
      rw [if_pos rfl]
      exact outcome_receiveLast hmap payload follow
    | false =>
      rw [if_neg Bool.false_ne_true]
      split
      · rename_i hdata
        cases follow with
        | true => exact (silent_receiveFragment index payload.data broker).mono fun _ => .silent
        | false =>
          refine (keeps_receiveFragment index payload.data false broker).mono fun _ h => ?_
          refine .talks ?_ h
          simpa [reached, hdata] using hmap
      · exact keeps_pure (.silent (Silent.refl broker)) _
  · exact keeps_pure (.silent (Silent.refl broker)) _

theorem outcome_request (remoteStreamId count : ℕ) :
    Keeps (fun broker => Outcome application broker (.request remoteStreamId count)) broker
      (request application remoteStreamId count) := by
  -- The lease counts requests of streams that are not there too.
  have hcheck : Silent broker (checkLease count broker).2 := by
    unfold checkLease
    split
    · dsimp only
      split <;> exact silent_of_eq rfl rfl rfl rfl
    · exact Silent.refl broker
  unfold request
  apply keeps_modifyGet_bind
  cases hchecked : (checkLease count broker).1 with
  | true =>
    cases hmap : broker.streams.get? remoteStreamId with
    | none =>
      refine .silent ?_
      refine hcheck.trans ?_
      apply keeps_get_bind
      rw [hcheck.streams, hmap]
      exact keeps_pure (Silent.refl _) _
    | some index =>
      have hreached : reached broker (.request remoteStreamId count) = some index := by
        rw [reached, if_pos hchecked, hmap]
      -- `onSubscribe`, then `onRequest`, and the requester resumes behind both.
      refine .talks hreached (hcheck.talks.trans ?_)
      apply keeps_get_bind
      rw [hcheck.streams, hmap]
      refine (keeps_subscribe application index _).bind_trans
        (fun _ _ _ => Talks.trans) fun _ next _ _ => ?_
      refine (keeps_invoke_quiet rfl index next).bind_trans (fun _ _ _ => Talks.trans)
        fun _ next _ _ => ?_
      exact keeps_modify (silent_updateRequester index (.resume count) fun _ _ => rfl).talks
  | false => exact .silent (hcheck.trans (silent_of_eq rfl rfl rfl rfl))

theorem outcome_handle (remoteStreamId code : ℕ) (message : DartString) :
    Keeps (fun broker => Outcome application broker (.handle remoteStreamId code message)) broker
      (handle application remoteStreamId code message) := by
  unfold handle
  split
  · rename_i hne
    apply keeps_get_bind
    split
    · rename_i index hmap
      have hreached : reached broker (.handle remoteStreamId code message) = some index := by
        rw [reached, if_pos hne, hmap]
      refine (keeps_invoke application index (.onError code message) broker).bind
        (fun _ next _ _ => keeps_invoke application index .onComplete next) ?_ ?_
      -- `onError` threw, and `onComplete` does not follow.
      · rintro next ⟨hstays, _, rfl, hcalls⟩
        exact .fails hreached code message ⟨hstays, _, .inl rfl, hcalls⟩
      · rintro next last ⟨hstays, _, rfl, hcalls⟩ ⟨hstays', _, rfl, hcalls'⟩
        refine .fails hreached code message ⟨hstays.trans hstays', _, .inr rfl, ?_⟩
        rw [hcalls', hcalls, append_assoc]
        rfl
    · exact keeps_pure (.silent (Silent.refl broker)) _
  · split
    · exact keeps_throw (.silent (Silent.refl broker)) _
    · exact keeps_pure (.silent (Silent.refl broker)) _

/-- From the new stream on, only callbacks of this stream follow. -/
theorem begins_addStream (application : Application Value) (remoteStreamId : ℕ) (key : DartString)
    (configuration : ReactiveChannelConfiguration) (codec : ReactiveCodec Value)
    (initialRequestCount : ℕ) (hchan : broker.channels.get? key = some configuration) :
    Begins application remoteStreamId broker (stateOf ((do
      subscribe application broker.objects.length
      modify (updateRequester broker.objects.length
        (ReactiveRequester.request remoteStreamId initialRequestCount)) : Broking Value Unit)
      (addStream (newStream application remoteStreamId key configuration codec initialRequestCount)
        broker))) := by
  have h :
    Keeps (Talks broker.objects.length Quiet) (addStream (newStream application remoteStreamId
      key configuration codec initialRequestCount) broker) (do
      subscribe application broker.objects.length
      modify (updateRequester broker.objects.length
        (ReactiveRequester.request remoteStreamId initialRequestCount)) : Broking Value Unit) := by
    refine (keeps_subscribe application broker.objects.length _).bind_trans
      (fun _ _ _ => Talks.trans) fun _ next htalks _ => keeps_modify ?_
    refine (silent_updateRequester broker.objects.length (.request initialRequestCount)
      fun stream hstream => ?_).talks
    -- The stream under the new index is the new stream, whose id the request has.
    obtain ⟨before, hbefore, hlater⟩ := htalks.objects.before hstream
    have hid : before.id = remoteStreamId := by
      have hnew : (broker.objects ++ [newStream application remoteStreamId key configuration codec
          initialRequestCount])[broker.objects.length]? = some before := hbefore
      rw [getElem?_append_right le_rfl, Nat.sub_self] at hnew
      cases hnew
      rfl
    rw [hlater.id, hid]
    rfl
  obtain ⟨⟨hchans, hstreams, hobjs⟩, callbacks, hquiet, hcalls⟩ := h
  exact ⟨hchans, hstreams, ⟨_, key, rfl, hchan, rfl, hobjs⟩, callbacks, hquiet, hcalls⟩

theorem outcome_initiate (remoteStreamId initialRequestCount : ℕ)
    (initialPayload : ReactivePayload) :
    Keeps (fun broker => Outcome application broker
        (.initiate remoteStreamId initialRequestCount initialPayload)) broker
      (initiate application remoteStreamId initialRequestCount initialPayload) := by
  have hsilent : Outcome application broker
      (.initiate remoteStreamId initialRequestCount initialPayload) broker :=
        .silent (Silent.refl broker)
  unfold initiate
  apply keeps_get_bind
  -- Whatever fails up to the channel's lookup fails before anything has changed.
  refine keeps_late_bind hsilent fun metadataCodec hmetaCodec => ?_
  refine keeps_lift_bind hsilent fun metadata hmeta => ?_
  refine keeps_lift_bind hsilent fun method hmethod => ?_
  apply keeps_get_bind
  split
  · rename_i configuration hchan
    apply keeps_get_bind
    refine keeps_late_bind hsilent fun dataCodec hdataCodec => ?_
    apply keeps_get_bind
    apply keeps_modify_bind
    have hopens : opens application initialPayload broker = true := by
      simp [opens, hmetaCodec, hdataCodec, hmeta, hmethod, hchan, bind, Except.bind]
    refine .begins rfl hopens ?_
    exact begins_addStream application remoteStreamId method configuration dataCodec
      initialRequestCount hchan
  · exact keeps_pure hsilent _

theorem keeps_setDataCodec (codec : ReactiveCodec Value) :
    Keeps Silent broker (setDataCodec codec) := by
  unfold setDataCodec
  apply keeps_get_bind
  split
  · exact keeps_throw (Silent.refl broker) _
  · exact keeps_modify (silent_of_eq rfl rfl rfl rfl)

theorem keeps_setMetadataCodec (codec : ReactiveCodec Value) :
    Keeps Silent broker (setMetadataCodec codec) := by
  unfold setMetadataCodec
  apply keeps_get_bind
  split
  · exact keeps_throw (Silent.refl broker) _
  · exact keeps_modify (silent_of_eq rfl rfl rfl rfl)

theorem silent_setup (dataMimeType metadataMimeType : DartString)
    (keepAliveInterval keepAliveMaxLifetime : ℕ) (lease : Bool) :
    Keeps Silent broker (setup application dataMimeType metadataMimeType keepAliveInterval
      keepAliveMaxLifetime lease) := by
  have htrans (s t u : ReactiveBroker Value) : Silent s t → Silent t u → Silent s u := Silent.trans
  unfold setup
  split
  · rename_i dataCodec metadataCodec _ _
    split
    · exact keeps_modify (silent_of_eq rfl rfl rfl rfl)
    · refine (keeps_setDataCodec dataCodec).bind_trans htrans fun _ next _ _ => ?_
      refine (keeps_setMetadataCodec metadataCodec).bind_trans htrans fun _ next _ _ => ?_
      refine Keeps.bind_trans htrans (keeps_modify ?_) fun _ next _ _ =>
        keeps_modify (silent_of_eq rfl rfl rfl rfl)
      unfold startLease
      split <;> exact silent_of_eq rfl rfl rfl rfl
  · exact keeps_modify (silent_of_eq rfl rfl rfl rfl)

theorem silent_lease (timeToLive requests : ℕ) :
    Keeps Silent broker (lease application timeToLive requests) := by
  have htrans (s t u : ReactiveBroker Value) : Silent s t → Silent t u → Silent s u := Silent.trans
  -- A stream that was not requested writes its request frame now, and calls nothing back.
  have hstream (index : ℕ) (next : ReactiveBroker Value) :
      Keeps Silent next (leaseStream application index) := by
    unfold leaseStream
    apply keeps_get_bind
    split
    · split
      · exact keeps_pure (Silent.refl next) _
      · refine Keeps.bind_trans htrans
          (keeps_modify
            (silent_updateStream_of_eq (by intro _; rfl) index next)) fun _ next _ _ => ?_
        apply keeps_get_bind
        refine (keeps_late _).bind_trans htrans fun _ next _ _ => ?_
        exact (keeps_lift _).bind_trans htrans fun _ next _ _ =>
          keeps_modify (silent_of_eq rfl rfl rfl rfl)
    · exact keeps_pure (Silent.refl next) _
  unfold lease
  refine Keeps.bind_trans htrans (keeps_modify (silent_of_eq rfl rfl rfl rfl)) fun _ next _ _ => ?_
  apply keeps_get_bind
  exact keeps_forM Silent.refl htrans hstream _ next

theorem outcome_call (application : Application Value) (broker : ReactiveBroker Value)
    (brokerCall : BrokerCall) :
    Outcome application broker brokerCall (stateOf (call application brokerCall broker)) := by
  cases brokerCall with
  | setup => exact .silent (silent_setup ..)
  | lease => exact .silent (silent_lease ..)
  | pong respond =>
    refine .silent ?_
    cases respond <;> exact silent_of_eq rfl rfl rfl rfl
  | request => exact outcome_request ..
  | initiate => exact outcome_initiate ..
  | receive => exact outcome_receive ..
  | cancel streamId =>
    show Outcome application broker _ (stateOf (endStream application .onCancel streamId broker))
    cases hmap : broker.streams.get? streamId with
    | none =>
      refine .silent ?_
      have h : Keeps Silent broker (endStream application .onCancel streamId) := by
        unfold endStream
        apply keeps_get_bind
        rw [hmap]
        exact keeps_pure (Silent.refl broker) _
      exact h
    | some index =>
      obtain ⟨hends, hcalls⟩ := ends_endStream hmap application .onCancel
      refine .ends hmap hmap ?_ hends
      rw [hcalls, ending, hmap]
      rfl
  | handle => exact outcome_handle ..

/-! ## What an action does -/

theorem silent_close (graceful : Bool) (broker : ReactiveBroker Value) :
    Silent broker (close graceful broker) := by
  have hfold (indices : List ℕ) (broker : ReactiveBroker Value) :
      Silent broker (indices.foldl
        (fun broker index => updateRequester index (ReactiveRequester.close graceful) broker)
        broker) := by
    induction indices generalizing broker with
    | nil => exact Silent.refl broker
    | cons index indices ih =>
      exact (silent_updateRequester index (.close graceful) fun _ _ => rfl).trans (ih _)
  unfold close
  split
  · exact Silent.refl broker
  · have hclosing : Silent broker
        { broker with accepting := false, closing := some broker.streams.values } :=
      silent_of_eq rfl rfl rfl rfl
    exact hclosing.trans (hfold _ _)

/-- What an action does that is not a call of the responder. -/
inductive Action (application : Application Value) (broker : ReactiveBroker Value) :
    BrokerAction Value → ReactiveBroker Value → Prop
  | silent {action : BrokerAction Value} {next : ReactiveBroker Value} (h : Silent broker next) :
      Action application broker action next
  | call {brokerCall : BrokerCall} {next : ReactiveBroker Value}
      (h : Outcome application broker brokerCall next) :
      Action application broker (.call brokerCall) next
  | connect {setupConfiguration : ReactiveSetupConfiguration} {next : ReactiveBroker Value}
      (h : connect application setupConfiguration broker = some next) :
      Action application broker (.connect setupConfiguration) next
  | consume (key : DartString) (configuration : ReactiveChannelConfiguration) :
      Action application broker (.consume key configuration)
        { broker with channels := broker.channels.set key configuration }
  | closed {indices : List ℕ} (hclosing : broker.closing = some indices)
      (hclosed : streamsClosed indices broker = true) :
      Action application broker .closed (closed broker)

theorem step_cases {action : BrokerAction Value} (h : step application broker action = some next) :
    Action application broker action next := by
  cases action with
  | call brokerCall =>
    cases h
    exact .call (outcome_call application broker brokerCall)
  | connect setupConfiguration => exact .connect h
  | consume key configuration =>
    cases h
    exact .consume key configuration
  | produce index call =>
    -- The calls of a producer reach the requester of its own stream only.
    cases h
    exact .silent (silent_updateStream fun stream _ => later_run call stream)
  | requester index action =>
    rw [step] at h
    split at h
    · obtain ⟨stream, hstream, h⟩ := Option.bind_eq_some_iff.mp h
      obtain ⟨requester, hreq, h⟩ := Option.bind_eq_some_iff.mp h
      cases h
      refine .silent (silent_updateRequester index action fun found hfound => ?_)
      obtain rfl : stream = found := Option.some.inj (hstream.symm.trans hfound)
      exact hreq
    · cases h
  | fail =>
    rw [step] at h
    split at h
    · cases h
    · rename_i index e failures _
      cases h
      have hfailures : Silent broker { broker with failures := failures } :=
        silent_of_eq rfl rfl rfl rfl
      exact .silent (hfailures.trans (silent_updateStream fun stream _ => later_run _ stream))
  | refresh =>
    rw [step] at h
    split at h
    · cases h
      exact .silent (silent_of_eq rfl rfl rfl rfl)
    · cases h
  | tick now =>
    rw [step] at h
    split at h
    · cases h
      exact .silent (silent_of_eq rfl rfl rfl rfl)
    · cases h
  | close graceful =>
    cases h
    exact .silent (silent_close graceful broker)
  | closed =>
    rw [step] at h
    split at h
    · rename_i indices hclosing
      split at h
      · rename_i hclosed
        cases h
        exact .closed hclosing hclosed
      · cases h
    · cases h

/-- A stream of `connect`. -/
theorem begins_openStream (application : Application Value)
    (setupConfiguration : ReactiveSetupConfiguration) (dataCodec : ReactiveCodec Value)
    {key : DartString} {configuration : ReactiveChannelConfiguration}
    (hchan : broker.channels.get? key = some configuration) :
    Begins application broker.currentLocalStreamId broker
      (openStream application setupConfiguration dataCodec key configuration broker) :=
  ⟨rfl, rfl, ⟨_, key, rfl, hchan, rfl, .refl _⟩, [], by simp [Quiet], (append_nil _).symm⟩

end ReactiveBroker

end FengShui.Reactive
