import FengShui.Reactive.BrokerMoves
import FengShui.Reactive.Chunking
import FengShui.Reactive.Sending

/-!
# What a broker makes of PAYLOAD frames

While a stream is in the map, the payloads that its channel got and the fragments that the stream
keeps are those that the frames make (`heard_receive`); once it has left the map, it gets no more.
The codec is a bijection, so that every payload can be decoded; the callbacks of the application may
do what they like.
-/

namespace FengShui.Reactive

open Effect ReactiveReadBuffer ReactiveResponder List

variable {Value : Type}

/-- The codec of a bijection. -/
def ReactiveCodec.ofEquiv (codec : Value ≃ Uint8List) : ReactiveCodec Value where
  encode value := .ok (codec value)
  decode bytes := .ok (codec.symm bytes)

/-- The payload that a callback passes to the channel of a stream. -/
def payloadOf (index : ℕ) : ℕ × Callback Value → Option Value
  | (other, .onPayload (some value)) => if other = index then some value else none
  | _ => none

/-- The payloads that the channel of a stream got. -/
def payloadsOf (index : ℕ) (calls : List (ℕ × Callback Value)) : List Value :=
  calls.filterMap (payloadOf index)

theorem payloadsOf_concat (index : ℕ) (calls : List (ℕ × Callback Value))
    (call : ℕ × Callback Value) :
    payloadsOf index (calls ++ [call]) = payloadsOf index calls ++
      (payloadOf index call).toList := by
  unfold payloadsOf
  rw [filterMap_append]
  cases h : payloadOf index call with
  | none => simp [h]
  | some value => simp [h]

namespace ReactiveBroker

/-- The fragments that a stream keeps. -/
def fragmentsOf (index : ℕ) (broker : ReactiveBroker Value) : List Uint8List :=
  match broker.objects[index]? with
  | some stream => stream.fragments
  | none => []

/-- The channel of a stream has got these payloads, the stream keeps these fragments, and the rest
of what matters here is as before: the stream may leave the map, and does not come into it. -/
structure Heard (index : ℕ) (values : List Value) (fragments : List Uint8List)
    (broker next : ReactiveBroker Value) : Prop where
  accepting : next.accepting = broker.accepting
  sending : next.sending = broker.sending
  dataCodec : next.dataCodec = broker.dataCodec
  streams : ∀ id, next.streams.get? id = some index → broker.streams.get? id = some index
  objects : broker.objects.length ≤ next.objects.length
  payloads : payloadsOf index next.calls = payloadsOf index broker.calls ++ values
  fragments : fragmentsOf index next = fragments

variable {application : Application Value} {broker next last : ReactiveBroker Value} {index : ℕ}
  {values values' : List Value} {fragments fragments' : List Uint8List}

theorem Heard.refl (index : ℕ) (broker : ReactiveBroker Value) :
    Heard index [] (fragmentsOf index broker) broker broker :=
  ⟨rfl, rfl, rfl, fun _ => id, le_rfl, (append_nil _).symm, rfl⟩

theorem Heard.trans (h : Heard index values fragments broker next)
    (h' : Heard index values' fragments' next last) :
    Heard index (values ++ values') fragments' broker last where
  accepting := h'.accepting.trans h.accepting
  sending := h'.sending.trans h.sending
  dataCodec := h'.dataCodec.trans h.dataCodec
  streams id hid := h.streams id (h'.streams id hid)
  objects := h.objects.trans h'.objects
  payloads := by rw [h'.payloads, h.payloads, append_assoc]
  fragments := h'.fragments

/-- A change of a stream that does not touch its fragments. -/
theorem heard_updateStream (index other : ℕ) (update : ReactiveStream Value → ReactiveStream Value)
    (h : ∀ stream, (update stream).fragments = stream.fragments) (broker : ReactiveBroker Value) :
    Heard index [] (fragmentsOf index broker) broker (updateStream other update broker) := by
  refine ⟨rfl, rfl, rfl, fun _ => id, (length_modify ..).ge, (append_nil _).symm, ?_⟩
  unfold fragmentsOf updateStream
  rw [getElem?_modify]
  cases broker.objects[index]? with
  | none => rfl
  | some stream =>
    by_cases hidx : other = index
    · simp [hidx, h]
    · simp [hidx]

theorem heard_updateRequester (index other : ℕ) (update : ReactiveRequester → ReactiveRequester)
    (broker : ReactiveBroker Value) :
    Heard index [] (fragmentsOf index broker) broker (updateRequester other update broker) :=
  heard_updateStream index other (fun stream =>
    { stream with requester := update stream.requester }) (fun _ => rfl) broker

/-- A change of the fragments of the stream. -/
theorem heard_setFragments (hidx : index < broker.objects.length)
    (update : List Uint8List → List Uint8List) :
    Heard index [] (update (fragmentsOf index broker)) broker
      (updateStream index (fun stream => { stream with fragments := update stream.fragments })
        broker) := by
  refine ⟨rfl, rfl, rfl, fun _ => id, (length_modify ..).ge, (append_nil _).symm, ?_⟩
  unfold fragmentsOf updateStream
  rw [getElem?_modify, getElem?_eq_getElem hidx]
  simp

theorem fragments_run (call : ProducerCall Value) (stream : ReactiveStream Value) :
    (ReactiveProducer.run call stream).fragments = stream.fragments := by
  cases call with
  | payload data complete =>
    unfold ReactiveProducer.run
    dsimp only
    cases stream.codec.encode data with
    | ok bytes => rfl
    | error e => rfl
  | _ => rfl

/-- Such changes, one after the other. -/
theorem heard_foldl {α : Type} (index : ℕ) (other : α → ℕ)
    (update : α → ReactiveStream Value → ReactiveStream Value)
    (h : ∀ item stream, (update item stream).fragments = stream.fragments) (items : List α)
    (broker : ReactiveBroker Value) :
    Heard index [] (fragmentsOf index broker) broker (items.foldl
      (fun broker item => updateStream (other item) (update item) broker) broker) := by
  induction items generalizing broker with
  | nil => exact .refl index broker
  | cons item items ih =>
    have hitem := heard_updateStream index (other item) (update item) (h item) broker
    have hrest := ih (updateStream (other item) (update item) broker)
    rw [hitem.fragments] at hrest
    exact hitem.trans hrest

/-- A callback: what it does besides touches no fragments. -/
theorem heard_called (application : Application Value) (index other : ℕ) (callback : Callback Value)
    (broker : ReactiveBroker Value) :
    Heard index (payloadOf index (other, callback)).toList (fragmentsOf index broker) broker
      (called application other callback broker) := by
  have hrecord : Heard index (payloadOf index (other, callback)).toList (fragmentsOf index broker)
      broker { broker with calls := broker.calls ++ [(other, callback)] } :=
    ⟨rfl, rfl, rfl, fun _ => id, le_rfl, payloadsOf_concat index broker.calls _, rfl⟩
  have hproduce := heard_foldl index Prod.fst (fun call => ReactiveProducer.run call.2)
    (fun call => fragments_run call.2)
      (application.callback (broker.calls ++ [(other, callback)])).1
    { broker with calls := broker.calls ++ [(other, callback)] }
  have h := hrecord.trans hproduce
  rw [append_nil] at h
  exact h

theorem stateOf_invoke (application : Application Value) (index : ℕ) (callback : Callback Value)
    (broker : ReactiveBroker Value) :
    stateOf (invoke application index callback broker) =
      called application index callback broker := by
  rw [invoke_eq]
  split
  · rfl
  · rfl

/-- The channel has got no payload, and the stream keeps its fragments. -/
def Unheard (index : ℕ) (broker next : ReactiveBroker Value) : Prop :=
  Heard index [] (fragmentsOf index broker) broker next

theorem Unheard.refl (index : ℕ) (broker : ReactiveBroker Value) : Unheard index broker broker :=
  Heard.refl index broker

theorem Unheard.trans (h : Unheard index broker next) (h' : Unheard index next last) :
    Unheard index broker last := by
  unfold Unheard at *
  rw [h.fragments] at h'
  exact Heard.trans h h'

variable {callback : Callback Value} {codec : Value ≃ Uint8List}

theorem unheard_invoke (application : Application Value) (index other : ℕ)
    (hcb : payloadOf index (other, callback) = none) (broker : ReactiveBroker Value) :
    Keeps (Unheard index) broker (invoke application other callback) := by
  have hcalled := heard_called application index other callback broker
  rw [hcb] at hcalled
  unfold Keeps
  rw [stateOf_invoke]
  exact hcalled

/-- What touches none of this. -/
theorem unheard_of_eq (hacc : next.accepting = broker.accepting)
    (hsend : next.sending = broker.sending) (hcodec : next.dataCodec = broker.dataCodec)
    (hstreams : next.streams = broker.streams) (hobjs : next.objects = broker.objects)
    (hcalls : next.calls = broker.calls) : Unheard index broker next := by
  refine ⟨hacc, hsend, hcodec, fun _ => by rw [hstreams]; exact id, hobjs ▸ le_rfl, ?_, ?_⟩
  · rw [hcalls, append_nil]
  · unfold fragmentsOf
    rw [hobjs]

theorem Heard.trans_unheard (h : Heard index values fragments broker next)
    (h' : Unheard index next last) : Heard index values fragments broker last := by
  have hlast := h.trans h'
  rwa [append_nil, h.fragments] at hlast

theorem unheard_trans (index : ℕ) (s t u : ReactiveBroker Value) :
    Unheard index s t → Unheard index t u → Unheard index s u := Unheard.trans

theorem unheard_subscribe (application : Application Value) (index other : ℕ)
    (broker : ReactiveBroker Value) :
    Keeps (Unheard index) broker (subscribe application other) := by
  unfold subscribe
  apply keeps_get_bind
  split
  · split
    · exact keeps_pure (.refl index broker) _
    · exact (keeps_modify (heard_updateStream index other
        (fun stream => { stream with subscribed := true }) (fun _ => rfl) broker)).bind_trans
          (unheard_trans index) fun _ next _ _ => unheard_invoke application index other rfl next
  · exact keeps_pure (.refl index broker) _

/-! ### Calls that are not about the stream -/

theorem unheard_lease (application : Application Value) (index timeToLive requests : ℕ)
    (broker : ReactiveBroker Value) :
    Keeps (Unheard index) broker (lease application timeToLive requests) := by
  have hstream (other : ℕ) (next : ReactiveBroker Value) :
      Keeps (Unheard index) next (leaseStream application other) := by
    unfold leaseStream
    apply keeps_get_bind
    split
    · split
      · exact keeps_pure (.refl index next) _
      · refine (keeps_modify (heard_updateStream index other
          (fun stream => { stream with requested := true }) (fun _ => rfl) next)).bind_trans
            (unheard_trans index) fun _ next _ _ => ?_
        apply keeps_get_bind
        refine keeps_late_bind (.refl index next) fun codec _ => ?_
        exact keeps_lift_bind (.refl index next) fun _ _ =>
          keeps_modify (unheard_of_eq rfl rfl rfl rfl rfl rfl)
    · exact keeps_pure (.refl index next) _
  unfold lease
  refine Keeps.bind_trans (unheard_trans index)
    (keeps_modify (unheard_of_eq rfl rfl rfl rfl rfl rfl)) fun _ next _ _ => ?_
  apply keeps_get_bind
  exact keeps_forM (.refl index) (unheard_trans index) hstream _ next

/-- A SETUP frame for a broker that has its codecs. -/
theorem unheard_setup (application : Application Value) (index : ℕ)
    (hcodec : broker.dataCodec.isSome = true) (dataMimeType metadataMimeType : DartString)
    (interval lifetime : ℕ) (lease : Bool) :
    Keeps (Unheard index) broker
      (setup application dataMimeType metadataMimeType interval lifetime lease) := by
  unfold setup
  split
  · split
    · exact keeps_modify (unheard_of_eq rfl rfl rfl rfl rfl rfl)
    · unfold setDataCodec
      rw [bind_assoc]
      apply keeps_get_bind
      rw [if_pos hcodec]
      exact keeps_throw (.refl index broker) _
  · exact keeps_modify (unheard_of_eq rfl rfl rfl rfl rfl rfl)

/-- A new stream comes behind those that there are. -/
theorem unheard_addStream (hidx : index < broker.objects.length) (stream : ReactiveStream Value) :
    Unheard index broker (addStream stream broker) := by
  refine ⟨rfl, rfl, rfl, fun id hid => ?_, by simp [addStream], (append_nil _).symm, ?_⟩
  · rcases DartMap.get?_of_set _ _ hid with ⟨-, rfl⟩ | ⟨-, hid⟩
    · exact absurd hidx (lt_irrefl _)
    · exact hid
  · unfold fragmentsOf addStream
    rw [getElem?_append_left hidx]

theorem unheard_initiate (application : Application Value) (hidx : index < broker.objects.length)
    (remoteStreamId count : ℕ) (payload : ReactivePayload) :
    Keeps (Unheard index) broker (initiate application remoteStreamId count payload) := by
  have hrefl := Unheard.refl index broker
  unfold initiate
  apply keeps_get_bind
  refine keeps_late_bind hrefl fun _ _ => ?_
  refine keeps_lift_bind hrefl fun _ _ => keeps_lift_bind hrefl fun method _ => ?_
  apply keeps_get_bind
  split
  · refine keeps_get_bind (keeps_late_bind hrefl fun codec _ => keeps_get_bind ?_)
    refine (keeps_modify (unheard_addStream hidx _)).bind_trans (unheard_trans index)
      fun _ next _ _ => ?_
    exact (unheard_subscribe application index _ next).bind_trans (unheard_trans index)
      fun _ next _ _ => keeps_modify (heard_updateRequester index _ _ next)
  · exact keeps_pure hrefl _

/-- A stream ends: it leaves the map. -/
theorem unheard_endStream (application : Application Value) (index : ℕ)
    (hcb : ∀ other, payloadOf index (other, callback) = none) (streamId : ℕ)
    (broker : ReactiveBroker Value) :
    Keeps (Unheard index) broker (endStream application callback streamId) := by
  unfold endStream
  apply keeps_get_bind
  split
  · have hremoved : Unheard index broker
        { broker with streams := broker.streams.remove streamId } :=
      ⟨rfl, rfl, rfl, fun _ hid => (DartMap.get?_of_remove _ _ hid).2, le_rfl,
        (append_nil _).symm, rfl⟩
    refine (keeps_modify hremoved).bind_trans (unheard_trans index) fun _ next _ _ => ?_
    exact (unheard_invoke application index _ (hcb _) next).bind_trans (unheard_trans index)
      fun _ next _ _ => keeps_modify (heard_updateRequester index _ _ next)
  · exact keeps_pure (.refl index broker) _

theorem unheard_handle (application : Application Value) (index remoteStreamId code : ℕ)
    (message : DartString) (broker : ReactiveBroker Value) :
    Keeps (Unheard index) broker (handle application remoteStreamId code message) := by
  unfold handle
  split
  · apply keeps_get_bind
    split
    · exact (unheard_invoke application index _ rfl broker).bind_trans (unheard_trans index)
        fun _ next _ _ => unheard_invoke application index _ rfl next
    · exact keeps_pure (.refl index broker) _
  · split
    · exact keeps_throw (.refl index broker) _
    · exact keeps_pure (.refl index broker) _

/-- A REQUEST_N frame: it may be rejected, and the callback may throw. -/
theorem unheard_request (application : Application Value) (index remoteStreamId count : ℕ)
    (broker : ReactiveBroker Value) :
    Keeps (Unheard index) broker (request application remoteStreamId count) := by
  have hcheck : Unheard index broker (checkLease count broker).2 := by
    unfold checkLease
    split
    · dsimp only
      split <;> exact unheard_of_eq rfl rfl rfl rfl rfl rfl
    · exact .refl index broker
  have hmodify : Keeps (Unheard index) broker
      (modifyGet (checkLease count) : Broking Value Bool) := hcheck
  unfold request
  refine hmodify.bind_trans (unheard_trans index) fun allowed next _ _ => ?_
  cases allowed with
  | false => exact keeps_modify (unheard_of_eq rfl rfl rfl rfl rfl rfl)
  | true =>
    apply keeps_get_bind
    split
    · rename_i other _
      refine (unheard_subscribe application index other next).bind_trans (unheard_trans index)
        fun _ next _ _ => ?_
      refine (unheard_invoke application index other rfl next).bind_trans (unheard_trans index)
        fun _ next _ _ => ?_
      exact keeps_modify (heard_updateRequester index other _ next)
    · exact keeps_pure (.refl index next) _

/-- A frame of another stream. -/
theorem unheard_receive (application : Application Value) {remoteStreamId : ℕ}
    (hother : broker.streams.get? remoteStreamId ≠ some index) (payload : ReactivePayload)
    (completed follow : Bool) :
    Keeps (Unheard index) broker (receive application remoteStreamId payload completed follow) := by
  have hfrag (other : ℕ) (hne : other ≠ index) (complete : Bool) (next : ReactiveBroker Value)
      (codec : ReactiveCodec Value) : Keeps (Unheard index) next
        (onPayloadFragment application other codec payload.data follow complete) := by
    refine keeps_onPayloadFragment_of (.refl index) (unheard_trans index) (fun update next => ?_)
      (fun value => unheard_invoke application index other ?_) codec payload.data follow
        complete next
    · refine ⟨rfl, rfl, rfl, fun _ => id, (length_modify ..).ge, (append_nil _).symm, ?_⟩
      unfold fragmentsOf updateStream
      rw [getElem?_modify]
      simp [hne]
    · cases value with
      | none => rfl
      | some value => exact if_neg hne
  unfold receive
  apply keeps_get_bind
  split
  · rename_i other hmap
    have hne : other ≠ index := fun heq => hother (heq ▸ hmap)
    split
    · have hlast : Keeps (Unheard index) broker
          (receiveLast application other payload.data follow) := by
        unfold receiveLast
        split
        · exact keeps_get_bind (keeps_late_bind (.refl index broker) fun codec _ =>
            hfrag other hne true broker codec)
        · exact keeps_pure (.refl index broker) _
      exact hlast.bind_trans (unheard_trans index) fun _ next _ _ =>
        unheard_endStream application index (fun _ => rfl) remoteStreamId next
    · split
      · refine keeps_caught ?_ fun next failures h =>
          h.trans (unheard_of_eq rfl rfl rfl rfl rfl rfl)
        exact keeps_get_bind (keeps_late_bind (.refl index broker) fun codec _ =>
          hfrag other hne false broker codec)
      · exact keeps_pure (.refl index broker) _
  · exact keeps_pure (.refl index broker) _

/-- A call, unless it is a PAYLOAD frame of the stream. -/
theorem unheard_call (application : Application Value) (hidx : index < broker.objects.length)
    (hcodec : broker.dataCodec.isSome = true) {brokerCall : BrokerCall}
    (hother : ∀ remoteStreamId payload completed follow,
      brokerCall = .receive remoteStreamId payload completed follow →
        broker.streams.get? remoteStreamId ≠ some index) :
    Keeps (Unheard index) broker (call application brokerCall) := by
  cases brokerCall with
  | setup dataMimeType metadataMimeType interval lifetime lease =>
    exact unheard_setup application index hcodec dataMimeType metadataMimeType interval
      lifetime lease
  | lease timeToLive requests => exact unheard_lease application index timeToLive requests broker
  | pong respond =>
    refine (keeps_modify (unheard_of_eq rfl rfl rfl rfl rfl rfl)).bind_trans (unheard_trans index)
      fun _ next _ _ => ?_
    split
    · exact keeps_modify (unheard_of_eq rfl rfl rfl rfl rfl rfl)
    · exact keeps_pure (.refl index next) _
  | request remoteStreamId count =>
    exact unheard_request application index remoteStreamId count broker
  | initiate remoteStreamId count payload =>
    exact unheard_initiate application hidx remoteStreamId count payload
  | receive remoteStreamId payload completed follow =>
    exact unheard_receive application (hother _ _ _ _ rfl) payload completed follow
  | cancel streamId => exact unheard_endStream application index (fun _ => rfl) streamId broker
  | handle remoteStreamId code message =>
    exact unheard_handle application index remoteStreamId code message broker

/-! ### What else happens -/

/-- The channel of the stream gets no more payloads: the broker does not accept any more, or the
stream has left the map. -/
def Deaf (index : ℕ) (broker : ReactiveBroker Value) : Prop :=
  broker.accepting = false ∨ ∀ id, broker.streams.get? id ≠ some index

theorem Deaf.unheard (h : Deaf index broker) (hunheard : Unheard index broker next) :
    Deaf index next :=
  h.imp hunheard.accepting.trans fun hnone id hid => hnone id (hunheard.streams id hid)

/-- A call of the responder. -/
def isCall : BrokerAction Value → Bool
  | .call _ => true
  | _ => false

/-- What happens besides the calls of the responder is not about the stream, unless it is the
end. -/
theorem unheard_or_deaf_of_step (index : ℕ) (hcodec : broker.dataCodec.isSome = true)
    {action : BrokerAction Value} (hown : isCall action = false)
    (hstep : step application broker action = some next) :
    Unheard index broker next ∨ Deaf index next ∧ next.dataCodec = broker.dataCodec ∧
      broker.objects.length ≤ next.objects.length ∧
      payloadsOf index next.calls = payloadsOf index broker.calls := by
  cases action with
  | call => cases hown
  | connect setupConfiguration =>
    obtain ⟨codec, hcodec⟩ := Option.isSome_iff_exists.mp hcodec
    change connect application setupConfiguration broker = some next at hstep
    unfold connect at hstep
    rw [hcodec] at hstep
    split at hstep
    · rename_i hnone
      cases hnone
    · cases hstep
      exact .inl (.refl index broker)
  | consume key configuration =>
    cases hstep
    exact .inl (unheard_of_eq rfl rfl rfl rfl rfl rfl)
  | produce other producerCall =>
    cases hstep
    exact .inl (heard_updateStream index other _ (fragments_run producerCall) broker)
  | requester other action =>
    obtain ⟨-, hstep⟩ := Option.ite_none_right_eq_some.mp hstep
    obtain ⟨stream, -, hstep⟩ := Option.bind_eq_some_iff.mp hstep
    obtain ⟨requester, -, hstep⟩ := Option.bind_eq_some_iff.mp hstep
    cases hstep
    exact .inl (heard_updateRequester index other _ broker)
  | fail =>
    rw [step] at hstep
    split at hstep
    · cases hstep
    · rename_i other e failures _
      cases hstep
      have hfailures : Unheard index broker { broker with failures := failures } :=
        unheard_of_eq rfl rfl rfl rfl rfl rfl
      exact .inl (hfailures.trans (heard_updateStream index other _ (fragments_run _) _))
  | refresh =>
    rw [step] at hstep
    split at hstep
    · cases hstep
      exact .inl (unheard_of_eq rfl rfl rfl rfl rfl rfl)
    · cases hstep
  | tick now =>
    obtain ⟨-, hstep⟩ := Option.ite_none_right_eq_some.mp hstep
    cases hstep
    exact .inl (unheard_of_eq rfl rfl rfl rfl rfl rfl)
  | close graceful =>
    cases hstep
    unfold close
    split
    · exact .inl (.refl index broker)
    · have hclosed := heard_foldl index id
        (fun _ stream => { stream with requester := stream.requester.close graceful })
        (fun _ _ => rfl) broker.streams.values
        { broker with accepting := false, closing := some broker.streams.values }
      exact .inr ⟨.inl hclosed.accepting, hclosed.dataCodec, hclosed.objects,
        hclosed.payloads.trans (append_nil _)⟩
  | closed =>
    rw [step] at hstep
    split at hstep
    · obtain ⟨-, hstep⟩ := Option.ite_none_right_eq_some.mp hstep
      cases hstep
      exact .inr ⟨.inr fun _ hget => (by cases hget), rfl, le_rfl, rfl⟩
    · cases hstep

/-! ### Frames of the stream -/

/-- A payload that is decoded and passed on. -/
theorem heard_decoded (application : Application Value) (codec : Value ≃ Uint8List) (index : ℕ)
    (bytes : Uint8List) (broker : ReactiveBroker Value) :
    Keeps (Heard index [codec.symm bytes] (fragmentsOf index broker)) broker (do
      let value ← lift ((ReactiveCodec.ofEquiv codec).decode bytes)
      invoke application index (.onPayload (some value))) := by
  have hcalled := heard_called application index index (.onPayload (some (codec.symm bytes))) broker
  have hpay : payloadOf index (index, Callback.onPayload (some (codec.symm bytes))) =
      some (codec.symm bytes) := if_pos rfl
  rw [hpay] at hcalled
  change Heard index _ _ broker (stateOf (invoke application index _ broker))
  rw [stateOf_invoke]
  exact hcalled

/-- What a stream does with the data of a frame. -/
theorem heard_onPayloadFragment (application : Application Value) (codec : Value ≃ Uint8List)
    (hidx : index < broker.objects.length) {data : Uint8List} (hdata : data ≠ [])
    {follow complete : Bool} (hcomplete : follow = true → complete = false) :
    Keeps (Heard index
        (if follow then [] else [codec.symm (fragmentsOf index broker ++ [data]).flatten])
        (if follow then fragmentsOf index broker ++ [data] else [])) broker
      (onPayloadFragment application index (ReactiveCodec.ofEquiv codec) data follow complete) := by
  have hfrags : fragmentsOf index broker = broker.objects[index].fragments := by
    unfold fragmentsOf
    rw [getElem?_eq_getElem hidx]
  have hadd := heard_setFragments hidx (· ++ [data])
  -- The last fragment: all of them are decoded together, and given up.
  have hdeliver : Keeps (Heard index [codec.symm (fragmentsOf index broker ++ [data]).flatten] [])
      broker (do
        modify (updateStream index fun stream =>
          { stream with fragments := stream.fragments ++ [data] })
        let assembled ← lift
          (ReactiveAssembler.reassemble (broker.objects[index].fragments ++ [data]))
        modify (updateStream index fun stream => { stream with fragments := [] })
        let value ← lift ((ReactiveCodec.ofEquiv codec).decode assembled)
        invoke application index (.onPayload (some value))) := by
    rw [reassemble_eq]
    have hclear := heard_setFragments (hidx.trans_le hadd.objects) fun _ => []
    have hdecoded := heard_decoded application codec index
      (broker.objects[index].fragments ++ [data]).flatten
      (updateStream index (fun stream => { stream with fragments := [] })
        (updateStream index (fun stream => { stream with fragments := stream.fragments ++ [data] })
          broker))
    rw [hclear.fragments] at hdecoded
    rw [hfrags]
    exact (hadd.trans hclear).trans hdecoded
  unfold onPayloadFragment
  apply keeps_get_bind
  rw [getElem?_eq_getElem hidx]
  dsimp only
  cases follow with
  | true =>
    obtain rfl : complete = false := hcomplete rfl
    exact hadd
  | false =>
    simp only [Bool.false_eq_true, if_false]
    by_cases hnone : broker.objects[index].fragments = []
    · rw [if_pos (by simp [hnone]), if_neg (by simp [hdata])]
      -- A payload of one fragment.
      have hdecoded := heard_decoded application codec index data broker
      rw [hfrags, hnone] at hdecoded ⊢
      simpa using hdecoded
    · rw [if_neg (by simp [hnone])]
      exact hdeliver

/-- The data of a frame that does not end the stream: what it throws is reported later. -/
theorem heard_receiveFragment (application : Application Value)
    (hcodec : broker.dataCodec = some (.ofEquiv codec)) (hidx : index < broker.objects.length)
    {data : Uint8List} (hdata : data ≠ []) (follow : Bool) :
    Keeps (Heard index
        (if follow then [] else [codec.symm (fragmentsOf index broker ++ [data]).flatten])
        (if follow then fragmentsOf index broker ++ [data] else [])) broker
      (receiveFragment application index data follow) := by
  refine keeps_caught ?_ fun next failures h =>
    h.trans_unheard (unheard_of_eq rfl rfl rfl rfl rfl rfl)
  apply keeps_get_bind
  rw [hcodec]
  exact heard_onPayloadFragment application codec hidx hdata fun _ => rfl

/-- The data of a frame that ends the stream. -/
theorem heard_receiveLast (application : Application Value)
    (hcodec : broker.dataCodec = some (.ofEquiv codec)) (hidx : index < broker.objects.length)
    (data : Uint8List) :
    Keeps (Heard index
        (if data = [] then [] else [codec.symm (fragmentsOf index broker ++ [data]).flatten])
        (if data = [] then fragmentsOf index broker else [])) broker
      (receiveLast application index data false) := by
  unfold receiveLast
  by_cases hdata : data = []
  · simp only [hdata, if_true]
    exact Heard.refl index broker
  · have hsome : (!data.isEmpty) = true := by simp [hdata]
    rw [if_pos hsome, if_neg hdata, if_neg hdata]
    apply keeps_get_bind
    rw [hcodec]
    exact heard_onPayloadFragment application codec hidx hdata Bool.false_ne_true.elim

/-- A frame of a stream that is in the map. -/
theorem heard_receive (application : Application Value)
    (hcodec : broker.dataCodec = some (.ofEquiv codec)) (hidx : index < broker.objects.length)
    {id : ℕ} (hmap : broker.streams.get? id = some index) (data : Uint8List)
    {completed follow : Bool} (hfollow : follow = true → completed = false) :
    Keeps (Heard index
        (if data = [] ∨ follow then []
          else [codec.symm (fragmentsOf index broker ++ [data]).flatten])
        (if data = [] then fragmentsOf index broker
          else if follow then fragmentsOf index broker ++ [data] else [])) broker
      (receive application id (.ofData data) completed follow) := by
  unfold receive
  dsimp only [ReactivePayload.ofData]
  apply keeps_get_bind
  rw [hmap]
  dsimp only
  cases completed with
  | false =>
    rw [if_neg Bool.false_ne_true]
    by_cases hdata : data = []
    · simp only [hdata, true_or, if_true]
      exact Heard.refl index broker
    · have hsome : (!data.isEmpty) = true := by simp [hdata]
      rw [if_pos hsome, if_neg hdata]
      simp only [hdata, false_or]
      exact heard_receiveFragment application hcodec hidx hdata follow
  | true =>
    obtain rfl : follow = false := Bool.eq_false_iff.mpr fun h => by cases hfollow h
    rw [if_pos rfl]
    simp only [Bool.false_eq_true, or_false, if_false]
    -- The stream ends if its last payload does not throw.
    exact (heard_receiveLast application hcodec hidx data).bind
      (fun _ next _ _ => unheard_endStream application index (fun _ => rfl) id next) (fun _ h => h)
      fun _ _ => Heard.trans_unheard

end ReactiveBroker

end FengShui.Reactive
