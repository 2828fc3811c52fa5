import FengShui.Reactive.BrokerMoves

/-!
# When a call of the responder throws

`CallReturns` is the condition on the broker, the codecs and the callbacks under which a call of the
responder returns (`call_returns`): no callback that it reaches throws, what it decodes can be
decoded, and the codecs that it uses are set.
-/

namespace FengShui.Reactive

open Effect ReactiveBroker

variable {Value : Type}

/-- None of the callbacks throws, behind those so far. -/
def Application.Spares (application : Application Value) :
    List (ℕ × Callback Value) → List (ℕ × Callback Value) → Prop
  | _, [] => True
  | calls, callback :: callbacks =>
    (application.callback (calls ++ [callback])).2 = none ∧
      application.Spares (calls ++ [callback]) callbacks

theorem Application.spares_append (application : Application Value)
    (calls front back : List (ℕ × Callback Value)) :
    application.Spares calls (front ++ back) ↔
      application.Spares calls front ∧ application.Spares (calls ++ front) back := by
  induction front generalizing calls with
  | nil => simp [Application.Spares]
  | cons callback front ih =>
    rw [List.cons_append, Application.Spares, ih, Application.Spares, and_assoc, List.append_assoc]
    rfl

namespace ReactiveBroker

/-- More callbacks. -/
def record (callbacks : List (ℕ × Callback Value)) (broker : ReactiveBroker Value) :
    ReactiveBroker Value := { broker with calls := broker.calls ++ callbacks }

/-- The callback of `subscribe`. -/
def subscription (index : ℕ) (broker : ReactiveBroker Value) : List (ℕ × Callback Value) :=
  match broker.objects[index]? with
  | some stream => if stream.subscribed then [] else [(index, .onSubscribe)]
  | none => []

/-- The callback of a payload that ends its stream, unless that cannot be decoded. -/
def lastPayload (index : ℕ) (data : Uint8List) (follow : Bool) (broker : ReactiveBroker Value) :
    Except DartException (List (ℕ × Callback Value)) :=
  if data.isEmpty then .ok []
  else
    match broker.dataCodec with
    | none => .error .lateInitializationError
    | some codec =>
      match broker.objects[index]? with
      | none => .ok []
      | some stream =>
        let bytes :=
          if follow || !stream.fragments.isEmpty then
            ReactiveAssembler.reassemble (stream.fragments ++ [data])
          else .ok data
        bytes.bind fun bytes =>
          (codec.decode bytes).map fun value => [(index, .onPayload (some value))]

/-- The metadata of a stream that is to be opened can be encoded. -/
def Encodes (application : Application Value) (broker : ReactiveBroker Value) (index : ℕ) : Prop :=
  ∀ stream, broker.objects[index]? = some stream → stream.requested = false →
    ∃ codec bytes, broker.metadataCodec = some codec ∧
      codec.encode (application.routing stream.key) = .ok bytes

/-- The payload of a PAYLOAD frame that ends its stream reaches the channel. -/
def PayloadReturns (application : Application Value) (index : ℕ) (data : Uint8List) (follow : Bool)
    (broker : ReactiveBroker Value) (behind : List (ℕ × Callback Value)) : Prop :=
  ∃ callbacks, lastPayload index data follow broker = .ok callbacks ∧
    application.Spares broker.calls (callbacks ++ behind)

/-- The condition under which a call returns. -/
def CallReturns (application : Application Value) (broker : ReactiveBroker Value) :
    BrokerCall → Prop
  | .setup dataMimeType metadataMimeType _ _ lease =>
    (application.codecs dataMimeType).isSome → (application.codecs metadataMimeType).isSome →
      (lease && application.leaseConfiguration.isNone) = false →
        broker.dataCodec = none ∧ broker.metadataCodec = none
  | .lease _ _ => ∀ index ∈ broker.streams.values, Encodes application broker index
  | .pong _ => True
  | .request remoteStreamId count =>
    (checkLease count broker).1 = true → ∀ index, broker.streams.get? remoteStreamId = some index →
      application.Spares broker.calls (subscription index broker ++ [(index, .onRequest count)])
  | .initiate _ _ initialPayload =>
    ∃ codec, broker.metadataCodec = some codec ∧
      ∃ metadata, codec.decode initialPayload.metadata = .ok metadata ∧
        ∃ method, application.method metadata = .ok method ∧
          ∀ configuration, broker.channels.get? method = some configuration →
            broker.dataCodec.isSome ∧
              application.Spares broker.calls [(broker.objects.length, .onSubscribe)]
  | .receive remoteStreamId payload completed follow =>
    completed = true → ∀ index, broker.streams.get? remoteStreamId = some index →
      PayloadReturns application index payload.data follow broker [(index, .onComplete)]
  | .cancel streamId =>
    ∀ index, broker.streams.get? streamId = some index →
      application.Spares broker.calls [(index, .onCancel)]
  | .handle remoteStreamId code message =>
    if remoteStreamId ≠ 0 then
      ∀ index, broker.streams.get? remoteStreamId = some index →
        application.Spares broker.calls [(index, .onError code message), (index, .onComplete)]
    else application.onError code message = none

section Parts

variable {application : Application Value} {broker : ReactiveBroker Value} {index : ℕ}

@[simp]
theorem calls_called (callback : Callback Value) :
    (called application index callback broker).calls = broker.calls ++ [(index, callback)] := by
  obtain ⟨-, _, rfl, hcalls⟩ := talks_called application index callback broker
  exact hcalls

@[simp]
theorem streams_called (callback : Callback Value) :
    (called application index callback broker).streams = broker.streams :=
  (talks_called application index callback broker).streams

variable {callback : Callback Value} {post : Unit → ReactiveBroker Value → Prop}

theorem returns_invoke :
    Returns broker (invoke application index callback) post ↔
      (application.callback (broker.calls ++ [(index, callback)])).2 = none ∧
        post () (called application index callback broker) := by
  unfold Returns
  rw [invoke_eq]
  cases (application.callback (broker.calls ++ [(index, callback)])).2 <;> simp

theorem returns_late {codec : Option (ReactiveCodec Value)}
    {post : ReactiveCodec Value → ReactiveBroker Value → Prop} :
    Returns broker (late codec) post ↔ ∃ c, codec = some c ∧ post c broker := by
  cases codec with
  | none => exact ⟨False.elim, fun ⟨_, h, _⟩ => by cases h⟩
  | some codec =>
    exact ⟨fun h => ⟨codec, rfl, h⟩, fun ⟨_, h, hpost⟩ => Option.some.inj h ▸ hpost⟩

theorem returns_lift {α : Type} {result : Except DartException α}
    {post : α → ReactiveBroker Value → Prop} :
    Returns broker (lift result : Broking Value α) post ↔ ∃ a, result = .ok a ∧ post a broker := by
  cases result with
  | error e => exact ⟨False.elim, fun ⟨_, h, _⟩ => by cases h⟩
  | ok a => exact ⟨fun h => ⟨a, rfl, h⟩, fun ⟨_, h, hpost⟩ => Except.ok.inj h ▸ hpost⟩

/-- What is asked of the broker behind a part is about its callbacks and its map only. -/
def Talking (post : Unit → ReactiveBroker Value → Prop) : Prop :=
  ∀ broker next : ReactiveBroker Value, next.calls = broker.calls → next.streams = broker.streams →
    (post () next ↔ post () broker)

theorem returns_invoke_of_talking (hpost : Talking post) :
    Returns broker (invoke application index callback) post ↔
      (application.callback (broker.calls ++ [(index, callback)])).2 = none ∧
        post () (record [(index, callback)] broker) := by
  rw [returns_invoke, hpost (record [(index, callback)] broker)
    (called application index callback broker) (calls_called callback) (streams_called callback)]

/-- `decode` and the callback of what it gives. -/
theorem returns_decode {codec : ReactiveCodec Value} {bytes : Uint8List} (hpost : Talking post) :
    Returns broker (do
        let value ← lift (codec.decode bytes)
        invoke application index (.onPayload (some value)) : Broking Value Unit) post ↔
      ∃ callbacks, ((codec.decode bytes).map fun value => [(index, .onPayload (some value))]) =
          .ok callbacks ∧ application.Spares broker.calls callbacks ∧
        post () (record callbacks broker) := by
  rw [returns_bind, returns_lift]
  cases hdecode : codec.decode bytes with
  | error e => simp [Except.map]
  | ok value =>
    simp only [Except.ok.injEq, exists_eq_left', Except.map]
    rw [returns_invoke_of_talking hpost]
    simp [Application.Spares]

theorem returns_receiveLast {data : Uint8List} {follow : Bool} (hpost : Talking post) :
    Returns broker (receiveLast application index data follow) post ↔
      ∃ callbacks, lastPayload index data follow broker = .ok callbacks ∧
        application.Spares broker.calls callbacks ∧
        post () (record callbacks broker) := by
  unfold receiveLast lastPayload
  cases hempty : data.isEmpty with
  | true =>
    have hsame := hpost broker (record [] broker) (List.append_nil _) rfl
    simp [Application.Spares, hsame]
  | false =>
    simp only [Bool.not_false, if_true, Bool.false_eq_true, if_false]
    rw [returns_get_bind, returns_bind, returns_late]
    cases hcodec : broker.dataCodec with
    | none => simp
    | some codec =>
      simp only [Option.some.injEq, exists_eq_left']
      unfold onPayloadFragment
      rw [returns_get_bind]
      cases hstream : broker.objects[index]? with
      | none =>
        have hsame := hpost broker (record [] broker) (List.append_nil _) rfl
        simp [Application.Spares, hsame]
      | some stream =>
        -- The fragments are dropped behind `reassemble`, which no callback sees.
        have hdeliver (next : ReactiveBroker Value) (hcalls : next.calls = broker.calls)
            (hstreams : next.streams = broker.streams) (fragments : List Uint8List) :
            Returns next (do
                let assembled ← lift (ReactiveAssembler.reassemble fragments)
                modify (updateStream index fun stream => { stream with fragments := [] })
                let value ← lift (codec.decode assembled)
                invoke application index (.onPayload (some value)) : Broking Value Unit) post ↔
              ∃ callbacks, ((ReactiveAssembler.reassemble fragments).bind fun bytes =>
                  (codec.decode bytes).map fun value => [(index, .onPayload (some value))]) =
                .ok callbacks ∧ application.Spares broker.calls callbacks ∧
                post () (record callbacks broker) := by
          rw [returns_bind, returns_lift]
          cases hassembled : ReactiveAssembler.reassemble fragments with
          | error e => simp [Except.bind]
          | ok assembled =>
            simp only [Except.ok.injEq, exists_eq_left', Except.bind]
            rw [returns_modify_bind, returns_decode hpost]
            refine exists_congr fun callbacks => and_congr_right fun _ => ?_
            rw [show (updateStream index (fun stream => { stream with fragments := [] })
              next).calls = broker.calls from hcalls]
            refine and_congr_right fun _ => hpost _ _ ?_ hstreams
            unfold record
            exact congrArg (· ++ callbacks) hcalls
        dsimp only
        cases follow with
        | true =>
          simp only [if_true, Bool.true_or]
          rw [returns_modify_bind]
          refine hdeliver _ ?_ ?_ _ <;> rfl
        | false =>
          cases hfrags : stream.fragments.isEmpty with
          | true =>
            simp only [if_true, hempty, Bool.false_eq_true, if_false, Bool.or_self, Bool.not_true,
              Except.bind]
            exact returns_decode hpost
          | false =>
            simp only [Bool.false_eq_true, if_false, Bool.not_false, Bool.or_true, if_true]
            rw [returns_modify_bind]
            refine hdeliver _ ?_ ?_ _ <;> rfl

/-- `Future.sync` does not throw. -/
theorem returns_caught (index : ℕ) (part : Broking Value Unit) :
    Returns broker (caught index part) fun _ _ => True := by
  rw [returns_iff_ok]
  cases hpart : part broker with
  | ok a next => exact ⟨(), next, by rw [caught, hpart]⟩
  | error e next => exact ⟨(), _, by rw [caught, hpart]⟩

theorem returns_endStream {streamId : ℕ} :
    Returns broker (endStream application callback streamId) (fun _ _ => True) ↔
      ∀ index, broker.streams.get? streamId = some index →
        (application.callback (broker.calls ++ [(index, callback)])).2 = none := by
  cases hmap : broker.streams.get? streamId with
  | none =>
    unfold endStream
    rw [returns_get_bind, hmap]
    simp
  | some index =>
    unfold Returns
    rw [endStream_eq hmap]
    simp only [Option.some.injEq, forall_eq']
    cases (application.callback (broker.calls ++ [(index, callback)])).2 <;> simp

/-- A callback behind a subscription. -/
theorem returns_subscribe (hpost : Talking post) :
    Returns broker (subscribe application index) post ↔
      application.Spares broker.calls (subscription index broker) ∧
        post () (record (subscription index broker) broker) := by
  have hsame := hpost broker (record [] broker) (List.append_nil _) rfl
  unfold subscribe subscription
  rw [returns_get_bind]
  cases hstream : broker.objects[index]? with
  | none => simp [Application.Spares, hsame]
  | some stream =>
    dsimp only
    split
    · simp [Application.Spares, hsame]
    · rw [returns_modify_bind, returns_invoke_of_talking hpost]
      unfold updateStream
      simp only [Application.Spares, and_true]
      exact and_congr_right fun _ => hpost _ _ rfl rfl

/-- The broker behind a stream that `lease` opens or leaves alone. -/
def LeaseStreamed (index : ℕ) (broker next : ReactiveBroker Value) : Prop :=
  next.metadataCodec = broker.metadataCodec ∧
    (next.objects = broker.objects ∨
      next.objects = broker.objects.modify index fun stream => { stream with requested := true })

theorem returns_leaseStream :
    Returns broker (leaseStream application index) (fun _ _ => True) ↔
      Encodes application broker index := by
  unfold leaseStream Encodes
  rw [returns_get_bind]
  cases hstream : broker.objects[index]? with
  | none => simp
  | some stream =>
    dsimp only
    cases hreq : stream.requested with
    | true => simp [hreq]
    | false =>
      simp only [Bool.false_eq_true, if_false, Option.some.injEq, forall_eq', hreq,
        true_implies]
      rw [returns_modify_bind, returns_get_bind, returns_bind, returns_late]
      simp only [returns_bind, returns_lift]
      constructor
      · rintro ⟨codec, hcodec, bytes, hbytes, -⟩
        exact ⟨codec, bytes, hcodec, hbytes⟩
      · rintro ⟨codec, bytes, hcodec, hbytes⟩
        exact ⟨codec, hcodec, bytes, hbytes, trivial⟩

theorem leaseStreamed (h : Encodes application broker index) :
    LeaseStreamed index broker (stateOf (leaseStream application index broker)) := by
  have hnext : Returns broker (leaseStream application index) fun _ next =>
      LeaseStreamed index broker next := by
    unfold leaseStream
    rw [returns_get_bind]
    cases hstream : broker.objects[index]? with
    | none => exact ⟨rfl, .inl rfl⟩
    | some stream =>
      dsimp only
      split
      · exact ⟨rfl, .inl rfl⟩
      · rename_i hreq
        obtain ⟨codec, bytes, hcodec, hbytes⟩ := h stream hstream (Bool.not_eq_true _ ▸ hreq)
        rw [returns_modify_bind, returns_get_bind, returns_bind, returns_late]
        refine ⟨codec, hcodec, ?_⟩
        rw [returns_bind, returns_lift]
        exact ⟨bytes, hbytes, rfl, .inr rfl⟩
  exact (returns_iff_stateOf.mp hnext).2

/-- What one stream needs to be opened does not depend on whether another was opened before. -/
theorem encodes_of_leaseStreamed {next : ReactiveBroker Value} (h : LeaseStreamed index broker next)
    (hencodes : Encodes application broker index) (other : ℕ) :
    Encodes application next other ↔ Encodes application broker other := by
  obtain ⟨hcodec, hobjs | hobjs⟩ := h
  · unfold Encodes
    rw [hcodec, hobjs]
  · by_cases hsame : other = index
    · subst hsame
      refine iff_of_true (fun stream hstream hreq => ?_) hencodes
      -- The stream is open now.
      rw [hobjs, List.getElem?_modify_eq] at hstream
      obtain ⟨before, -, rfl⟩ := Option.map_eq_some_iff.mp hstream
      cases hreq
    · unfold Encodes
      rw [hcodec, hobjs]
      simp only [List.getElem?_modify, if_neg (Ne.symm hsame), id_map']

theorem returns_lease (indices : List ℕ) (broker : ReactiveBroker Value) :
    Returns broker (indices.forM (leaseStream application)) (fun _ _ => True) ↔
      ∀ index ∈ indices, Encodes application broker index := by
  induction indices generalizing broker with
  | nil => simp
  | cons index indices ih =>
    rw [List.forM_eq_forM, List.forM_cons, returns_bind, returns_iff_stateOf, returns_leaseStream,
      List.forall_mem_cons]
    refine and_congr_right fun hencodes => ?_
    rw [← List.forM_eq_forM, ih]
    exact forall₂_congr fun other _ => encodes_of_leaseStreamed
      (leaseStreamed hencodes) hencodes other

/-- `checkLease` concerns the limiter only. -/
theorem checkLease_eq (count : ℕ) (broker : ReactiveBroker Value) :
    ∃ limiter, (checkLease count broker).2 = { broker with leaseLimiter := limiter } := by
  unfold checkLease
  split
  · dsimp only
    split <;> exact ⟨_, rfl⟩
  · exact ⟨broker.leaseLimiter, rfl⟩

end Parts

section Calls

variable (application : Application Value) (broker : ReactiveBroker Value)

theorem returns_setup (dataMimeType metadataMimeType : DartString)
    (keepAliveInterval keepAliveMaxLifetime : ℕ) (lease : Bool) :
    Returns broker (setup application dataMimeType metadataMimeType keepAliveInterval
        keepAliveMaxLifetime lease) (fun _ _ => True) ↔
      CallReturns application broker
        (.setup dataMimeType metadataMimeType keepAliveInterval keepAliveMaxLifetime lease) := by
  simp only [CallReturns]
  unfold setup
  cases application.codecs dataMimeType with
  | none => simp [returns_modify]
  | some dataCodec =>
    cases application.codecs metadataMimeType with
    | none => simp [returns_modify]
    | some metadataCodec =>
      cases hrefused : lease && application.leaseConfiguration.isNone with
      | true => simp [returns_modify]
      | false =>
        simp only [Option.isSome_some, Bool.false_eq_true, if_false, true_implies]
        unfold setDataCodec setMetadataCodec
        rw [returns_bind, returns_get_bind]
        -- The codecs are set once: a second assignment throws.
        cases hdata : broker.dataCodec with
        | some codec => exact iff_of_false id fun h => by cases h.1
        | none =>
          simp only [Option.isSome_none, Bool.false_eq_true, if_false, true_and]
          rw [returns_modify, returns_bind, returns_get_bind]
          cases hmeta : broker.metadataCodec with
          | some codec => exact iff_of_false id nofun
          | none => exact iff_of_true trivial rfl

theorem returns_request (remoteStreamId count : ℕ) :
    Returns broker (request application remoteStreamId count) (fun _ _ => True) ↔
      CallReturns application broker (.request remoteStreamId count) := by
  obtain ⟨limiter, hlimiter⟩ := checkLease_eq count broker
  simp only [CallReturns]
  unfold request
  rw [returns_modifyGet_bind, hlimiter]
  cases (checkLease count broker).1 with
  | false => exact iff_of_true trivial fun h => by cases h
  | true =>
    simp only [if_true, true_implies]
    rw [returns_get_bind]
    dsimp only
    cases broker.streams.get? remoteStreamId with
    | none => simp
    | some index =>
      simp only [Option.some.injEq, forall_eq']
      -- What comes behind `onSubscribe` returns by what was called back, not by what the requesters
      -- do.
      have hinvoke : Talking fun _ (next : ReactiveBroker Value) =>
          Returns next (do
              invoke application index (.onRequest count)
              modify (updateRequester index (ReactiveRequester.resume count)) : Broking Value Unit)
            fun _ _ => True := by
        intro broker next hcalls _
        dsimp only
        rw [returns_bind, returns_bind, returns_invoke, returns_invoke, hcalls]
        exact and_congr_right fun _ => Iff.rfl
      rw [returns_bind, returns_subscribe hinvoke, returns_bind, returns_invoke,
        Application.spares_append]
      exact and_congr_right fun _ => and_congr_right fun _ => Iff.rfl

theorem returns_initiate (remoteStreamId initialRequestCount : ℕ)
    (initialPayload : ReactivePayload) :
    Returns broker (initiate application remoteStreamId initialRequestCount initialPayload)
        (fun _ _ => True) ↔
      CallReturns application broker
        (.initiate remoteStreamId initialRequestCount initialPayload) := by
  simp only [CallReturns]
  unfold initiate
  rw [returns_get_bind, returns_bind, returns_late]
  simp only [returns_bind, returns_lift, returns_get]
  -- `addStream` puts the stream behind the others, and it is not subscribed yet.
  have hopen (method : DartString) (configuration : ReactiveChannelConfiguration)
      (codec : ReactiveCodec Value) :
      subscription broker.objects.length (addStream (newStream application remoteStreamId method
        configuration codec initialRequestCount) broker) =
            [(broker.objects.length, .onSubscribe)] := by
    unfold subscription addStream newStream
    dsimp only
    rw [List.getElem?_concat_length]
    rfl
  have hrest (index : ℕ) : Talking fun _ (next : ReactiveBroker Value) =>
      Returns next (modify (updateRequester index
        (ReactiveRequester.request remoteStreamId initialRequestCount)) : Broking Value Unit)
        fun _ _ => True := fun _ _ _ _ => Iff.rfl
  refine exists_congr fun codec => and_congr_right fun _ => exists_congr fun metadata =>
    and_congr_right fun _ => exists_congr fun method => and_congr_right fun _ => ?_
  cases broker.channels.get? method with
  | none => simp
  | some configuration =>
    simp only [Option.some.injEq, forall_eq']
    rw [returns_get_bind, returns_bind, returns_late]
    cases hcodec : broker.dataCodec with
    | none => simp
    | some codec =>
      simp only [Option.some.injEq, exists_eq_left', Option.isSome_some, true_and]
      rw [returns_get_bind, returns_modify_bind, returns_bind, returns_subscribe (hrest _), hopen]
      exact and_iff_left trivial

theorem returns_receive (remoteStreamId : ℕ) (payload : ReactivePayload) (completed follow : Bool) :
    Returns broker (receive application remoteStreamId payload completed follow) (fun _ _ => True) ↔
      CallReturns application broker (.receive remoteStreamId payload completed follow) := by
  simp only [CallReturns]
  unfold receive
  rw [returns_get_bind]
  cases hmap : broker.streams.get? remoteStreamId with
  | none => simp
  | some index =>
    simp only [Option.some.injEq, forall_eq']
    cases completed with
    | true =>
      -- What comes behind the payload ends the stream that the map has.
      have hcomplete : Talking fun _ (next : ReactiveBroker Value) =>
          Returns next (complete application remoteStreamId) fun _ _ => True := by
        intro broker next hcalls hstreams
        dsimp only
        unfold complete
        rw [returns_endStream, returns_endStream, hcalls, hstreams]
      simp only [if_true, true_implies]
      rw [returns_bind, returns_receiveLast hcomplete]
      unfold complete PayloadReturns
      refine exists_congr fun callbacks => and_congr_right fun _ => ?_
      rw [returns_endStream, Application.spares_append]
      refine and_congr_right fun _ => ?_
      unfold record
      dsimp only
      rw [hmap]
      simp [Application.Spares]
    | false =>
      simp only [Bool.false_eq_true, if_false, false_implies, iff_true]
      split
      · -- What the part throws is caught.
        exact returns_caught index _
      · trivial

theorem returns_handle (remoteStreamId code : ℕ) (message : DartString) :
    Returns broker (ReactiveBroker.handle application remoteStreamId code message)
        (fun _ _ => True) ↔
      CallReturns application broker (.handle remoteStreamId code message) := by
  simp only [CallReturns]
  unfold ReactiveBroker.handle
  split
  · rw [returns_get_bind]
    cases broker.streams.get? remoteStreamId with
    | none => simp
    | some index =>
      simp only [Option.some.injEq, forall_eq']
      rw [returns_bind, returns_invoke, returns_invoke, calls_called]
      simp [Application.Spares]
  · cases application.onError code message with
    | none => exact iff_of_true trivial rfl
    | some e => exact iff_of_false id fun h => by cases h

/-- When a call of the responder returns. -/
theorem call_returns (brokerCall : BrokerCall) :
    Returns broker (ReactiveBroker.call application brokerCall) (fun _ _ => True) ↔
      CallReturns application broker brokerCall := by
  cases brokerCall with
  | setup => exact returns_setup application broker _ _ _ _ _
  | lease timeToLive requests =>
    exact returns_lease broker.streams.values (reconfigureLease timeToLive requests broker)
  | pong respond =>
    refine iff_of_true ?_ trivial
    cases respond <;> trivial
  | request => exact returns_request application broker _ _
  | initiate => exact returns_initiate application broker _ _ _
  | receive => exact returns_receive application broker _ _ _ _
  | cancel streamId =>
    refine returns_endStream.trans (forall₂_congr fun index _ => ?_)
    simp [Application.Spares]
  | handle => exact returns_handle application broker _ _ _

end Calls

/-! ### What every call keeps -/

/-- The part keeps what is true of the broker, whether it returns or throws. -/
def Stable {α : Type} (Inv : ReactiveBroker Value → Prop) (part : Broking Value α) : Prop :=
  ∀ broker, Keeps (fun broker next => Inv broker → Inv next) broker part

/-- Callbacks and changes of a stream keep what is true of the broker. -/
structure StreamPersistent (Inv : ReactiveBroker Value → Prop) : Prop where
  updateStream : ∀ index update broker, Inv broker → Inv (updateStream index update broker)
  record : ∀ callbacks broker, Inv broker → Inv (record callbacks broker)

/-- The updates that the calls are made of keep what is true of the broker. -/
structure Persistent (application : Application Value) (Inv : ReactiveBroker Value → Prop) : Prop
    extends StreamPersistent Inv where
  limiter : ∀ limiter (broker : ReactiveBroker Value), Inv broker →
    Inv { broker with leaseLimiter := limiter }
  timer : ∀ timer (broker : ReactiveBroker Value), Inv broker →
    Inv { broker with keepAliveTimer := timer }
  writeSingle : ∀ bytes broker, Inv broker → Inv (writeSingle bytes broker)
  remove : ∀ id (broker : ReactiveBroker Value), Inv broker →
    Inv { broker with streams := broker.streams.remove id }
  addStream : ∀ stream codec broker, broker.dataCodec = some codec → Inv broker →
    Inv (addStream stream broker)
  setup : ∀ dataMimeType metadataMimeType interval lifetime lease,
    Stable Inv (setup application dataMimeType metadataMimeType interval lifetime lease)
  receiveFragment : ∀ remoteStreamId index data follow broker,
    broker.streams.get? remoteStreamId = some index → Inv broker →
      Inv (stateOf (receiveFragment application index data follow broker))

section Stable

variable {application : Application Value} {Inv : ReactiveBroker Value → Prop} {α β : Type}

theorem stable_pure (a : α) : Stable Inv (pure a : Broking Value α) := fun _ => id

theorem stable_throw (e : DartException) : Stable Inv (throw e : Broking Value α) := fun _ => id

theorem stable_get : Stable Inv (get : Broking Value (ReactiveBroker Value)) := fun _ => id

theorem stable_modify {update : ReactiveBroker Value → ReactiveBroker Value}
    (h : ∀ broker, Inv broker → Inv (update broker)) :
    Stable Inv (modify update : Broking Value Unit) := h

theorem Stable.bind {m : Broking Value α} {f : α → Broking Value β} (hm : Stable Inv m)
    (hf : ∀ a, Stable Inv (f a)) : Stable Inv (m >>= f) := fun broker =>
  (hm broker).bind_trans (fun _ _ _ h h' hbroker => h' (h hbroker)) fun a next _ _ => hf a next

theorem stable_late (codec : Option (ReactiveCodec Value)) : Stable Inv (late codec) := by
  cases codec with
  | none => exact stable_throw _
  | some codec => exact stable_pure codec

theorem stable_lift (result : Except DartException α) :
    Stable Inv (lift result : Broking Value α) := by
  cases result with
  | error e => exact stable_throw e
  | ok a => exact stable_pure a

theorem stable_updateStream (h : StreamPersistent Inv) (index : ℕ)
    (update : ReactiveStream Value → ReactiveStream Value) :
    Stable Inv (modify (updateStream index update) : Broking Value Unit) :=
  stable_modify (h.updateStream index update)

theorem stable_invoke (h : StreamPersistent Inv) (index : ℕ) (callback : Callback Value) :
    Stable Inv (invoke application index callback) := by
  intro broker
  have hproduce (calls : List (ℕ × ProducerCall Value)) (broker : ReactiveBroker Value)
      (hbroker : Inv broker) : Inv (calls.foldl (fun broker call =>
        ReactiveBroker.updateStream call.1 (ReactiveProducer.run call.2) broker) broker) := by
    induction calls generalizing broker with
    | nil => exact hbroker
    | cons call calls ih => exact ih _ (h.updateStream _ _ _ hbroker)
  unfold Keeps
  rw [invoke_eq]
  intro hbroker
  have hrecord := h.record [(index, callback)] broker hbroker
  cases (application.callback (broker.calls ++ [(index, callback)])).2 <;>
    exact hproduce _ _ hrecord

theorem stable_subscribe (h : StreamPersistent Inv) (index : ℕ) :
    Stable Inv (subscribe application index) := by
  unfold subscribe
  refine stable_get.bind fun broker => ?_
  split
  · split
    · exact stable_pure _
    · exact (stable_updateStream h index _).bind fun _ => stable_invoke h index _
  · exact stable_pure _

theorem stable_onPayloadFragment (h : StreamPersistent Inv) (index : ℕ)
    (codec : ReactiveCodec Value) (payload : Uint8List) (follow complete : Bool) :
    Stable Inv (onPayloadFragment application index codec payload follow complete) := by
  have hdecode (bytes : Uint8List) : Stable Inv (do
      let value ← lift (codec.decode bytes)
      invoke application index (.onPayload (some value)) : Broking Value Unit) :=
    (stable_lift _).bind fun value => stable_invoke h index _
  have hdeliver (fragments : List Uint8List) : Stable Inv (do
      let assembled ← lift (ReactiveAssembler.reassemble fragments)
      modify (ReactiveBroker.updateStream index fun stream => { stream with fragments := [] })
      let value ← lift (codec.decode assembled)
      invoke application index (.onPayload (some value)) : Broking Value Unit) :=
    (stable_lift _).bind fun assembled =>
      (stable_updateStream h index _).bind fun _ => hdecode assembled
  unfold onPayloadFragment
  refine stable_get.bind fun broker => ?_
  split
  · dsimp only
    split
    · refine (stable_updateStream h index _).bind fun _ => ?_
      split
      · exact hdeliver _
      · exact stable_pure _
    · split
      · split
        · exact stable_invoke h index _
        · exact hdecode payload
      · exact (stable_updateStream h index _).bind fun _ => hdeliver _
  · exact stable_pure _

theorem stable_endStream (h : Persistent application Inv) (callback : Callback Value)
    (streamId : ℕ) : Stable Inv (endStream application callback streamId) := by
  unfold endStream
  refine stable_get.bind fun broker => ?_
  split
  · refine Stable.bind (stable_modify (h.remove _)) fun _ => ?_
    exact (stable_invoke h.toStreamPersistent _ _).bind fun _ =>
      stable_updateStream h.toStreamPersistent _ _
  · exact stable_pure _

theorem stable_lease (h : Persistent application Inv) (timeToLive requests : ℕ) :
    Stable Inv (lease application timeToLive requests) := by
  have hstream (index : ℕ) : Stable Inv (leaseStream application index) := by
    unfold leaseStream
    refine stable_get.bind fun broker => ?_
    split
    · split
      · exact stable_pure _
      · refine (stable_updateStream h.toStreamPersistent index _).bind fun _ =>
          stable_get.bind fun next => ?_
        exact (stable_late _).bind fun codec => (stable_lift _).bind fun metadata =>
          stable_modify (h.writeSingle _)
    · exact stable_pure _
  unfold lease
  refine Stable.bind (stable_modify fun broker => h.limiter _ broker) fun _ =>
    stable_get.bind fun broker => ?_
  exact keeps_forM (fun _ => id) (fun _ _ _ h h' hbroker => h' (h hbroker))
    (fun index next => hstream index next) _

theorem stable_receive (h : Persistent application Inv) (remoteStreamId : ℕ)
    (payload : ReactivePayload) (completed follow : Bool) :
    Stable Inv (receive application remoteStreamId payload completed follow) := by
  intro broker
  unfold receive
  dsimp only
  apply keeps_get_bind
  split
  · rename_i index hmap
    split
    · refine Stable.bind ?_ (fun _ => stable_endStream h _ _) broker
      unfold receiveLast
      split
      · exact stable_get.bind fun _ => (stable_late _).bind fun codec =>
          stable_onPayloadFragment h.toStreamPersistent _ codec _ _ _
      · exact stable_pure _
    · split
      · exact h.receiveFragment remoteStreamId index _ _ broker hmap
      · exact stable_pure _ broker
  · exact stable_pure _ broker

theorem stable_request (h : Persistent application Inv) (remoteStreamId count : ℕ) :
    Stable Inv (request application remoteStreamId count) := by
  unfold request
  refine Stable.bind (fun broker hbroker => ?_) fun allowed => ?_
  · obtain ⟨limiter, hlimiter⟩ := checkLease_eq count broker
    change Inv (checkLease count broker).2
    rw [hlimiter]
    exact h.limiter limiter broker hbroker
  · split
    · refine stable_get.bind fun broker => ?_
      split
      · exact (stable_subscribe h.toStreamPersistent _).bind fun _ =>
          (stable_invoke h.toStreamPersistent _ _).bind fun _ =>
          stable_updateStream h.toStreamPersistent _ _
      · exact stable_pure _
    · exact stable_modify (h.writeSingle _)

theorem stable_initiate (h : Persistent application Inv) (remoteStreamId initialRequestCount : ℕ)
    (initialPayload : ReactivePayload) :
    Stable Inv (initiate application remoteStreamId initialRequestCount initialPayload) := by
  unfold initiate
  refine stable_get.bind fun _ => (stable_late _).bind fun codec =>
    (stable_lift _).bind fun metadata => (stable_lift _).bind fun method =>
      stable_get.bind fun _ => ?_
  split
  · -- The stream is added to the broker whose codec was read.
    intro broker
    apply keeps_get_bind
    refine keeps_late_bind id fun codec hcodec => ?_
    apply keeps_get_bind
    refine keeps_modify_bind fun hbroker => ?_
    refine Stable.bind (stable_subscribe h.toStreamPersistent _)
      (fun _ => stable_updateStream h.toStreamPersistent _ _) _ ?_
    exact h.addStream _ codec broker hcodec hbroker
  · exact stable_pure _

theorem stable_handle (h : Persistent application Inv) (remoteStreamId code : ℕ)
    (message : DartString) : Stable Inv (handle application remoteStreamId code message) := by
  unfold handle
  split
  · refine stable_get.bind fun broker => ?_
    split
    · exact (stable_invoke h.toStreamPersistent _ _).bind fun _ =>
        stable_invoke h.toStreamPersistent _ _
    · exact stable_pure _
  · split
    · exact stable_throw _
    · exact stable_pure _

/-- What the updates keep is kept by every call of the responder. -/
theorem Persistent.call (h : Persistent application Inv) (brokerCall : BrokerCall) :
    Stable Inv (call application brokerCall) := by
  cases brokerCall with
  | setup dataMimeType metadataMimeType interval lifetime lease => exact h.setup _ _ _ _ _
  | lease timeToLive requests => exact stable_lease h _ _
  | pong respond =>
    unfold ReactiveBroker.call pong
    refine Stable.bind (stable_modify fun broker => h.timer _ broker) fun _ => ?_
    split
    · exact stable_modify (h.writeSingle _)
    · exact stable_pure _
  | request remoteStreamId count => exact stable_request h _ _
  | initiate remoteStreamId initialRequestCount initialPayload => exact stable_initiate h _ _ _
  | receive remoteStreamId payload completed follow => exact stable_receive h _ _ _ _
  | cancel streamId => exact stable_endStream h _ _
  | handle remoteStreamId code message => exact stable_handle h _ _ _

/-- The updates of SETUP that are behind the assignment of the codecs. -/
theorem stable_setup (dataMimeType metadataMimeType : DartString)
    (interval lifetime : ℕ) (lease : Bool)
    (hcodecs : ∀ codec (broker : ReactiveBroker Value), Inv broker →
      Inv { broker with dataCodec := some codec } ∧ Inv { broker with metadataCodec := some codec })
    (hstart : ∀ broker, Inv broker → Inv (startLease application lease broker))
    (hactivate : ∀ broker, Inv broker → Inv (activate interval lifetime broker))
    (hreject : ∀ broker, Inv broker → Inv (rejectSetup broker)) :
    Stable Inv (setup application dataMimeType metadataMimeType interval lifetime lease) := by
  unfold setup
  split
  · split
    · exact stable_modify hreject
    · unfold setDataCodec setMetadataCodec
      refine Stable.bind ?_ fun _ => Stable.bind ?_ fun _ =>
        Stable.bind (stable_modify hstart) fun _ => stable_modify hactivate
      -- The data codec, then in the same way that of the metadata.
      · refine stable_get.bind fun broker => ?_
        split
        · exact stable_throw _
        · exact stable_modify fun broker hbroker => (hcodecs _ broker hbroker).1
      · refine stable_get.bind fun broker => ?_
        split
        · exact stable_throw _
        · exact stable_modify fun broker hbroker => (hcodecs _ broker hbroker).2
  · exact stable_modify hreject

/-- No call of the responder opens or closes the broker. -/
theorem persistent_open (application : Application Value) (accepting sending : Bool) :
    Persistent application fun broker => broker.accepting = accepting ∧
      broker.sending = sending where
  updateStream _ _ _ := id
  record _ _ := id
  limiter _ _ := id
  timer _ _ := id
  writeSingle _ _ := id
  remove _ _ := id
  addStream _ _ _ _ := id
  setup _ _ _ _ lease := by
    refine stable_setup _ _ _ _ _ (fun _ _ h => ⟨h, h⟩) (fun broker h => ?_) (fun _ => id) fun _ =>
      id
    unfold startLease
    cases lease with
    | false => exact h
    | true => cases application.leaseConfiguration <;> exact h
  receiveFragment _ index data follow broker _ h := by
    have hstream : StreamPersistent fun broker : ReactiveBroker Value =>
        broker.accepting = accepting ∧ broker.sending = sending :=
      ⟨fun _ _ _ => id, fun _ _ => id⟩
    refine keeps_caught (R := fun broker next => broker.accepting = accepting ∧
      broker.sending = sending → next.accepting = accepting ∧ next.sending = sending) ?_
      (fun _ _ => id) h
    refine stable_get.bind (fun _ => (stable_late _).bind fun codec => ?_) broker
    exact stable_onPayloadFragment hstream index codec data follow false

end Stable

end ReactiveBroker

end FengShui.Reactive
