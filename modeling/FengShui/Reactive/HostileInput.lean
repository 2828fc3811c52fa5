import FengShui.Reactive.Assembler
import FengShui.Reactive.Readable
import FengShui.Reactive.Throws

/-!
# Bytes that no peer of the library sends (`reactive/responder.dart`)

A connection of a server gets chunks of any bytes, and between them whatever else happens to its
broker. The callbacks of the application do not throw and its codecs decode everything. Then
`returned_iff` says when every call of `handle` returns: the bytes in front of every round are
readable, a REQUEST_CHANNEL frame comes in behind an accepted SETUP frame and names a method, and
what a LEASE frame opens is encoded.
-/

namespace FengShui.Reactive

open Effect ReactiveReadBuffer ReactiveResponder

variable {Value : Type}

/-- The callbacks do not throw, and the codecs decode every byte string. -/
structure Application.Harmless (application : Application Value) : Prop where
  callback : ∀ calls, (application.callback calls).2 = none
  onError : ∀ code message, application.onError code message = none
  decode : ∀ mimeType codec, application.codecs mimeType = some codec →
    ∀ bytes, ∃ value, codec.decode bytes = .ok value

theorem Application.Harmless.spares {application : Application Value} (h : application.Harmless)
    (calls callbacks : List (ℕ × Callback Value)) : application.Spares calls callbacks := by
  induction callbacks generalizing calls with
  | nil => trivial
  | cons callback callbacks ih => exact ⟨h.callback _, ih _⟩

namespace ReactiveBroker

/-- The codecs are set when the broker is activated, decode everything, and there are no streams
before; nothing has failed. -/
structure Prepared (broker : ReactiveBroker Value) : Prop where
  dataCodec : broker.dataCodec.isSome = broker.activated
  metadataCodec : broker.metadataCodec.isSome = broker.activated
  decode : ∀ codec, broker.dataCodec = some codec ∨ broker.metadataCodec = some codec →
    ∀ bytes, ∃ value, codec.decode bytes = .ok value
  streams : ∀ id index, broker.streams.get? id = some index → broker.activated = true
  failures : broker.failures = []

section Prepared

variable {application : Application Value} {broker next : ReactiveBroker Value}

theorem prepared_new (supplier : ReactiveStreamIdSupplier) (streamId now : ℤ) :
    Prepared (new supplier streamId now : ReactiveBroker Value) where
  dataCodec := rfl
  metadataCodec := rfl
  decode _ h := by rcases h with h | h <;> cases h
  streams _ _ h := by cases h
  failures := rfl

/-- What changes none of these. -/
theorem Prepared.of_eq (h : Prepared broker) (hdata : next.dataCodec = broker.dataCodec)
    (hmeta : next.metadataCodec = broker.metadataCodec) (hact : next.activated = broker.activated)
    (hstreams : ∀ id index, next.streams.get? id = some index →
      next.activated = true ∨ broker.streams.get? id = some index)
    (hfailures : next.failures = broker.failures) : Prepared next where
  dataCodec := by rw [hdata, hact, h.dataCodec]
  metadataCodec := by rw [hmeta, hact, h.metadataCodec]
  decode codec hcodec := h.decode codec (by rwa [hdata, hmeta] at hcodec)
  streams id index hmapped := by
    rcases hstreams id index hmapped with hactive | hmapped
    · exact hactive
    · rw [hact]
      exact h.streams id index hmapped
  failures := hfailures.trans h.failures

theorem streamPersistent_prepared : StreamPersistent (Prepared : ReactiveBroker Value → Prop) where
  updateStream _ _ _ h := h.of_eq rfl rfl rfl (fun _ _ => .inr) rfl
  record _ _ h := h.of_eq rfl rfl rfl (fun _ _ => .inr) rfl

/-- A fragment that a codec decodes does not fail. -/
theorem returns_onPayloadFragment (hharmless : application.Harmless) {codec : ReactiveCodec Value}
    (hdecode : ∀ bytes, ∃ value, codec.decode bytes = .ok value) (index : ℕ) (data : Uint8List)
    (follow complete : Bool) (broker : ReactiveBroker Value) :
    Returns broker (onPayloadFragment application index codec data follow complete)
      fun _ _ => True := by
  have hinvoke (callback : Callback Value) (broker : ReactiveBroker Value) :
      Returns broker (invoke application index callback) fun _ _ => True :=
    returns_invoke.mpr ⟨hharmless.callback _, trivial⟩
  have hval (bytes : Uint8List) (broker : ReactiveBroker Value) : Returns broker (do
      let value ← lift (codec.decode bytes)
      invoke application index (.onPayload (some value)) : Broking Value Unit) fun _ _ => True := by
    obtain ⟨value, hbytes⟩ := hdecode bytes
    rw [returns_bind, returns_lift]
    exact ⟨value, hbytes, hinvoke _ _⟩
  have hdeliver (fragments : List Uint8List) (broker : ReactiveBroker Value) : Returns broker (do
      let assembled ← lift (ReactiveAssembler.reassemble fragments)
      modify (updateStream index fun stream => { stream with fragments := [] })
      let value ← lift (codec.decode assembled)
      invoke application index (.onPayload (some value)) : Broking Value Unit) fun _ _ => True := by
    rw [returns_bind, returns_lift]
    refine ⟨_, reassemble_eq fragments, ?_⟩
    rw [returns_modify_bind]
    exact hval _ _
  -- Every branch decodes or calls back, and neither throws here.
  unfold onPayloadFragment
  rw [returns_get_bind]
  split
  · dsimp only
    split
    · rw [returns_modify_bind]
      split
      · exact hdeliver _ _
      · trivial
    · split
      · split
        · exact hinvoke _ _
        · exact hval _ _
      · rw [returns_modify_bind]
        exact hdeliver _ _
  · trivial

theorem prepared_setup (hharmless : application.Harmless)
    (dataMimeType metadataMimeType : DartString) (interval lifetime : ℕ) (lease : Bool) :
    Stable Prepared (setup application dataMimeType metadataMimeType interval lifetime lease) := by
  intro broker h
  have hreject : Prepared (rejectSetup broker) := h.of_eq rfl rfl rfl (fun _ _ => .inr) rfl
  unfold setup
  cases hdata : application.codecs dataMimeType with
  | none => exact hreject
  | some dataCodec =>
    cases hmeta : application.codecs metadataMimeType with
    | none => exact hreject
    | some metadataCodec =>
      dsimp only
      split
      · exact hreject
      · cases hact : broker.activated with
        | true =>
          -- The first assignment throws.
          have hthrow : setDataCodec dataCodec broker = .error .lateInitializationError broker := by
            unfold setDataCodec
            rw [get_bind_apply, if_pos (h.dataCodec.trans hact)]
            rfl
          change Prepared (stateOf (EStateM.bind _ _ broker))
          unfold EStateM.bind
          rw [hthrow]
          exact h
        | false =>
          have hdecode : ∀ codec, some dataCodec = some codec ∨ some metadataCodec = some codec →
              ∀ bytes, ∃ value, codec.decode bytes = .ok value := by
            rintro codec (hcodec | hcodec)
            · exact hharmless.decode dataMimeType codec (hdata.trans hcodec)
            · exact hharmless.decode metadataMimeType codec (hmeta.trans hcodec)
          have hfailures := h.failures
          suffices hreturns : Returns broker _ fun _ next => Prepared next from
            (returns_iff_stateOf.mp hreturns).2
          unfold setDataCodec setMetadataCodec
          rw [returns_bind, returns_get_bind, if_neg (by rw [h.dataCodec, hact]; simp),
            returns_modify, returns_bind, returns_get_bind,
            if_neg
              (by change ¬broker.metadataCodec.isSome = true; rw [h.metadataCodec, hact]; simp),
            returns_modify, returns_modify_bind, returns_modify]
          unfold startLease activate
          split <;> exact ⟨rfl, rfl, hdecode, fun _ _ _ => rfl, hfailures⟩

theorem persistent_prepared (hharmless : application.Harmless) :
    Persistent application Prepared where
  toStreamPersistent := streamPersistent_prepared
  limiter _ _ h := h.of_eq rfl rfl rfl (fun _ _ => .inr) rfl
  timer _ _ h := h.of_eq rfl rfl rfl (fun _ _ => .inr) rfl
  writeSingle _ _ h := h.of_eq rfl rfl rfl (fun _ _ => .inr) rfl
  remove _ _ h := h.of_eq rfl rfl rfl (fun _ _ hmap => .inr (DartMap.get?_of_remove _ _ hmap).2)
    rfl
  addStream stream codec broker hcodec h := by
    have hact : broker.activated = true := by rw [← h.dataCodec, hcodec]; rfl
    exact h.of_eq rfl rfl rfl (fun _ _ _ => .inl hact) rfl
  setup := prepared_setup hharmless
  -- A mapped stream was added behind the setup, so the codec is there.
  receiveFragment remoteStreamId index data follow broker hmap h := by
    obtain ⟨codec, hcodec⟩ : ∃ codec, broker.dataCodec = some codec := by
      rw [← Option.isSome_iff_exists, h.dataCodec]
      exact h.streams _ _ hmap
    have hreturns := returns_onPayloadFragment hharmless (h.decode codec (.inl hcodec)) index data
      follow false broker
    have hkeeps : Prepared
        (stateOf (onPayloadFragment application index codec data follow false broker)) :=
      stable_onPayloadFragment streamPersistent_prepared index codec data follow false broker h
    have hpart : (do
        onPayloadFragment application index (← late (← get).dataCodec) data follow false :
          Broking Value Unit) broker =
        onPayloadFragment application index codec data follow false broker := by
      rw [get_bind_apply, hcodec]
      rfl
    unfold receiveFragment caught
    rw [hpart]
    obtain ⟨a, next, hok⟩ := returns_iff_ok.mp hreturns
    rw [hok] at hkeeps ⊢
    exact hkeeps

/-- What else happens to the broker of a server keeps it prepared. -/
theorem Prepared.step (h : Prepared broker) {action : BrokerAction Value}
    (hcall : ∀ brokerCall, action ≠ .call brokerCall) (hconnect : ∀ setup, action ≠ .connect setup)
    (hnext : step application broker action = some next) : Prepared next := by
  have hupdates (indices : List ℕ) (graceful : Bool) (broker : ReactiveBroker Value)
      (h : Prepared broker) : Prepared (indices.foldl (fun broker index =>
        updateRequester index (ReactiveRequester.close graceful) broker) broker) := by
    induction indices generalizing broker with
    | nil => exact h
    | cons index indices ih => exact ih _ (streamPersistent_prepared.updateStream _ _ _ h)
  cases action with
  | call brokerCall => exact absurd rfl (hcall brokerCall)
  | connect setup => exact absurd rfl (hconnect setup)
  | consume key configuration =>
    cases hnext
    exact h.of_eq rfl rfl rfl (fun _ _ => .inr) rfl
  | produce index producerCall =>
    cases hnext
    exact streamPersistent_prepared.updateStream _ _ _ h
  | requester index action =>
    rw [ReactiveBroker.step] at hnext
    split at hnext
    · obtain ⟨stream, -, hnext⟩ := Option.bind_eq_some_iff.mp hnext
      obtain ⟨requester, -, hnext⟩ := Option.bind_eq_some_iff.mp hnext
      cases hnext
      exact streamPersistent_prepared.updateStream _ _ _ h
    · cases hnext
  | fail =>
    -- Nothing has failed.
    rw [ReactiveBroker.step, h.failures] at hnext
    cases hnext
  | refresh =>
    rw [ReactiveBroker.step] at hnext
    split at hnext
    · cases hnext
      exact h.of_eq rfl rfl rfl (fun _ _ => .inr) rfl
    · cases hnext
  | tick now =>
    rw [ReactiveBroker.step] at hnext
    split at hnext
    · cases hnext
      exact h.of_eq rfl rfl rfl (fun _ _ => .inr) rfl
    · cases hnext
  | close graceful =>
    cases hnext
    unfold close
    split
    · exact h
    · exact hupdates _ graceful _ (h.of_eq rfl rfl rfl (fun _ _ => .inr) rfl)
  | closed =>
    rw [ReactiveBroker.step] at hnext
    split at hnext
    · split at hnext
      · cases hnext
        exact h.of_eq rfl rfl rfl (fun _ _ hget => by cases hget) rfl
      · cases hnext
    · cases hnext

/-- What is left of the condition for a call, once nothing of the application throws and the codecs
are set. -/
def CallMet (application : Application Value) (broker : ReactiveBroker Value) : BrokerCall → Prop
  | .initiate _ _ initialPayload =>
    broker.activated = true ∧ ∀ codec metadata, broker.metadataCodec = some codec →
      codec.decode initialPayload.metadata = .ok metadata →
        ∃ method, application.method metadata = .ok method
  | .lease _ _ => ∀ index ∈ broker.streams.values, Encodes application broker index
  | _ => True

theorem callReturns_iff (hharmless : application.Harmless) (h : Prepared broker)
    {brokerCall : BrokerCall} (hsetup : ∀ dataMimeType metadataMimeType interval lifetime lease,
      brokerCall = .setup dataMimeType metadataMimeType interval lifetime lease →
        broker.activated = false) :
    CallReturns application broker brokerCall ↔ CallMet application broker brokerCall := by
  cases brokerCall with
  | setup dataMimeType metadataMimeType interval lifetime lease =>
    have hact := hsetup _ _ _ _ _ rfl
    refine iff_of_true (fun _ _ _ => ?_) trivial
    rw [← Option.isNone_iff_eq_none, ← Option.isNone_iff_eq_none, ← Option.not_isSome,
      ← Option.not_isSome, h.dataCodec, h.metadataCodec, hact]
    exact ⟨rfl, rfl⟩
  | lease timeToLive requests => exact Iff.rfl
  | pong respond => exact Iff.rfl
  | request remoteStreamId count => exact iff_of_true (fun _ _ _ => hharmless.spares _ _) trivial
  | initiate remoteStreamId initialRequestCount initialPayload =>
    -- Both directions need the codecs that only a setup installs.
    constructor
    · rintro ⟨codec, hcodec, metadata, hmeta, method, hmethod, -⟩
      refine ⟨by rw [← h.metadataCodec, hcodec]; rfl, fun other found hother hfound => ?_⟩
      obtain rfl := Option.some.inj (hcodec.symm.trans hother)
      obtain rfl := Except.ok.inj (hmeta.symm.trans hfound)
      exact ⟨method, hmethod⟩
    · rintro ⟨hact, hmethods⟩
      obtain ⟨codec, hcodec⟩ := Option.isSome_iff_exists.mp (h.metadataCodec.trans hact)
      obtain ⟨metadata, hmeta⟩ := h.decode codec (.inr hcodec) initialPayload.metadata
      obtain ⟨method, hmethod⟩ := hmethods codec metadata hcodec hmeta
      exact ⟨codec, hcodec, metadata, hmeta, method, hmethod, fun _ _ =>
        ⟨h.dataCodec.trans hact, hharmless.spares _ _⟩⟩
  | receive remoteStreamId payload completed follow =>
    refine iff_of_true (fun _ index hmap => ?_) trivial
    obtain ⟨codec, hcodec⟩ :=
      Option.isSome_iff_exists.mp (h.dataCodec.trans (h.streams _ _ hmap))
    have hlast : ∃ callbacks, lastPayload index payload.data follow broker = .ok callbacks := by
      unfold lastPayload
      rw [hcodec]
      dsimp only
      split
      · exact ⟨_, rfl⟩
      · split
        · exact ⟨_, rfl⟩
        · rename_i stream _
          have hbytes : ∃ bytes, (if follow || !stream.fragments.isEmpty then
              ReactiveAssembler.reassemble (stream.fragments ++ [payload.data])
              else .ok payload.data) = .ok bytes := by
            split
            · exact ⟨_, reassemble_eq _⟩
            · exact ⟨_, rfl⟩
          obtain ⟨bytes, hbytes⟩ := hbytes
          obtain ⟨value, hval⟩ := h.decode codec (.inl hcodec) bytes
          rw [hbytes, Except.bind, hval]
          exact ⟨_, rfl⟩
    obtain ⟨callbacks, hcbs⟩ := hlast
    exact ⟨callbacks, hcbs, hharmless.spares _ _⟩
  | cancel streamId => exact iff_of_true (fun _ _ => hharmless.spares _ _) trivial
  | handle remoteStreamId code message =>
    refine iff_of_true ?_ trivial
    simp only [CallReturns]
    split
    · exact fun _ _ => hharmless.spares _ _
    · exact hharmless.onError code message

end Prepared

end ReactiveBroker

/-! ## The rounds of `handle` -/

/-- Every round of the loop meets the condition, which sees the buffer and the broker before the
round. -/
def EveryRound {σ : Type} (broker : Broker σ) (cond : ReactiveReadBuffer → σ → Prop) :
    ℕ → ReactiveReadBuffer → σ → Prop
  | 0, _, _ => True
  | rounds + 1, buffer, state =>
    (buffer.isReadable && broker.sending state) = true → cond buffer state ∧
      ∀ buffer' state', turn broker buffer state = .next buffer' state' →
        EveryRound broker cond rounds buffer' state'

/-- Every round of a call of `handle`. -/
def EveryTurn {σ : Type} (broker : Broker σ) (cond : ReactiveReadBuffer → σ → Prop)
    (payload : Uint8List) (buffer : ReactiveReadBuffer) (state : σ) : Prop :=
  broker.sending state = true →
    EveryRound broker cond ((buffer.extend payload).unread.length + 1) (buffer.extend payload) state

/-- The round takes a header at least, or stops with the reader where it was. -/
def Progresses {σ : Type} (broker : Broker σ) (buffer : ReactiveReadBuffer) (state : σ) : Prop :=
  match turn broker buffer state with
  | .next buffer' _ => ∃ taken, reactiveFrameHeaderSize ≤ taken.length ∧
      buffer.unread = taken ++ buffer'.unread
  | .wait buffer' => buffer' = buffer.save
  | .readThrew _ _ => False
  | .callThrew _ _ _ => False

section Rounds

variable {σ : Type} {broker : Broker σ}

/-- The reader stands somewhere in the data. -/
def Standing (buffer : ReactiveReadBuffer) : Prop :=
  ∃ pre rest checkpoint, buffer = cursor pre rest checkpoint

variable {buffer : ReactiveReadBuffer} {state : σ}

theorem progresses_iff (h : Standing buffer) :
    Progresses broker buffer state ↔
      Readable (broker.accepting state) (broker.activated state) buffer.unread ∧
        ∀ brokerCall buffer',
          readNext (broker.accepting state) (broker.activated state) buffer.save =
          .ok (.frame brokerCall) buffer' →
            Returns state (broker.call brokerCall) fun _ _ => True := by
  obtain ⟨pre, rest, checkpoint, rfl⟩ := h
  rw [unread_cursor, ← returns_readNext _ _ pre rest pre.length, save_cursor]
  unfold Progresses turn
  rw [save_cursor]
  obtain ⟨taken, left, rfl, ⟨next, hread, htaken⟩ | ⟨e, hread⟩⟩ :=
    readNext_cursor (broker.accepting state) (broker.activated state) pre rest pre.length
  · rw [returns_of_ok hread, hread, true_and]
    -- An unfinished frame puts the cursor back, and every other outcome leaves it behind what was
    -- read.
    cases next with
    | incomplete =>
      refine iff_of_true (restore_cursor pre left taken) fun _ _ h => ?_
      cases h
    | ignored =>
      refine iff_of_true ⟨taken, htaken (by simp), by rw [unread_cursor, unread_cursor]⟩
        fun _ _ h => ?_
      cases h
    | unknown =>
      refine iff_of_true ⟨taken, htaken (by simp), ?_⟩ fun _ _ h => ?_
      · rw [shrink_cursor, unread_cursor, unread_cursor]
      · cases h
    | frame brokerCall =>
      have hcalls : (∀ (other : BrokerCall) buffer', (.ok (NextFrame.frame brokerCall)
          (cursor (pre ++ taken) left pre.length) : EStateM.Result DartException _ _) =
            .ok (NextFrame.frame other) buffer' →
              Returns state (broker.call other) fun _ _ => True) ↔
          Returns state (broker.call brokerCall) fun _ _ => True := by
        refine ⟨fun h => h _ _ rfl, fun h _ _ hsame => ?_⟩
        cases hsame
        exact h
      rw [hcalls]
      unfold Returns
      dsimp only
      cases broker.call brokerCall state with
      | ok a after =>
        refine iff_of_true ⟨taken, htaken (by simp), ?_⟩ trivial
        rw [shrink_cursor, unread_cursor, unread_cursor]
      -- The call threw, and the turn with it.
      | error e after => exact Iff.rfl
  · rw [hread]
    refine iff_of_false id fun h => ?_
    have hreturns := h.1
    unfold Returns at hreturns
    rwa [hread] at hreturns

/-- A round leaves the reader somewhere in the data. -/
theorem standing_turn (broker : Broker σ) (state : σ) (h : Standing buffer) :
    Standing (turn broker buffer state).buffer := by
  obtain ⟨pre, rest, checkpoint, rfl⟩ := h
  unfold turn
  rw [save_cursor]
  obtain ⟨taken, left, rfl, ⟨next, hread, -⟩ | ⟨e, hread⟩⟩ :=
    readNext_cursor (broker.accepting state) (broker.activated state) pre rest pre.length
  · rw [hread]
    cases next with
    | incomplete => exact ⟨pre, taken ++ left, pre.length, restore_cursor ..⟩
    | ignored => exact ⟨_, left, _, rfl⟩
    | unknown => exact ⟨[], left, _, shrink_cursor ..⟩
    | frame brokerCall =>
      dsimp only
      cases broker.call brokerCall state with
      | ok a after => exact ⟨[], left, _, shrink_cursor ..⟩
      | error e after => exact ⟨_, left, _, rfl⟩
  · rw [hread]
    exact ⟨_, left, _, rfl⟩

/-- Conditions that agree where an invariant holds. -/
theorem everyRound_iff {cond cond' : ReactiveReadBuffer → σ → Prop} (Inv : σ → Prop)
    (hcall : ∀ brokerCall state, Inv state → Inv (stateOf (broker.call brokerCall state)))
    (hcond : ∀ buffer state, Standing buffer → Inv state →
    (cond buffer state ↔ cond' buffer state)) (rounds : ℕ) (hbuf : Standing buffer)
    (hstate : Inv state) :
    EveryRound broker cond rounds buffer state ↔ EveryRound broker cond' rounds buffer state := by
  -- On the rounds: the invariant is that of the state, and `Standing` that of the buffer.
  induction rounds generalizing buffer state with
  | zero => exact Iff.rfl
  | succ rounds ih =>
    unfold EveryRound
    rw [hcond buffer state hbuf hstate]
    refine imp_congr_right fun _ => and_congr_right fun _ =>
      forall₂_congr fun buffer' state' => imp_congr_right fun hturn => ?_
    have hstand := standing_turn broker state hbuf
    rw [hturn] at hstand
    refine ih hstand ?_
    rcases turn_next hturn with rfl | ⟨brokerCall, -, hres⟩
    · exact hstate
    · have hafter := hcall brokerCall state hstate
      rwa [hres] at hafter

/-- When every round progresses, the loop returns. -/
theorem returned_of_everyRound {rounds : ℕ}
    (h : EveryRound broker (Progresses broker) rounds buffer state) :
    ∃ last after, handleLoop broker rounds buffer state = .returned last after := by
  induction rounds generalizing buffer state with
  | zero => exact ⟨_, _, rfl⟩
  | succ rounds ih =>
    unfold handleLoop
    split
    · rename_i hgoes
      obtain ⟨hprogresses, hrest⟩ := h hgoes
      unfold Progresses at hprogresses
      split
      · rename_i hturn
        exact ih (hrest _ _ hturn)
      · exact ⟨_, _, rfl⟩
      · rename_i hturn
        rw [hturn] at hprogresses
        exact hprogresses.elim
      · rename_i hturn
        rw [hturn] at hprogresses
        exact hprogresses.elim
    · exact ⟨_, _, rfl⟩

/-- `handle` leaves the reader somewhere in the data. -/
theorem standing_handle {payload : Uint8List} (h : Standing buffer) :
    Standing (handle broker payload buffer state).buffer := by
  have hloop (rounds : ℕ) (buffer : ReactiveReadBuffer) (state : σ) (h : Standing buffer) :
      Standing (handleLoop broker rounds buffer state).buffer := by
    induction rounds generalizing buffer state with
    | zero => exact h
    | succ rounds ih =>
      unfold handleLoop
      split
      · have hstand := standing_turn broker state h
        cases hturn : turn broker buffer state with
        | next buffer' state' =>
          rw [hturn] at hstand
          exact ih buffer' state' hstand
        | wait buffer' | readThrew e buffer' | callThrew e buffer' state' =>
          rw [hturn] at hstand
          exact hstand
      · obtain ⟨pre, rest, checkpoint, rfl⟩ := h
        exact ⟨[], [], 0, rfl⟩
  obtain ⟨pre, rest, checkpoint, rfl⟩ := h
  unfold handle
  split
  · exact hloop _ _ _ ⟨pre, rest ++ payload, checkpoint, extend_cursor ..⟩
  · exact ⟨pre, rest, checkpoint, rfl⟩

end Rounds

/-! ## The connection of a server -/

/-- The responder and the broker of a connection. -/
structure Connection (Value : Type) where
  buffer : ReactiveReadBuffer
  broker : ReactiveBroker Value

/-- A chunk comes in, or something else happens to the broker. -/
inductive ConnectionAction (Value : Type) where
  | chunk (payload : Uint8List)
  | other (action : BrokerAction Value)

namespace Connection

/-- What does not happen to a server by itself: the calls of the responder come from the chunks, and
`connect` is for clients. -/
def isOther : BrokerAction Value → Bool
  | .call _ | .connect _ => false
  | _ => true

/-- One action. What `handle` throws leaves the responder as it is. -/
def step (application : Application Value) (connection : Connection Value) :
    ConnectionAction Value → Option (Connection Value)
  | .chunk payload =>
    let handled := handle (ReactiveBroker.toBroker application) payload connection.buffer
      connection.broker
    some ⟨handled.buffer, handled.state⟩
  | .other action =>
    if isOther action then do
      let broker ← ReactiveBroker.step application connection.broker action
      return { connection with broker := broker }
    else none

/-- A new connection. -/
def new (supplier : ReactiveStreamIdSupplier) (streamId now : ℤ) : Connection Value :=
  ⟨.new, .new supplier streamId now⟩

section Hostile

variable (application : Application Value)

/-- `handle` returns, no codec was read before it was set, and every round of the loop goes forward
or stops where it began. -/
structure Returned (connection : Connection Value) (payload : Uint8List) : Prop where
  returned : ∃ buffer broker, handle (ReactiveBroker.toBroker application) payload connection.buffer
    connection.broker = .returned buffer broker
  assigned : ∀ failure ∈ (handle (ReactiveBroker.toBroker application) payload connection.buffer
    connection.broker).state.failures, failure.2 ≠ .lateInitializationError
  progresses : EveryTurn (ReactiveBroker.toBroker application)
    (Progresses (ReactiveBroker.toBroker application)) payload connection.buffer connection.broker

/-- The bytes in front of a round are readable, and the call that they lead to meets its
condition. -/
def RoundMet (buffer : ReactiveReadBuffer) (broker : ReactiveBroker Value) : Prop :=
  Readable broker.accepting broker.activated buffer.unread ∧
    ∀ brokerCall buffer', readNext broker.accepting broker.activated buffer.save =
      .ok (.frame brokerCall) buffer' → ReactiveBroker.CallMet application broker brokerCall

/-- Every round meets the condition. -/
def Met (connection : Connection Value) (payload : Uint8List) : Prop :=
  EveryTurn (ReactiveBroker.toBroker application) (RoundMet application) payload connection.buffer
    connection.broker

/-- A condition on the chunks of a run. -/
def OnChunks (cond : Connection Value → Uint8List → Prop) (connection : Connection Value) :
    ConnectionAction Value → Prop
  | .chunk payload => cond connection payload
  | .other _ => True

variable {application}

theorem roundMet_iff (hharmless : application.Harmless) {buffer : ReactiveReadBuffer}
    {broker : ReactiveBroker Value} (hbuf : Standing buffer) (h : broker.Prepared) :
    Progresses (ReactiveBroker.toBroker application) buffer broker ↔
      RoundMet application buffer broker := by
  rw [progresses_iff hbuf]
  refine and_congr_right fun _ => forall₂_congr fun brokerCall buffer' => ?_
  refine imp_congr_right fun hread => ?_
  change Returns broker (ReactiveBroker.call application brokerCall) _ ↔ _
  rw [ReactiveBroker.call_returns]
  refine ReactiveBroker.callReturns_iff hharmless h fun _ _ _ _ _ hsetup => ?_
  rw [hsetup] at hread
  exact (open_of_readNext hread).2

/-- The broker of a connection is prepared, and its reader stands somewhere in the data. -/
def Sound (connection : Connection Value) : Prop :=
  Standing connection.buffer ∧ connection.broker.Prepared

theorem sound_new (supplier : ReactiveStreamIdSupplier) (streamId now : ℤ) :
    Sound (new supplier streamId now : Connection Value) :=
  ⟨⟨[], [], 0, new_eq_cursor⟩, ReactiveBroker.prepared_new supplier streamId now⟩

variable {connection : Connection Value}

theorem prepared_handle (hharmless : application.Harmless) (h : Sound connection)
    (payload : Uint8List) :
    (handle (ReactiveBroker.toBroker application) payload connection.buffer
      connection.broker).state.Prepared :=
  handle_invariant (ReactiveBroker.toBroker application) ReactiveBroker.Prepared
    (fun brokerCall broker _ =>
      (ReactiveBroker.persistent_prepared hharmless).call brokerCall broker)
    h.2

theorem Sound.step (hharmless : application.Harmless) {next : Connection Value}
    (h : Sound connection) {action : ConnectionAction Value}
    (hnext : step application connection action = some next) : Sound next := by
  cases action with
  | chunk payload =>
    cases hnext
    exact ⟨standing_handle h.1, prepared_handle hharmless h payload⟩
  | other action =>
    rw [Connection.step] at hnext
    split at hnext
    · rename_i hother
      obtain ⟨broker, hbroker, hnext⟩ := Option.bind_eq_some_iff.mp hnext
      cases hnext
      refine ⟨h.1, h.2.step (fun brokerCall hcall => ?_) (fun setup hconnect => ?_) hbroker⟩
      · rw [hcall] at hother
        cases hother
      · rw [hconnect] at hother
        cases hother
    · cases hnext

/-- For one chunk. -/
theorem returned_iff (hharmless : application.Harmless) (h : Sound connection)
    (payload : Uint8List) :
    Returned application connection payload ↔ Met application connection payload := by
  have hextended : Standing (connection.buffer.extend payload) := by
    obtain ⟨pre, rest, checkpoint, hbuf⟩ := h.1
    rw [hbuf]
    exact ⟨pre, rest ++ payload, checkpoint, extend_cursor ..⟩
  have hrounds : EveryTurn (ReactiveBroker.toBroker application)
      (Progresses (ReactiveBroker.toBroker application)) payload connection.buffer
        connection.broker ↔ Met application connection payload := by
    have hcall (brokerCall : BrokerCall) (broker : ReactiveBroker Value)
      (hbroker : broker.Prepared) :
        (stateOf ((ReactiveBroker.toBroker application).call brokerCall broker)).Prepared :=
      (ReactiveBroker.persistent_prepared hharmless).call brokerCall broker hbroker
    refine imp_congr_right fun _ => ?_
    exact everyRound_iff ReactiveBroker.Prepared hcall
      (fun _ _ hbuf hbroker => roundMet_iff hharmless hbuf hbroker) _ hextended h.2
  rw [← hrounds]
  refine ⟨Returned.progresses, fun hprogresses => ⟨?_, ?_, hprogresses⟩⟩
  · unfold handle
    split
    · rename_i hsend
      exact returned_of_everyRound (hprogresses hsend)
    · exact ⟨_, _, rfl⟩
  · rw [(prepared_handle hharmless h payload).failures]
    exact nofun

end Hostile

/-- Every call of `handle` returns just when every round meets the condition. -/
theorem returned_iff_met (application : Application Value) (hharmless : application.Harmless)
    (supplier : ReactiveStreamIdSupplier) (streamId now : ℤ)
    (actions : List (ConnectionAction Value)) :
    Transition.Along (step application) (OnChunks (Returned application))
        (new supplier streamId now) actions ↔
      Transition.Along (step application) (OnChunks (Met application))
        (new supplier streamId now) actions := by
  refine Transition.along_iff_of_invariant Sound
    (fun connection action next h hnext => h.step hharmless hnext) (fun connection action h => ?_)
    (sound_new supplier streamId now)
  cases action with
  | chunk payload => exact returned_iff hharmless h payload
  | other action => exact Iff.rfl

theorem harmless_idle : Application.idle.Harmless where
  callback _ := rfl
  onError _ _ := rfl
  decode _ _ h bytes := by
    cases h
    exact ⟨(), rfl⟩

/-- Nine zeros are a frame of an unknown type, and three a header that is cut short. -/
theorem returned_iff_met_zeros :
    Transition.Along (step .idle) (OnChunks (Returned .idle)) (new .server 2 0)
      [.chunk (List.replicate 9 0), .chunk (List.replicate 3 0)] := by
  refine (returned_iff_met .idle harmless_idle .server 2 0 _).mpr ⟨fun _ _ => ⟨⟨?_, ?_⟩, ?_⟩, ?_⟩
  · exact fun _ => trivial
  · intro brokerCall buffer h
    cases h
  · intro buffer broker hturn
    cases hturn
    exact nofun
  · intro next hnext
    cases hnext
    refine ⟨fun _ _ => ⟨⟨?_, ?_⟩, ?_⟩, fun _ _ => trivial⟩
    · exact fun hlong => absurd hlong (by decide)
    · intro brokerCall buffer h
      cases h
    · intro buffer broker hturn
      cases hturn

/-- A REQUEST_CHANNEL frame in front of any SETUP frame: the broker reads a codec that is not
set. -/
theorem returned_false : Application.idle.Harmless ∧
    ¬Transition.Along (step .idle) (OnChunks (Returned .idle)) (new .server 2 0)
      [.chunk (ReactiveFrame.requestChannel 1 1 .empty).write] := by
  refine ⟨harmless_idle, fun h => ?_⟩
  obtain ⟨buffer, broker, hreturned⟩ := h.1.returned
  cases hreturned

end Connection

end FengShui.Reactive
