import FengShui.Reactive.BrokerInvariants
import FengShui.Reactive.Silence

/-!
# No stream is lost

A stream that nobody closes and that is not in the map is lost: no frame reaches it, and `close`
passes it by. Three things lose one: a new stream under the id of one that lives (`owned_false`), an
application that throws when it is told of the end, between the removal from the map and `close`,
and a `connect` while `close` waits. `owned_of_losesNone` says that there is no other.
-/

namespace FengShui.Reactive.ReactiveBroker

variable {Value : Type}

/-- Every stream is in the map under its id, or its requester is closed. -/
def Owned (broker : ReactiveBroker Value) : Prop :=
  ∀ (index : ℕ) stream, broker.objects[index]? = some stream →
    broker.streams.get? stream.id = some index ∨ stream.requester.isClosed = true

/-- There is a stream under the index, and its requester is not closed. -/
def Live (broker : ReactiveBroker Value) (index : ℕ) : Prop :=
  ∃ stream, broker.objects[index]? = some stream ∧ stream.requester.isClosed = false

/-- No stream that lives is under the id. -/
def Vacant (broker : ReactiveBroker Value) (id : ℤ) : Prop :=
  ∀ index, broker.streams.get? id = some index → ¬Live broker index

/-- `connect` opens a stream: the codecs are there and not set, and the routing of the first channel
is encoded. -/
def connects (application : Application Value) (setupConfiguration : ReactiveSetupConfiguration)
    (broker : ReactiveBroker Value) : Bool :=
  match application.codecs setupConfiguration.dataMimeType, broker.dataCodec,
    application.codecs setupConfiguration.metadataMimeType, broker.metadataCodec,
    broker.channels.entries with
  | some _, none, some metadataCodec, none, (key, _) :: _ =>
    match metadataCodec.encode (application.routing key) with
    | .ok _ => true
    | .error _ => false
  | _, _, _, _, _ => false

/-- The action loses no stream. -/
def LosesNone (application : Application Value) (broker : ReactiveBroker Value) :
    BrokerAction Value → Prop
  | .call (.initiate remoteStreamId _ initialPayload) =>
    opens application initialPayload broker = true → Vacant broker remoteStreamId
  | .call brokerCall =>
    ∀ index callbacks, ending application broker brokerCall = some (index, callbacks) →
    Live broker index → (application.callback callbacks).2 = none
  | .connect setupConfiguration =>
    connects application setupConfiguration broker = true →
      Vacant broker broker.currentLocalStreamId
  | .closed => ∀ indices, broker.closing = some indices → ∀ id index,
    broker.streams.get? id = some index → Live broker index → index ∈ indices
  | _ => True

variable {application : Application Value} {broker next : ReactiveBroker Value} {index : ℕ}

/-- A stream that lives later has lived before. -/
theorem live_before (hstand : Standing application broker)
    (hobjs : Carries broker.objects next.objects) (h : Live next index) : Live broker index := by
  obtain ⟨later, hlater, hopen⟩ := h
  obtain ⟨stream, hstream, hsame⟩ := hobjs.before hlater
  refine ⟨stream, hstream, ?_⟩
  by_contra hclosed
  have hlaterClosed :=
    ReactiveRequester.closed_of_reachable (hstand.requesters index stream hstream)
    (by simpa using hclosed) hsame.requester
  rw [hopen] at hlaterClosed
  cases hlaterClosed

variable {stream : ReactiveStream Value} {setupConfiguration : ReactiveSetupConfiguration}

theorem Owned.mapped (h : Owned broker) (hstream : broker.objects[index]? = some stream)
    (hlive : Live broker index) : broker.streams.get? stream.id = some index := by
  obtain ⟨found, hfound, hopen⟩ := hlive
  obtain rfl : stream = found := Option.some.inj (hstream.symm.trans hfound)
  rcases h index stream hstream with hmap | hclosed
  · exact hmap
  · rw [hopen] at hclosed
    cases hclosed

/-- What keeps the streams, and leaves those that live in the map, loses none. -/
theorem Owned.carries (h : Owned broker) (hstand : Standing application broker)
    (hobjs : Carries broker.objects next.objects)
    (hstreams : ∀ id index, broker.streams.get? id = some index → Live next index →
      next.streams.get? id = some index) : Owned next := by
  intro index later hlater
  cases hclosed : later.requester.isClosed with
  | true => exact .inr rfl
  | false =>
    have hlive : Live next index := ⟨later, hlater, hclosed⟩
    obtain ⟨stream, hstream, hsame⟩ := hobjs.before hlater
    have hmap := h.mapped hstream (live_before hstand hobjs hlive)
    rw [hsame.id]
    exact .inl (hstreams _ _ hmap hlive)

theorem Owned.stays (h : Owned broker) (hstand : Standing application broker)
    (hstays : Stays broker next) : Owned next :=
  h.carries hstand hstays.objects fun _ _ hmap _ => by rwa [hstays.streams]

theorem Owned.ends {id : ℤ} (h : Owned broker) (hstand : Standing application broker)
    (hmap : broker.streams.get? id = some index) (hends : Ends application id index broker next)
    (hreturns : Live broker index → (application.callback next.calls).2 = none) : Owned next := by
  refine h.carries hstand hends.objects fun id' i hmap' hlive => ?_
  rw [hends.streams]
  by_cases hid : id' = id
  · -- The stream that leaves the map is closed.
    subst hid
    obtain rfl : index = i := Option.some.inj (hmap.symm.trans hmap')
    obtain ⟨stream, hstream, hopen⟩ := live_before hstand hends.objects hlive
    obtain ⟨last, hlater, hlast⟩ := hends.closes (hreturns ⟨stream, hstream, hopen⟩) stream hstream
    have hsound := ReactiveRequester.sound_of_reachable
      ((hstand.requesters index stream hstream).trans hlater.requester)
    obtain ⟨found, hfound, hfoundOpen⟩ := hlive
    rw [hlast] at hfound
    cases hfound
    rw [ReactiveRequester.isClosed_close hsound] at hfoundOpen
    cases hfoundOpen
  · rwa [DartMap.get?_remove_of_ne _ _ hid]

/-- A new stream under an id that is vacant. -/
theorem Owned.addStream (h : Owned broker) (hvacant : Vacant broker stream.id) :
    Owned (addStream stream broker) := by
  intro i found hfound
  show (broker.streams.set stream.id broker.objects.length).get? found.id = some i ∨ _
  rcases of_getElem?_concat hfound with hfound | ⟨rfl, rfl⟩
  · rcases h i found hfound with hmap | hclosed
    · by_cases hid : found.id = stream.id
      · have hdead := hvacant i (hid ▸ hmap)
        right
        by_contra hclosed
        exact hdead ⟨found, hfound, by simpa using hclosed⟩
      · left
        rwa [DartMap.get?_set_of_ne _ _ hid]
    · exact .inr hclosed
  · exact .inl (DartMap.get?_set_self _ _ _)

theorem Owned.begins {id : ℤ} (h : Owned broker) (hstand : Standing application broker)
    (hbegins : Begins application id broker next) (hvacant : Vacant broker id) : Owned next := by
  obtain ⟨stream, key, rfl, -, hreq, hobjs⟩ := hbegins.objects
  refine (h.addStream hvacant).carries (hstand.addStream hreq) hobjs
    fun id index hmap _ => ?_
  rwa [hbegins.streams]

theorem Owned.outcome {brokerCall : BrokerCall} (h : Owned broker)
    (hstand : Standing application broker)
    (hloses : LosesNone application broker (.call brokerCall))
    (hout : Outcome application broker brokerCall next) : Owned next := by
  cases hout with
  | silent hsilent => exact h.stays hstand hsilent.toStays
  | talks _ htalks => exact h.stays hstand htalks.toStays
  | ends _ hmap hending hends =>
    refine h.ends hstand hmap hends fun hlive => ?_
    cases brokerCall with
    | receive => exact hloses _ _ hending hlive
    | cancel => exact hloses _ _ hending hlive
    | setup | lease | pong | request | initiate | handle => cases hending
  | fails _ _ _ hfails => exact h.stays hstand hfails.toStays
  | begins hcall hopens hbegins =>
    subst hcall
    exact h.begins hstand hbegins (hloses hopens)

/-- A `connect` that opens no stream. -/
theorem silent_connect (h : connects application setupConfiguration broker = false)
    (hnext : connect application setupConfiguration broker = some next) : Silent broker next := by
  unfold connect at hnext
  split at hnext
  · rename_i dataCodec hdata hunset
    split at hnext
    · rename_i metadataCodec hmeta hunset'
      -- Either there are no channels, or the routing of the first is not encoded.
      cases hchans : broker.channels.entries with
      | nil =>
        rw [hchans] at hnext
        cases hnext
        exact silent_of_eq rfl rfl rfl rfl
      | cons channel channels =>
        obtain ⟨key, configuration⟩ := channel
        simp only [connects, hdata, hunset, hmeta, hunset', hchans] at h
        rw [hchans, connectChannels] at hnext
        cases hencode : metadataCodec.encode (application.routing key) with
        | ok metadata => simp [hencode] at h
        | error e =>
          rw [hencode] at hnext
          cases hnext
          exact silent_of_eq rfl rfl rfl rfl
    · cases hnext
      exact silent_of_eq rfl rfl rfl rfl
  · cases hnext
    exact .refl broker

/-- The first id of `connect` is vacant, and the others are none of the map. -/
theorem Owned.connect (h : Owned broker) (hstand : Standing application broker)
    (hloses : LosesNone application broker (.connect setupConfiguration))
    (hnext : connect application setupConfiguration broker = some next) : Owned next := by
  cases hconnects : connects application setupConfiguration broker with
  | false => exact h.stays hstand (silent_connect hconnects hnext).toStays
  | true =>
    have hinv : (Standing application next ∧ Owned next) ∧ next.channels = broker.channels ∧
        Vacant next next.currentLocalStreamId := by
      refine connect_invariant
        (fun next => (Standing application next ∧ Owned next) ∧ next.channels = broker.channels ∧
          Vacant next next.currentLocalStreamId)
        (fun _ _ => ⟨⟨⟨hstand.ids, hstand.requesters⟩, h⟩, rfl, hloses hconnects⟩) ?_
        (fun _ _ _ _ ⟨⟨hstand, h⟩, hchans, hvacant⟩ =>
          ⟨⟨⟨hstand.ids, hstand.requesters⟩, h⟩, hchans, hvacant⟩)
        ⟨⟨hstand, h⟩, rfl, hloses hconnects⟩ hnext
      rintro dataCodec key configuration next supplier opened hmem
        ⟨⟨hstand, h⟩, hchans, hvacant⟩ hfree
      have hbegins := begins_openStream application setupConfiguration dataCodec
        (hchans ▸ (DartMap.get?_eq_some _ _).mpr hmem)
      have hopened := hstand.begins hbegins
      have howned := h.begins hstand hbegins hvacant
      refine ⟨⟨⟨hopened.ids, hopened.requesters⟩, howned⟩, hchans, fun index hmap => ?_⟩
      have hnone := DartMap.get?_eq_none _ _ (ReactiveStreamIdSupplier.notMem_of_next hfree)
      exact absurd (hmap.symm.trans hnone) (by simp)
    exact hinv.1.2

theorem Owned.closed {indices : List ℕ} (h : Owned broker)
    (hclosing : broker.closing = some indices) (hclosed : streamsClosed indices broker = true)
    (hloses : LosesNone application broker .closed) : Owned (closed broker) := by
  intro index stream hstream
  change broker.objects[index]? = some stream at hstream
  right
  by_contra hopen
  have hlive : Live broker index := ⟨stream, hstream, by simpa using hopen⟩
  have hwaited := hloses indices hclosing _ index (h.mapped hstream hlive) hlive
  have hcancel := List.all_eq_true.mp hclosed index hwaited
  rw [hstream] at hcancel
  exact hopen hcancel

theorem Owned.step {action : BrokerAction Value} (h : Owned broker)
    (hstand : Standing application broker) (hloses : LosesNone application broker action)
    (hstep : step application broker action = some next) : Owned next := by
  cases step_cases hstep with
  | silent hsilent => exact h.stays hstand hsilent.toStays
  | call hout => exact h.outcome hstand hloses hout
  | connect hnext => exact h.connect hstand hloses hnext
  | consume => exact h
  | closed hclosing hclosed => exact h.closed hclosing hclosed hloses

/-- Whatever happens to a broker: as long as no step loses a stream in one of the three ways, none
is lost. -/
theorem owned_of_losesNone (application : Application Value) (supplier : ReactiveStreamIdSupplier)
    (streamId now : ℤ) {actions : List (BrokerAction Value)}
    (hloses : Transition.Along (step application) (LosesNone application)
      (new supplier streamId now) actions)
    (hrun : Transition.run (step application) (new supplier streamId now) actions = some broker) :
    Owned broker := by
  have h : Standing application broker ∧ Owned broker :=
    Transition.run_induction (fun _ broker => Standing application broker ∧ Owned broker)
      (fun _ _ _ _ ⟨hstanding, h⟩ hloses hstep =>
        ⟨hstanding.step hstep, h.step hstanding hloses hstep⟩)
      ⟨.new supplier streamId now, fun _ _ hstream => by cases hstream⟩ hloses hrun
  exact h.2

theorem owned_of_losesNone_opening :
    ∃ broker, Transition.run (step .idle) (new .server 2 0) opening = some broker ∧
      broker.objects.length = 1 ∧ Owned broker := by
  obtain ⟨broker, hrun, hlength⟩ : ∃ broker,
      Transition.run (step .idle) (new .server 2 0) opening = some broker ∧
        broker.objects.length = 1 := ⟨_, rfl, rfl⟩
  refine ⟨broker, hrun, hlength, owned_of_losesNone .idle .server 2 0 ?_ hrun⟩
  -- No stream is under the id that the REQUEST_CHANNEL frame takes.
  refine ⟨trivial, fun _ hstep => ?_⟩
  cases hstep
  refine ⟨nofun, fun _ hstep => ?_⟩
  cases hstep
  exact ⟨nofun, fun _ _ => trivial⟩

/-- The peer takes the id of a stream that lives for another one: the first is in the list, open,
and no longer in the map. -/
theorem owned_false : ∃ broker,
    Transition.run (step .idle) (new .server 2 0) (opening ++ [.call (.initiate 1 1 .empty)]) =
      some broker ∧ ¬Owned broker := by
  refine ⟨_, rfl, fun h => ?_⟩
  rcases h 0 _ rfl with hmapped | hclosed
  · cases hmapped
  · cases hclosed

end FengShui.Reactive.ReactiveBroker
