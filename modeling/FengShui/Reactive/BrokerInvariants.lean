import FengShui.Reactive.BrokerMoves
import FengShui.Reactive.RequesterInvariants

/-!
# What holds of every broker

Whatever happens, the map has each stream under its own id, and the requester of each stream is one
that steps lead to from a new requester (`Standing`). With the second part what is known of every
run of a requester is known of the requesters of a broker, whatever bytes the peer sends
(`sound_of_feed`).
-/

namespace FengShui.Reactive.ReactiveBroker

variable {Value : Type}

structure Standing (application : Application Value) (broker : ReactiveBroker Value) : Prop where
  /-- The map has each stream under its own id. -/
  ids : ∀ id index, broker.streams.get? id = some index →
    ∃ stream, broker.objects[index]? = some stream ∧ stream.id = id
  requesters : ∀ (index : ℕ) stream, broker.objects[index]? = some stream →
    Transition.Reachable (ReactiveRequester.step stream.id stream.configuration)
      (.new application.staticBuffersCapacity) stream.requester

variable {application : Application Value} {broker next : ReactiveBroker Value} {index : ℕ}

/-- A stream of a longer list is one of the list or the last. -/
theorem of_getElem?_concat {objects : List (ReactiveStream Value)}
    {stream found : ReactiveStream Value} (h : (objects ++ [stream])[index]? = some found) :
    objects[index]? = some found ∨ index = objects.length ∧ found = stream := by
  rcases lt_or_ge index objects.length with hlt | hge
  · rw [List.getElem?_append_left hlt] at h
    exact .inl h
  · rw [List.getElem?_append_right hge, List.getElem?_singleton] at h
    split at h
    · exact .inr ⟨by omega, (Option.some.inj h).symm⟩
    · cases h

namespace Standing

theorem index_lt {id : ℤ} (h : Standing application broker)
    (hmap : broker.streams.get? id = some index) : index < broker.objects.length := by
  obtain ⟨stream, hstream, -⟩ := h.ids id index hmap
  exact (List.getElem?_eq_some_iff.mp hstream).1

/-- Two ids do not have the same stream. -/
theorem injective {id id' : ℤ} (h : Standing application broker)
    (hmap : broker.streams.get? id = some index)
    (hmap' : broker.streams.get? id' = some index) : id = id' := by
  obtain ⟨stream, hstream, hid⟩ := h.ids id index hmap
  obtain ⟨stream', hstream', hid'⟩ := h.ids id' index hmap'
  obtain rfl : stream = stream' := Option.some.inj (hstream.symm.trans hstream')
  exact hid.symm.trans hid'

/-- What keeps the streams, and takes none into the map, keeps the invariant. -/
theorem carries (h : Standing application broker) (hobjs : Carries broker.objects next.objects)
    (hstreams : ∀ id index, next.streams.get? id = some index →
      broker.streams.get? id = some index) : Standing application next := by
  constructor
  · intro id index hmap
    obtain ⟨stream, hstream, hid⟩ := h.ids id index (hstreams id index hmap)
    obtain ⟨later, hlater, hsame⟩ := hobjs.later index stream hstream
    exact ⟨later, hlater, hsame.id.trans hid⟩
  · intro index later hlater
    obtain ⟨stream, hstream, hsame⟩ := hobjs.before hlater
    rw [hsame.id, hsame.configuration]
    exact (h.requesters index stream hstream).trans hsame.requester

theorem stays (h : Standing application broker) (hstays : Stays broker next) :
    Standing application next :=
  h.carries hstays.objects fun id index hmap => by rwa [hstays.streams] at hmap

/-- A new stream comes into the map, in the place of the one under its id. -/
theorem addStream (h : Standing application broker) {stream : ReactiveStream Value}
    (hreq : stream.requester = .new application.staticBuffersCapacity) :
    Standing application (addStream stream broker) := by
  constructor
  · intro id index hmap
    show ∃ found, (broker.objects ++ [stream])[index]? = some found ∧ found.id = id
    rcases DartMap.get?_of_set _ _ hmap with ⟨rfl, rfl⟩ | ⟨-, hmap⟩
    · exact ⟨stream, by simp, rfl⟩
    · rw [List.getElem?_append_left (h.index_lt hmap)]
      exact h.ids id index hmap
  · intro index found hfound
    rcases of_getElem?_concat hfound with hfound | ⟨-, rfl⟩
    · exact h.requesters index found hfound
    · rw [hreq]
      exact .refl _

theorem begins {id : ℤ} (h : Standing application broker)
    (hbegins : Begins application id broker next) : Standing application next := by
  obtain ⟨stream, key, rfl, -, hreq, hobjs⟩ := hbegins.objects
  refine (h.addStream hreq).carries hobjs fun id index hmap => ?_
  rwa [hbegins.streams] at hmap

theorem outcome {brokerCall : BrokerCall} (h : Standing application broker)
    (hout : Outcome application broker brokerCall next) : Standing application next := by
  cases hout with
  | silent hsilent => exact h.stays hsilent.toStays
  | talks _ htalks => exact h.stays htalks.toStays
  | ends _ _ _ hends =>
    refine h.carries hends.objects fun id index hmap => ?_
    rw [hends.streams] at hmap
    exact (DartMap.get?_of_remove _ _ hmap).2
  | fails _ _ _ hfails => exact h.stays hfails.toStays
  | begins _ _ hbegins => exact h.begins hbegins

theorem connect {setupConfiguration : ReactiveSetupConfiguration} (h : Standing application broker)
    (hnext : connect application setupConfiguration broker = some next) :
    Standing application next := by
  have hinv : Standing application next ∧ next.channels = broker.channels := by
    refine connect_invariant
      (fun next => Standing application next ∧ next.channels = broker.channels)
      (fun _ _ => ⟨⟨h.ids, h.requesters⟩, rfl⟩) ?_
      (fun _ _ _ _ ⟨h, hchans⟩ => ⟨⟨h.ids, h.requesters⟩, hchans⟩) ⟨h, rfl⟩ hnext
    -- The channels stay what they are, so every round opens the stream of a channel.
    rintro dataCodec key configuration next supplier opened hmem ⟨hopened, hchans⟩ -
    have hbegins := hopened.begins (begins_openStream application setupConfiguration dataCodec
      (hchans ▸ (DartMap.get?_eq_some _ _).mpr hmem))
    exact ⟨⟨hbegins.ids, hbegins.requesters⟩, hchans⟩
  exact hinv.1

theorem step {action : BrokerAction Value} (h : Standing application broker)
    (hstep : step application broker action = some next) : Standing application next := by
  cases step_cases hstep with
  | silent hsilent => exact h.stays hsilent.toStays
  | call hout => exact h.outcome hout
  | connect hnext => exact h.connect hnext
  | consume => exact ⟨h.ids, h.requesters⟩
  | closed => exact ⟨nofun, h.requesters⟩

theorem new (supplier : ReactiveStreamIdSupplier) (streamId now : ℤ) :
    Standing application (new supplier streamId now) :=
  ⟨fun _ _ hmap => (by cases hmap), fun _ _ hstream => (by cases hstream)⟩

end Standing

/-- The invariant holds in every reachable state. -/
theorem standing_of_reachable {supplier : ReactiveStreamIdSupplier} {streamId now : ℤ}
    (h : Transition.Reachable (step application) (new supplier streamId now) broker) :
    Standing application broker :=
  h.invariant (Standing application) (.new supplier streamId now) fun _ _ _ => Standing.step

/-- What comes to a broker: what happens on its own side, and bytes behind those in the buffer. -/
inductive BrokerInput (Value : Type) where
  | action (action : BrokerAction Value)
  | bytes (payload : Uint8List) (buffer : ReactiveReadBuffer)

def feed (application : Application Value) (broker : ReactiveBroker Value) :
    BrokerInput Value → Option (ReactiveBroker Value)
  | .action action => step application broker action
  | .bytes payload buffer =>
    some (ReactiveResponder.handle (toBroker application) payload buffer broker).state

/-- Whatever the peer sends, and whatever happens in between, each id has a stream of its own, and
the requester of each stream is sound. -/
theorem sound_of_feed (application : Application Value) (supplier : ReactiveStreamIdSupplier)
    (streamId now : ℤ) (inputs : List (BrokerInput Value)) (broker : ReactiveBroker Value)
    (hrun : Transition.run (feed application) (new supplier streamId now) inputs = some broker) :
    (∀ id index, broker.streams.get? id = some index →
      (∃ stream, broker.objects[index]? = some stream ∧ stream.id = id) ∧
        ∀ id', broker.streams.get? id' = some index → id' = id) ∧
    ∀ (index : ℕ) stream, broker.objects[index]? = some stream →
      ReactiveRequester.Sound stream.id stream.requester := by
  have hreachable : Transition.Reachable (step application) (new supplier streamId now) broker := by
    refine Transition.run_invariant
      (Transition.Reachable (step application) (new supplier streamId now))
      (fun before input next h hfeed => ?_) (.refl _) hrun
    cases input with
    | action action => exact h.tail hfeed
    | bytes payload buffer =>
      obtain ⟨calls, hcalls⟩ := @exists_calls_of_handle Value application payload buffer before
      cases hfeed
      exact h.trans ⟨_, hcalls⟩
  have hstanding := standing_of_reachable hreachable
  refine ⟨fun id index hid => ⟨hstanding.ids id index hid, fun id' hid' =>
    hstanding.injective hid' hid⟩, fun index stream hstream => ?_⟩
  exact ReactiveRequester.sound_of_reachable (hstanding.requesters index stream hstream)

/-- A stream is opened, and its CANCEL frame comes. -/
theorem sound_of_feed_cancel : ∃ broker, Transition.run (feed .idle) (new .server 2 0)
    (opening.map .action ++ [.bytes (ReactiveWriter.writeCancelFrame 1) .new]) = some broker ∧
      broker.objects.length = 1 ∧ ∀ (index : ℕ) stream, broker.objects[index]? = some stream →
        ReactiveRequester.Sound stream.id stream.requester := by
  refine ⟨?broker, ?run, ?length, (sound_of_feed .idle .server 2 0 _ ?broker ?run).2⟩
  case run => rfl
  rfl

end FengShui.Reactive.ReactiveBroker
