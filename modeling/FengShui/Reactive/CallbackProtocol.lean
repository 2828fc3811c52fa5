import FengShui.Reactive.BrokerInvariants

/-!
# The callbacks of a stream

A stream ends with `onComplete` or `onCancel`, and leaves the map of streams with it. The exception
is an ERROR frame: its stream is told of the error and of its end, and stays in the map, so that a
later frame reaches a channel that has ended (`protocol_false`). Without such a frame the callbacks
obey the protocol (`protocol_of_spares`).
-/

namespace FengShui.Reactive.ReactiveBroker

open Effect List

variable {Value : Type}

/-- A stream has had a callback that ends it. -/
def Ended (calls : List (ℕ × Callback Value)) (index : ℕ) : Prop :=
  ∃ callback, (index, callback) ∈ calls ∧ callback.isTerminal = true

/-- Behind the callback that ends a stream there is none but the one of its subscription. -/
def Protocol (calls : List (ℕ × Callback Value)) : Prop :=
  ∀ front index callback back, calls = front ++ (index, callback) :: back → Ended front index →
    callback = .onSubscribe

variable {application : Application Value} {broker next : ReactiveBroker Value} {index : ℕ}

/-! ## The list of callbacks -/

section Callbacks

variable {calls more : List (ℕ × Callback Value)} {callbacks : List (Callback Value)}

theorem ended_append {i : ℕ} : Ended (calls ++ more) i ↔ Ended calls i ∨ Ended more i := by
  constructor
  · rintro ⟨callback, hmem, hterminal⟩
    rcases mem_append.mp hmem with hmem | hmem
    · exact .inl ⟨callback, hmem, hterminal⟩
    · exact .inr ⟨callback, hmem, hterminal⟩
  · rintro (⟨callback, hmem, hterminal⟩ | ⟨callback, hmem, hterminal⟩)
    · exact ⟨callback, mem_append_left _ hmem, hterminal⟩
    · exact ⟨callback, mem_append_right _ hmem, hterminal⟩

/-- Only callbacks of a stream end it, and only those that are terminal. -/
theorem ended_map {i : ℕ} (h : Ended (callbacks.map (Prod.mk index)) i) :
    i = index ∧ ¬Quiet callbacks := by
  obtain ⟨callback, hmem, hterminal⟩ := h
  obtain ⟨_, hmem, heq⟩ := mem_map.mp hmem
  cases heq
  refine ⟨rfl, fun hquiet => ?_⟩
  rw [hquiet callback hmem] at hterminal
  cases hterminal

/-- A callback that is not terminal ends nothing. -/
theorem not_ended_append {callback : Callback Value} {i : ℕ} (h : ¬Ended calls i)
    (hcb : callback.isTerminal = false) : ¬Ended (calls ++ [(index, callback)]) i := by
  rw [ended_append]
  rintro (h' | ⟨_, hmem, hterminal⟩)
  · exact h h'
  · cases mem_singleton.mp hmem
    rw [hcb] at hterminal
    cases hterminal

theorem protocol_snoc (h : Protocol calls) (callback : Callback Value)
    (hcb : Ended calls index → callback = .onSubscribe) :
    Protocol (calls ++ [(index, callback)]) := by
  intro front i last back heq hended
  rcases eq_nil_or_concat back with rfl | ⟨back, entry, rfl⟩
  · -- The last callback of the list is the new one.
    obtain ⟨rfl, hent⟩ := append_inj' heq rfl
    cases hent
    exact hcb hended
  · rw [concat_eq_append, ← cons_append, ← append_assoc] at heq
    exact h front i last back (append_inj' heq rfl).1 hended

theorem protocol_quiet (h : Protocol calls) (hended : ¬Ended calls index)
    (hquiet : Quiet callbacks) : Protocol (calls ++ callbacks.map (Prod.mk index)) := by
  induction callbacks generalizing calls with
  | nil => rwa [map_nil, append_nil]
  | cons callback callbacks ih =>
    have hnext : ¬Ended (calls ++ [(index, callback)]) index :=
      not_ended_append hended (hquiet callback mem_cons_self)
    rw [map_cons, append_cons]
    exact ih (protocol_snoc h callback fun h => absurd h hended) hnext fun callback hmem =>
      hquiet callback (mem_cons_of_mem _ hmem)

end Callbacks

/-- The channel of a stream has been told of an ERROR frame, and that the stream is complete. -/
def Failed (calls : List (ℕ × Callback Value)) (index : ℕ) : Prop :=
  (∃ code error, (index, .onError code error) ∈ calls) ∧ (index, .onComplete) ∈ calls

theorem Failed.append {calls : List (ℕ × Callback Value)} (h : Failed calls index)
    (more : List (ℕ × Callback Value)) : Failed (calls ++ more) index := by
  obtain ⟨⟨code, error, herror⟩, hcomplete⟩ := h
  exact ⟨⟨code, error, mem_append_left _ herror⟩, mem_append_left _ hcomplete⟩

/-- What holds between the steps. -/
structure Listed (broker : ReactiveBroker Value) : Prop where
  known : ∀ index callback, (index, callback) ∈ broker.calls → index < broker.objects.length
  /-- A stream in the map that has ended has ended with an ERROR frame. -/
  failed : ∀ id index, broker.streams.get? id = some index → Ended broker.calls index →
    Failed broker.calls index
  protocol : Protocol broker.calls

/-- New callbacks of a stream that is listed. -/
theorem Listed.known_append (h : Listed broker) (hobjs : Carries broker.objects next.objects)
    (hidx : index < broker.objects.length) {callbacks : List (Callback Value)}
    (hcalls : next.calls = broker.calls ++ callbacks.map (Prod.mk index)) (i : ℕ)
    (callback : Callback Value) (hmem : (i, callback) ∈ next.calls) : i < next.objects.length := by
  rw [hobjs.length]
  rw [hcalls] at hmem
  rcases mem_append.mp hmem with hmem | hmem
  · exact h.known i callback hmem
  · obtain ⟨_, _, heq⟩ := mem_map.mp hmem
    cases heq
    exact hidx

theorem Listed.silent (h : Listed broker) (hsilent : Silent broker next) : Listed next := by
  obtain ⟨⟨-, hstreams, hobjs⟩, hcalls⟩ := hsilent
  constructor
  · rw [hcalls, hobjs.length]
    exact h.known
  · rw [hstreams, hcalls]
    exact h.failed
  · rw [hcalls]
    exact h.protocol

/-- The stream that a call reaches is in the map. -/
theorem mapped_of_reached {call : BrokerCall} (h : reached broker call = some index) :
    ∃ id, broker.streams.get? id = some index := by
  unfold reached at h
  split at h
  case h_3 => exact ⟨_, h⟩
  case h_5 => cases h
  all_goals
    split at h
    · exact ⟨_, h⟩
    · cases h

theorem Listed.talks (h : Listed broker) (hidx : index < broker.objects.length)
    (hended : ¬Ended broker.calls index) (htalks : Talks index Quiet broker next) :
    Listed next := by
  obtain ⟨⟨-, hstreams, hobjs⟩, callbacks, hquiet, hcalls⟩ := htalks
  constructor
  · exact h.known_append hobjs hidx hcalls
  · rw [hstreams, hcalls]
    intro id i hmap hi
    rcases ended_append.mp hi with hi | hi
    · exact (h.failed id i hmap hi).append _
    · exact absurd hquiet (ended_map hi).2
  · rw [hcalls]
    exact protocol_quiet h.protocol hended hquiet

theorem Listed.ends {id : ℤ} (h : Listed broker) (hstand : Standing application broker)
    (hmap : broker.streams.get? id = some index) (hended : ¬Ended broker.calls index)
    (hends : Ends application id index broker next) : Listed next := by
  obtain ⟨-, hstreams, hobjs, ⟨callbacks, callback, hquiet, hcalls⟩, -⟩ := hends
  constructor
  · exact h.known_append hobjs (hstand.index_lt hmap) hcalls
  · rw [hstreams, hcalls]
    intro id' i hmap' hi
    obtain ⟨hne, hmap'⟩ := DartMap.get?_of_remove _ _ hmap'
    rcases ended_append.mp hi with hi | hi
    · exact (h.failed id' i hmap' hi).append _
    · -- No other id has the stream that ends.
      rw [(ended_map hi).1] at hmap'
      exact absurd (hstand.injective hmap' hmap) hne
  · rw [hcalls, map_append, ← append_assoc]
    have hfront : ¬Ended (broker.calls ++ callbacks.map (Prod.mk index)) index := by
      rw [ended_append]
      rintro (h | h)
      · exact hended h
      · exact (ended_map h).2 hquiet
    exact protocol_snoc (protocol_quiet h.protocol hended hquiet) callback fun h => absurd h hfront

theorem Listed.fails {code : ℕ} {message : DartString} (h : Listed broker)
    (hidx : index < broker.objects.length) (hended : ¬Ended broker.calls index)
    (hfails : Talks index (fun callbacks => callbacks = [.onError code message] ∨
      callbacks = [.onError code message, .onComplete]) broker next) : Listed next := by
  obtain ⟨⟨hchans, hstreams, hobjs⟩, callbacks, hcbs, hcalls⟩ := hfails
  have hquiet : Quiet [(.onError code message : Callback Value)] := by
    simp [Quiet, Callback.isTerminal]
  rcases hcbs with rfl | rfl
  · exact h.talks hidx hended ⟨⟨hchans, hstreams, hobjs⟩, _, hquiet, hcalls⟩
  · constructor
    · exact h.known_append hobjs hidx hcalls
    · rw [hstreams, hcalls]
      intro id i hmap hi
      rcases ended_append.mp hi with hi | hi
      · exact (h.failed id i hmap hi).append _
      · rw [(ended_map hi).1]
        exact ⟨⟨code, message, by simp⟩, by simp⟩
    · rw [hcalls]
      have hfront : ¬Ended (broker.calls ++ [(index, .onError code message)]) index :=
        not_ended_append hended rfl
      have hprotocol := protocol_snoc (protocol_quiet h.protocol hended hquiet)
        .onComplete fun h => absurd h hfront
      rwa [append_assoc] at hprotocol

theorem Listed.begins (h : Listed broker) {id : ℤ} (hbegins : Begins application id broker next) :
    Listed next := by
  obtain ⟨-, hstreams, ⟨stream, -, -, -, -, hobjs⟩, callbacks, hquiet, hcalls⟩ := hbegins
  have hlen : next.objects.length = broker.objects.length + 1 := by
    rw [hobjs.length, length_append, length_singleton]
  have hended : ¬Ended broker.calls broker.objects.length := by
    rintro ⟨callback, hmem, -⟩
    have := h.known _ callback hmem
    omega
  constructor
  · intro i callback hmem
    rw [hlen]
    rw [hcalls] at hmem
    rcases mem_append.mp hmem with hmem | hmem
    · have := h.known i callback hmem
      omega
    · obtain ⟨_, _, heq⟩ := mem_map.mp hmem
      cases heq
      omega
  · intro id' i hmap hi
    rw [hcalls] at hi ⊢
    rcases ended_append.mp hi with hi | hi
    · rw [hstreams] at hmap
      rcases DartMap.get?_of_set _ _ hmap with ⟨rfl, rfl⟩ | ⟨-, hmap⟩
      · exact absurd hi hended
      · exact (h.failed id' i hmap hi).append _
    · exact absurd hquiet (ended_map hi).2
  · rw [hcalls]
    exact protocol_quiet h.protocol hended hquiet

/-! ## Runs -/

/-- A frame does not come in for a stream whose channel was told of an ERROR frame before. -/
def SparesFailed (broker : ReactiveBroker Value) : BrokerAction Value → Prop
  | .call brokerCall => ∀ index, reached broker brokerCall = some index → ¬Failed broker.calls index
  | _ => True

theorem listed_outcome {brokerCall : BrokerCall} (h : Listed broker)
    (hstand : Standing application broker) (hspares : SparesFailed broker (.call brokerCall))
    (hout : Outcome application broker brokerCall next) : Listed next := by
  -- A stream that is reached is in the map, so it has ended only when it has failed.
  have hended {index : ℕ} (hreached : reached broker brokerCall = some index) :
      index < broker.objects.length ∧ ¬Ended broker.calls index := by
    obtain ⟨id, hmap⟩ := mapped_of_reached hreached
    exact ⟨hstand.index_lt hmap, fun hended =>
      hspares index hreached (h.failed id index hmap hended)⟩
  cases hout with
  | silent hsilent => exact h.silent hsilent
  | talks hreached htalks =>
    obtain ⟨hidx, hended⟩ := hended hreached
    exact h.talks hidx hended htalks
  | ends hreached hmap _ hends => exact h.ends hstand hmap (hended hreached).2 hends
  | fails hreached code message hfails =>
    obtain ⟨hidx, hended⟩ := hended hreached
    exact h.fails hidx hended hfails
  | begins _ _ hbegins => exact h.begins hbegins

theorem listed_connect {setupConfiguration : ReactiveSetupConfiguration} (h : Listed broker)
    (hnext : connect application setupConfiguration broker = some next) : Listed next := by
  -- The channels stay what they are, so every round opens the stream of a channel.
  have hinv : Listed next ∧ next.channels = broker.channels := by
    refine connect_invariant (fun next => Listed next ∧ next.channels = broker.channels)
      (fun _ _ => ⟨h.silent (silent_of_eq rfl rfl rfl rfl), rfl⟩) ?_
      (fun _ _ _ _ ⟨h, hchans⟩ => ⟨h.silent (silent_of_eq rfl rfl rfl rfl), hchans⟩)
      ⟨h, rfl⟩ hnext
    rintro dataCodec key configuration next supplier opened hmem ⟨hopened, hchans⟩ -
    have hbegins := begins_openStream application setupConfiguration dataCodec
      (hchans ▸ (DartMap.get?_eq_some _ _).mpr hmem)
    exact ⟨(hopened.begins hbegins).silent (silent_of_eq rfl rfl rfl rfl), hchans⟩
  exact hinv.1

theorem listed_step {action : BrokerAction Value} (h : Listed broker)
    (hstand : Standing application broker) (hspares : SparesFailed broker action)
    (hstep : step application broker action = some next) : Listed next := by
  cases step_cases hstep with
  | silent hsilent => exact h.silent hsilent
  | call hout => exact listed_outcome h hstand hspares hout
  | connect hnext => exact listed_connect h hnext
  | consume key configuration => exact ⟨h.known, h.failed, h.protocol⟩
  | closed =>
    exact ⟨h.known, nofun, h.protocol⟩

theorem listed_new (supplier : ReactiveStreamIdSupplier) (streamId now : ℤ) :
    Listed (new supplier streamId now : ReactiveBroker Value) := by
  refine ⟨nofun, nofun, ?_⟩
  intro front index callback back heq
  cases front <;> cases heq

/-- Whatever happens to a broker: as long as no frame comes in for a stream after an ERROR frame for
it, the channel of a stream is told once that it is complete or cancelled, and of nothing after. -/
theorem protocol_of_spares (application : Application Value) (supplier : ReactiveStreamIdSupplier)
    (streamId now : ℤ) {actions : List (BrokerAction Value)}
    (hspares : Transition.Along (step application) SparesFailed (new supplier streamId now) actions)
    (hrun : Transition.run (step application) (new supplier streamId now) actions = some broker) :
    Protocol broker.calls := by
  have h : Standing application broker ∧ Listed broker :=
    Transition.run_induction (fun _ broker => Standing application broker ∧ Listed broker)
      (fun _ _ _ _ ⟨hstanding, h⟩ hspares hstep =>
        ⟨hstanding.step hstep, listed_step h hstanding hspares hstep⟩)
      ⟨.new supplier streamId now, listed_new supplier streamId now⟩ hspares hrun
  exact h.2.protocol

theorem protocol_of_spares_complete :
    ∃ broker, Transition.run (step .idle) (new .server 2 0)
        (opening ++ [.call (.receive 1 .empty true false)]) = some broker ∧
      broker.calls = [(0, .onSubscribe), (0, .onComplete)] ∧ Protocol broker.calls := by
  obtain ⟨broker, hrun, hcalls⟩ : ∃ broker, Transition.run (step .idle) (new .server 2 0)
      (opening ++ [.call (.receive 1 .empty true false)]) = some broker ∧
        broker.calls = [(0, .onSubscribe), (0, .onComplete)] := ⟨_, rfl, rfl⟩
  refine ⟨broker, hrun, hcalls, protocol_of_spares .idle .server 2 0 ?_ hrun⟩
  -- No ERROR frame comes in before the last frame.
  refine ⟨trivial, fun _ hstep => ?_⟩
  cases hstep
  refine ⟨nofun, fun _ hstep => ?_⟩
  cases hstep
  refine ⟨nofun, fun _ hstep => ?_⟩
  cases hstep
  refine ⟨fun index _ hfailed => ?_, fun _ _ => trivial⟩
  cases List.mem_singleton.mp hfailed.2

/-- An ERROR frame ends the stream, but leaves it in the map: the CANCEL frame behind it tells the
channel of a second end. -/
theorem protocol_false : ∃ broker,
    Transition.run (step .idle) (new .server 2 0)
        (opening ++ [.call (.handle 1 0 []), .call (.cancel 1)]) = some broker ∧
      ¬Protocol broker.calls := by
  refine ⟨_, rfl, fun h => ?_⟩
  have hended :
    Ended [(0, (.onSubscribe : Callback Unit)), (0, .onError 0 []), (0, .onComplete)] 0 :=
    ⟨.onComplete, by simp, rfl⟩
  cases h [(0, .onSubscribe), (0, .onError 0 []), (0, .onComplete)] 0 .onCancel [] rfl hended

end FengShui.Reactive.ReactiveBroker
