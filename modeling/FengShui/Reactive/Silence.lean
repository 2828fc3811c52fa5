import FengShui.Reactive.RequesterInvariants

/-!
# Silence of a closed requester

A requester is closed when `close` has run to its end. What `close` does not reset is the write that
is not done: when it is the one before a round of fragments, its callback hands that round to the
connection, and so on to the last fragment. `silent_step` says that this is the only way in which a
closed requester can send a payload, and `handed_of_outstanding` that it does.
-/

namespace FengShui.Reactive.ReactiveRequester

/-- `close` has run to its end: that cancels the subscription, and nothing else does. -/
def isClosed (requester : ReactiveRequester) : Bool := requester.subscription.canceled

/-- The number of PAYLOAD frames handed to the connection. -/
def payloadFrames (requester : ReactiveRequester) : ℕ := requester.handed.countP OutFrame.isPayload

/-- A write is not done behind which a round of fragments follows. -/
def RoundOutstanding (configuration : ReactiveChannelConfiguration)
    (requester : ReactiveRequester) : Prop :=
  0 < configuration.chunksLimit ∧
    (.fragmentate ∈ requester.callbacks ∨
      .fragmentateNext ∈ requester.callbacks ∧
        requester.currentFragmentNumber < requester.currentFragmentsCount)

/-- `close` runs to its end with this action, whatever is being sent. -/
def EndsAtOnce (requester : ReactiveRequester) : RequesterAction → Prop
  | .close graceful => ¬(graceful = true ∧ requester.pending > 0)
  | .closed => True
  | _ => False

/-- An open requester is closed only when no round of fragments is outstanding. -/
def ClosesBetweenRounds (configuration : ReactiveChannelConfiguration)
    (requester : ReactiveRequester) (action : RequesterAction) : Prop :=
  requester.isClosed = false → EndsAtOnce requester action →
    ¬RoundOutstanding configuration requester

instance (configuration : ReactiveChannelConfiguration) (requester : ReactiveRequester) :
    Decidable (RoundOutstanding configuration requester) :=
  inferInstanceAs (Decidable (_ ∧ (_ ∨ _ ∧ _)))

instance (requester : ReactiveRequester) (action : RequesterAction) :
    Decidable (EndsAtOnce requester action) :=
  match action with
  | .close graceful => inferInstanceAs (Decidable ¬(graceful = true ∧ requester.pending > 0))
  | .closed => inferInstanceAs (Decidable True)
  | .request .. | .schedulePayload .. | .scheduleError .. | .scheduleCancel | .resume .. | .timeout
  | .deliver | .done .. => inferInstanceAs (Decidable False)

instance (configuration : ReactiveChannelConfiguration) (requester : ReactiveRequester)
    (action : RequesterAction) : Decidable (ClosesBetweenRounds configuration requester action) :=
  inferInstanceAs (Decidable (_ → _ → ¬_))

/-- Whatever still happens, no further PAYLOAD frame is handed to the connection. -/
def SilentAfter (streamId : ℤ) (configuration : ReactiveChannelConfiguration)
    (requester : ReactiveRequester) : Prop :=
  ∀ actions later, Transition.run (step streamId configuration) requester actions = some later →
    later.payloadFrames = requester.payloadFrames

/-- From the state on in which the requester is closed, the run is silent. -/
def Silence (streamId : ℤ) (configuration : ReactiveChannelConfiguration) (chunkSize : ℕ)
    (actions : List RequesterAction) : Prop :=
  ∀ front back closed later, actions = front ++ back →
    Transition.run (step streamId configuration) (new chunkSize) front = some closed →
    closed.isClosed = true →
    Transition.run (step streamId configuration) closed back = some later →
    later.payloadFrames = closed.payloadFrames

variable {streamId : ℤ} {configuration : ReactiveChannelConfiguration}
  {requester next : ReactiveRequester} {action : RequesterAction}

theorem countP_fragmentFrames (more lastFragments : Bool) (chunks : ℕ) (first : Bool) (index : ℕ)
    (fragments : List Uint8List) :
    (fragmentFrames more lastFragments chunks first index fragments).countP OutFrame.isPayload =
      fragments.length := by
  induction fragments generalizing first index with
  | nil => rfl
  | cons fragment fragments ih =>
    rw [fragmentFrames, List.countP_cons_of_pos rfl, ih, List.length_cons]

/-- A round hands over as many PAYLOAD frames as the limit and the fragments that are left allow. -/
theorem payloadFrames_fragmentate (hheld : requester.held = []) :
    (fragmentate streamId configuration requester).payloadFrames = requester.payloadFrames +
      min configuration.chunksLimit requester.currentFragments.length := by
  simp [payloadFrames, fragmentate_eq, roundFrames, hheld, countP_fragmentFrames]

theorem not_roundOutstanding_of_nil (hnone : requester.callbacks = []) :
    ¬RoundOutstanding configuration requester := by
  rintro ⟨-, hmem | ⟨hmem, -⟩⟩
  · rw [hnone] at hmem
    cases hmem
  · rw [hnone] at hmem
    cases hmem

/-- A write whose callback starts another round is one that is outstanding. -/
theorem roundOutstanding_of_callback (hlimit : 0 < configuration.chunksLimit) {index : ℕ}
    {callback : OnDone} (hcb : requester.callbacks[index]? = some callback)
    (hmore : callback = .fragmentate ∨
      requester.currentFragmentNumber < requester.currentFragmentsCount) :
    RoundOutstanding configuration requester := by
  have hmem := List.mem_of_getElem? hcb
  refine ⟨hlimit, ?_⟩
  cases callback with
  | fragmentate => exact .inl hmem
  | fragmentateNext =>
    rcases hmore with hmore | hmore
    · cases hmore
    · exact .inr ⟨hmem, hmore⟩

/-- A closed requester stays closed. -/
theorem closed_step (hsound : Sound streamId requester) (hclosed : requester.isClosed = true)
    (hstep : step streamId configuration requester action = some next) : next.isClosed = true := by
  have hmove := step_move hsound.lifecycle.closing hstep
  have hnone {payload : ReactivePendingPayload} {rest : Subscription ReactivePendingPayload} :
      requester.subscription.next? ≠ some (payload, rest) := by
    intro hnext
    obtain ⟨hsub, -⟩ := Subscription.next?_eq_some.mp hnext
    rw [isClosed, hsub] at hclosed
    cases hclosed
  cases hmove with
  | refused | ignored | request | wait | timeout => exact hclosed
  | close | closed | finish => rfl
  | schedule => simpa [isClosed, apply_ite Subscription.canceled] using hclosed
  | resume => simpa [isClosed] using hclosed
  | round =>
    rw [fragmentate_eq]
    exact hclosed
  | proceed => simpa [isClosed, apply_ite Subscription.canceled] using hclosed
  | drop hnext | stuck hnext | cut hnext | cutBehind hnext | last hnext | hold hnext
  | flush hnext =>
    exact absurd hnext hnone

/-- A requester that was closed on the way is closed. -/
theorem closed_of_reachable {chunkSize : ℕ}
    (h : Transition.Reachable (step streamId configuration) (new chunkSize) requester)
    (hclosed : requester.isClosed = true)
    (hlater : Transition.Reachable (step streamId configuration) requester next) :
    next.isClosed = true := by
  have hinv := hlater.invariant (fun next => Sound streamId next ∧ next.isClosed = true)
    ⟨sound_of_reachable h, hclosed⟩ fun _ _ _ ⟨hsound, hclosed⟩ hstep =>
      ⟨sound_step hsound hstep, closed_step hsound hclosed hstep⟩
  exact hinv.2

/-- `close` without a timeout ends at once. -/
theorem isClosed_close (hsound : Sound streamId requester) :
    (requester.close false).isClosed = true := by
  rw [close_eq hsound.lifecycle.closing]
  rfl

/-- A closed requester without an outstanding round stays closed, without one and silent. -/
theorem silent_step (hsound : Sound streamId requester) (hclosed : requester.isClosed = true)
    (hquiet : ¬RoundOutstanding configuration requester)
    (hstep : step streamId configuration requester action = some next) :
    next.isClosed = true ∧ ¬RoundOutstanding configuration next ∧
      next.payloadFrames = requester.payloadFrames := by
  have hmove := step_move hsound.lifecycle.closing hstep
  obtain ⟨hsend, -, hheld⟩ := hsound.lifecycle.canceled hclosed
  have hnotSend : ¬requester.sending = true := by simp [hsend]
  have hnotAcc : ¬requester.accepting = true :=
    fun hacc => hnotSend (hsound.lifecycle.accepting hacc).1
  have hnone {payload : ReactivePendingPayload} {rest : Subscription ReactivePendingPayload} :
      requester.subscription.next? ≠ some (payload, rest) := by
    intro hnext
    obtain ⟨hsub, -⟩ := Subscription.next?_eq_some.mp hnext
    rw [isClosed, hsub] at hclosed
    cases hclosed
  cases hmove with
  | refused => exact ⟨hclosed, hquiet, rfl⟩
  | ignored => exact ⟨hclosed, hquiet, rfl⟩
  | request hacc => exact absurd hacc hnotAcc
  | schedule hacc => exact absurd hacc hnotAcc
  | resume hsend' => exact absurd hsend' hnotSend
  | wait => exact ⟨hclosed, hquiet, rfl⟩
  | close => exact ⟨rfl, hquiet, rfl⟩
  | timeout => exact ⟨hclosed, hquiet, rfl⟩
  | closed => exact ⟨rfl, hquiet, rfl⟩
  | round hcb hmore =>
    -- Only rounds of no fragments are not outstanding.
    have hlimit : configuration.chunksLimit = 0 := by
      by_contra hlimit
      exact hquiet (roundOutstanding_of_callback (by omega) hcb hmore)
    refine ⟨?_, fun hout => ?_, ?_⟩
    · rw [fragmentate_eq]
      exact hclosed
    · have hpos := hout.1
      omega
    · rw [payloadFrames_fragmentate (by exact hheld), hlimit, Nat.zero_min]
      rfl
  | finish hcb =>
    obtain ⟨-, hnil⟩ := callbacks_eq_singleton hsound.rounds.callbacks hcb
    exact ⟨rfl, not_roundOutstanding_of_nil hnil, rfl⟩
  | proceed hcb =>
    obtain ⟨-, hnil⟩ := callbacks_eq_singleton hsound.rounds.callbacks hcb
    refine ⟨?_, not_roundOutstanding_of_nil hnil, rfl⟩
    simpa [isClosed, apply_ite Subscription.canceled] using hclosed
  | drop hnext => exact absurd hnext hnone
  | stuck hnext => exact absurd hnext hnone
  | cut hnext => exact absurd hnext hnone
  | cutBehind hnext => exact absurd hnext hnone
  | last hnext => exact absurd hnext hnone
  | hold hnext => exact absurd hnext hnone
  | flush hnext => exact absurd hnext hnone

/-- A step that closes the requester and is allowed leaves no outstanding round. -/
theorem quiet_of_closing (hsound : Sound streamId requester) (hopen : requester.isClosed = false)
    (hcloses : ClosesBetweenRounds configuration requester action)
    (hstep : step streamId configuration requester action = some next)
    (hclosed : next.isClosed = true) : ¬RoundOutstanding configuration next := by
  have hmove := step_move hsound.lifecycle.closing hstep
  have hstays : ¬requester.subscription.canceled = true := by simpa [isClosed] using hopen
  -- An event is taken between payloads only, and the subscription is not cancelled by it.
  have hidle {payload : ReactivePendingPayload} {rest : Subscription ReactivePendingPayload}
      (hnext : requester.subscription.next? = some (payload, rest)) :
      ¬rest.canceled = true ∧ requester.callbacks = [] := by
    obtain ⟨hsub, -, -, hnone⟩ := hsound.rounds.idle hnext
    exact ⟨by simp [hsub], hnone⟩
  unfold isClosed at hclosed
  cases hmove with
  | close hnow => exact hcloses hopen hnow
  | closed => exact hcloses hopen trivial
  | last hnext => exact not_roundOutstanding_of_nil (hidle hnext).2
  | finish hcb =>
    exact not_roundOutstanding_of_nil (callbacks_eq_singleton hsound.rounds.callbacks hcb).2
  | proceed hcb =>
    exact not_roundOutstanding_of_nil (callbacks_eq_singleton hsound.rounds.callbacks hcb).2
  | round =>
    rw [fragmentate_eq] at hclosed
    exact absurd hclosed hstays
  | cut hnext =>
    rw [fragmentate_eq, Subscription.canceled_pause] at hclosed
    exact absurd hclosed (hidle hnext).1
  | cutBehind hnext =>
    rw [Subscription.canceled_pause] at hclosed
    exact absurd hclosed (hidle hnext).1
  | stuck hnext =>
    rw [Subscription.canceled_pause] at hclosed
    exact absurd hclosed (hidle hnext).1
  | drop hnext => exact absurd hclosed (hidle hnext).1
  | hold hnext => exact absurd hclosed (hidle hnext).1
  | flush hnext => exact not_roundOutstanding_of_nil (hidle hnext).2
  | resume =>
    rw [Subscription.canceled_resume] at hclosed
    exact absurd hclosed hstays
  | schedule =>
    simp only [apply_ite Subscription.canceled, Subscription.canceled_resume,
      Subscription.canceled_add, ite_self] at hclosed
    exact absurd hclosed hstays
  | _ => exact absurd hclosed hstays

/-- The callback of the write that is outstanding hands over fragments. -/
theorem handed_of_outstanding (streamId : ℤ) (hrounds : Rounds requester)
    (hheld : requester.held = []) (hout : RoundOutstanding configuration requester) :
    ∃ later, Transition.run (step streamId configuration) requester [.done 0] = some later ∧
      requester.payloadFrames < later.payloadFrames := by
  obtain ⟨hlimit, hcbs⟩ := hout
  obtain ⟨callback, honly⟩ : ∃ callback, requester.callbacks = [callback] := by
    have hlen := hrounds.callbacks
    match hreq : requester.callbacks with
    | [] => simp [hreq] at hcbs
    | [callback] => exact ⟨callback, rfl⟩
    | _ :: _ :: _ => simp [hreq] at hlen
  -- Whichever callback it is, it calls `fragmentate` and a fragment is left.
  obtain ⟨hfrags, hdone⟩ : requester.currentFragments ≠ [] ∧
      onDone streamId configuration callback { requester with callbacks := [] } =
        fragmentate streamId configuration { requester with callbacks := [] } := by
    rw [honly] at hcbs
    cases callback with
    | fragmentate => exact ⟨(hrounds.first honly).2.2.1, rfl⟩
    | fragmentateNext =>
      obtain ⟨hrest, -⟩ := hrounds.rest honly
      have hmore : requester.currentFragmentNumber < requester.currentFragmentsCount := by
        simpa using hcbs
      refine ⟨fun hnil => ?_, if_pos hmore⟩
      rw [hnil, List.length_nil] at hrest
      omega
  have hlen := List.length_pos_iff.mpr hfrags
  refine ⟨fragmentate streamId configuration { requester with callbacks := [] }, ?_, ?_⟩
  · rw [Transition.run_cons, step, honly, ← hdone]
    rfl
  · rw [payloadFrames_fragmentate (by exact hheld)]
    show requester.payloadFrames < requester.payloadFrames + _
    dsimp only
    omega

/-- What closes the requester at once leaves the outstanding write, and nothing in the buffer. -/
theorem closed_of_endsAtOnce (hclosing : requester.closing = false)
    (hends : EndsAtOnce requester action)
    (hstep : step streamId configuration requester action = some next) :
    next.held = [] ∧
      (RoundOutstanding configuration requester → RoundOutstanding configuration next) := by
  cases action with
  | close graceful =>
    cases hstep
    unfold close
    rw [if_neg (by simp [hclosing])]
    dsimp only
    rw [if_neg fun h => hends (by simpa [and_comm] using h)]
    exact ⟨rfl, id⟩
  | closed =>
    rw [step] at hstep
    split at hstep
    · cases hstep
      exact ⟨rfl, id⟩
    · cases hstep
  | _ => exact absurd hends id

/-- What holds of the requester along a run that closes it between rounds. -/
theorem quiet_step (h : Sound streamId requester ∧
      (requester.isClosed = true → ¬RoundOutstanding configuration requester))
    (hcloses : ClosesBetweenRounds configuration requester action)
    (hstep : step streamId configuration requester action = some next) :
    Sound streamId next ∧ (next.isClosed = true → ¬RoundOutstanding configuration next) := by
  obtain ⟨hsound, hquiet⟩ := h
  refine ⟨sound_step hsound hstep, fun hclosed => ?_⟩
  cases hopen : requester.isClosed with
  | true => exact (silent_step hsound hopen (hquiet hopen) hstep).2.1
  | false => exact quiet_of_closing hsound hopen hcloses hstep hclosed

/-- A closed requester without an outstanding round is silent whatever happens. -/
theorem silentAfter_of_quiet (hsound : Sound streamId requester)
    (hclosed : requester.isClosed = true) (hquiet : ¬RoundOutstanding configuration requester) :
    SilentAfter streamId configuration requester := by
  intro actions later hrun
  have h := Transition.run_invariant (fun later => Sound streamId later ∧
      later.isClosed = true ∧ ¬RoundOutstanding configuration later ∧
        later.payloadFrames = requester.payloadFrames)
    (fun state action next ⟨hsound, hclosed, hquiet, hframes⟩ hstep => by
      obtain ⟨hclosed', hquiet', hframes'⟩ := silent_step hsound hclosed hquiet hstep
      exact ⟨sound_step hsound hstep, hclosed', hquiet', hframes'.trans hframes⟩)
    ⟨hsound, hclosed, hquiet, rfl⟩ hrun
  exact h.2.2.2

/-- **A run that closes the requester between rounds of fragments is silent from then on**, and an
action that closes it while a round is outstanding is followed by further payload frames. -/
theorem silence (streamId : ℤ) (configuration : ReactiveChannelConfiguration) (chunkSize : ℕ) :
    (∀ actions, Transition.Along (step streamId configuration) (ClosesBetweenRounds configuration)
        (new chunkSize) actions → Silence streamId configuration chunkSize actions) ∧
      ∀ requester action next,
        Transition.Reachable (step streamId configuration) (new chunkSize) requester →
        step streamId configuration requester action = some next →
        ¬ClosesBetweenRounds configuration requester action →
        ¬SilentAfter streamId configuration next := by
  constructor
  · rintro _ halong front back closed later rfl hfront hclosed hback
    have h := Transition.run_induction
      (fun _ requester => Sound streamId requester ∧
        (requester.isClosed = true → ¬RoundOutstanding configuration requester))
      (fun _ _ _ _ hinv hcloses hstep => quiet_step hinv hcloses hstep)
      ⟨sound_new chunkSize, nofun⟩
      (Transition.along_append halong) hfront
    exact silentAfter_of_quiet h.1 hclosed (h.2 hclosed) back later hback
  · intro requester action next hreachable hstep hcloses hsilent
    unfold ClosesBetweenRounds at hcloses
    push Not at hcloses
    obtain ⟨-, hends, houtstanding⟩ := hcloses
    have hsound := sound_of_reachable hreachable
    -- The close kept the callback of the round, and the callback hands over more frames.
    obtain ⟨hheld, hkeeps⟩ := closed_of_endsAtOnce hsound.lifecycle.closing hends hstep
    obtain ⟨later, hrun, hmore⟩ := handed_of_outstanding streamId
      (sound_step hsound hstep).rounds hheld (hkeeps houtstanding)
    have hsame := hsilent _ _ hrun
    omega

/-- A run in which the stream is closed while nothing is cut. -/
theorem silence_closed : Silence 1 ⟨1, 1, 1, 1⟩ 64
    [.schedulePayload [7] false, .resume 1, .deliver, .close false] :=
  (silence 1 ⟨1, 1, 1, 1⟩ 64).1 _ (by decide)

/-- Two bytes in fragments of one: the stream is closed when the first fragment is handed over, and
the second follows. -/
theorem not_silence_close : ¬Silence 1 ⟨1, 1, 1, 1⟩ 64
    [.schedulePayload [1, 2] false, .resume 1, .deliver, .close false, .done 0] := by
  let before := resume 1 (schedulePayload [1, 2] false (new 64))
  let cut := fragmentate 1 ⟨1, 1, 1, 1⟩ { before with
    fragmenting := true
    subscription := ⟨[], 1, false⟩
    currentFragments := [[1], [2]]
    currentFragmentsCount := 2 }
  have hdeliver : step 1 ⟨1, 1, 1, 1⟩ before .deliver = some cut := by
    show some (sendFragments 1 ⟨1, 1, 1, 1⟩ ⟨[1, 2], false, false⟩ _) = _
    rw [sendFragments, disassemble_two]
    rfl
  intro h
  have hsame := h [.schedulePayload [1, 2] false, .resume 1, .deliver, .close false] [.done 0]
    (close false cut) (fragmentate 1 ⟨1, 1, 1, 1⟩ { close false cut with callbacks := [] }) rfl
    (by
      show Transition.run (step 1 ⟨1, 1, 1, 1⟩) before [.deliver, .close false] = _
      rw [Transition.run_cons, hdeliver]
      rfl) rfl rfl
  exact absurd hsame (by decide)

end FengShui.Reactive.ReactiveRequester
