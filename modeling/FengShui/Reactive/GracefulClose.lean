import FengShui.Reactive.Pending

/-!
# The graceful close of a requester

A call of `close` with a timeout waits for `_closer` while payloads are pending. It is to wait until
the last of them is written and no longer, and another call of `close` is to wait with it
(`Graceful`). Both hang on `_closing`, which nothing sets: `_closer` is completed by a timeout only,
and a call without one tears the requester down. So a run is graceful exactly when, while a call
waits, the last of what is pending is not written and no such call is made (`Undecided`).
-/

namespace FengShui.Reactive.ReactiveRequester

open Transition List

/-- A call of `close` waits for `_closer`. -/
def Waits (requester : ReactiveRequester) : Prop :=
  0 < requester.timers + requester.waiting ∧ requester.closerCompleted = false

/-- What was pending is written: no fragments are, and nothing is left that is still to be sent. -/
def Written (requester : ReactiveRequester) : Prop :=
  requester.callbacks = [] ∧ requester.fragmenting = false ∧
    (requester.sending = true → requester.subscription.events = [] ∧ requester.held = [])

instance : DecidablePred Waits := fun _ => inferInstanceAs (Decidable (_ ∧ _))

instance : DecidablePred Written := fun _ => inferInstanceAs (Decidable (_ ∧ _ ∧ _))

/-- What a step is to do while a call of `close` waits for something: when it writes the last of it,
it completes `_closer`, and when it is another call of `close`, it does not tear the requester
down. -/
def Answered (requester next : ReactiveRequester) : RequesterAction → Prop
  | .deliver | .done _ => Written next → next.closerCompleted = true
  | .close _ =>
    requester.subscription.canceled = false → next.subscription.canceled = false
  | .request _ | .schedulePayload .. | .scheduleError _ | .scheduleCancel | .resume _ | .timeout
  | .closed => True

section Statement

variable (streamId : ℤ) (configuration : ReactiveChannelConfiguration)

/-- In a run, whenever a call of `close` waits for something, the next step does what it is to. -/
def Graceful (start : ReactiveRequester) (actions : List RequesterAction) : Prop :=
  ∀ front action back requester next, actions = front ++ action :: back →
    run (step streamId configuration) start front = some requester →
    step streamId configuration requester action = some next →
    Waits requester → ¬Written requester → Answered requester next action

/-- The subscription takes the last payload, and its frame goes out with those of the buffer. -/
def LastDelivery (requester : ReactiveRequester) : Prop :=
  match requester.subscription.next? with
  | some (payload, rest) =>
    requester.sending = true ∧ payload.bytes.length ≤ configuration.frameMaxSize ∧
      rest.events = [] ∧
      (payload.last = true ∨ configuration.chunksLimit ≤ requester.buffer.count + 1 ∨
        requester.pending - (requester.buffer.count + 1) = 0 ∨ creditSpent requester.requested = 0)
  | none => False

/-- The last fragments of a payload are written, and nothing else is to be sent. -/
def LastCompletion (requester : ReactiveRequester) (index : ℕ) : Prop :=
  requester.callbacks[index]? = some .fragmentateNext ∧
    requester.currentFragmentsCount ≤ requester.currentFragmentNumber ∧
    (requester.lastFragments = true ∨ requester.sending = false ∨
      requester.subscription.events = [])

/-- While a call of `close` waits for something, the last of it is not written, and `close` is not
called without a timeout. -/
def Undecided (requester : ReactiveRequester) (action : RequesterAction) : Prop :=
  Waits requester → ¬Written requester →
    match action with
    | .deliver => ¬LastDelivery configuration requester
    | .done index => ¬LastCompletion requester index
    | .close graceful => graceful = true ∨ requester.subscription.canceled = true
    | _ => True

end Statement

variable {streamId : ℤ} {configuration : ReactiveChannelConfiguration}
  {requester next start : ReactiveRequester} {action : RequesterAction}

/-! ## The writes -/

/-- Only a timeout completes `_closer`. -/
theorem closerCompleted_move (hmove : Move streamId configuration requester action next)
    (htimeout : action ≠ .timeout) : next.closerCompleted = requester.closerCompleted := by
  cases hmove with
  | timeout => exact absurd rfl htimeout
  | cut => rw [fragmentate_eq]
  | round => rw [fragmentate_eq]
  | _ => rfl

theorem not_written_fragmentate (requester : ReactiveRequester) :
    ¬Written (fragmentate streamId configuration requester) := by
  rw [fragmentate_eq]
  rintro ⟨hnone, -⟩
  exact append_ne_nil_of_right_ne_nil _ (cons_ne_nil _ _) hnone

/-- What a last delivery says of the payload that is taken. -/
theorem lastDelivery_iff {payload : ReactivePendingPayload}
    {rest : Subscription ReactivePendingPayload}
    (hnext : requester.subscription.next? = some (payload, rest)) :
    LastDelivery configuration requester ↔
      requester.sending = true ∧ payload.bytes.length ≤ configuration.frameMaxSize ∧
        rest.events = [] ∧
        (payload.last = true ∨ configuration.chunksLimit ≤ requester.buffer.count + 1 ∨
          requester.pending - (requester.buffer.count + 1) = 0 ∨
          creditSpent requester.requested = 0) := by
  rw [LastDelivery, hnext]

/-- A delivery that leaves everything written is a last one. -/
theorem lastDelivery_of_written (hsound : Sound streamId requester) (hpend : ¬Written requester)
    (hmove : Move streamId configuration requester .deliver next) (hwritten : Written next) :
    LastDelivery configuration requester := by
  obtain ⟨hcbs, hfrag, hleft⟩ := hwritten
  cases hmove with
  | refused _ hcall =>
    obtain ⟨count, hcall⟩ | hcall := hcall
    · cases hcall
    · cases hcall
  | schedule _ hpay => cases hpay
  | drop _ hstopped =>
    -- What is dropped was not to be sent.
    refine absurd ⟨hcbs, hfrag, fun hsend => ?_⟩ hpend
    rw [hstopped] at hsend
    cases hsend
  | stuck => cases hfrag
  | cut => exact absurd ⟨hcbs, hfrag, hleft⟩ (not_written_fragmentate _)
  | cutBehind =>
    exact absurd hcbs (append_ne_nil_of_right_ne_nil _ (cons_ne_nil _ _))
  | @last payload rest hnext hsend hsize hlast =>
    obtain ⟨-, -, hev, -, -⟩ := Subscription.next?_eq_some.mp hnext
    have hends := hsound.queued.endsOnce
    rw [hev] at hends
    exact (lastDelivery_iff hnext).mpr ⟨hsend, hsize, hends.2.1 hlast, .inl hlast⟩
  | hold _ hsend =>
    exact absurd (hleft hsend).2 (append_ne_nil_of_right_ne_nil _ (cons_ne_nil _ _))
  | @flush payload rest hnext hsend hsize hlast hflush =>
    have hev := (hleft hsend).1
    simp only [apply_ite Subscription.events, Subscription.events_pause, ite_self] at hev
    exact (lastDelivery_iff hnext).mpr ⟨hsend, hsize, hev, .inr hflush⟩

/-- A last delivery leaves everything written. -/
theorem written_of_lastDelivery (hsound : Sound streamId requester)
    (hmove : Move streamId configuration requester .deliver next)
    (hlast : LastDelivery configuration requester)
    (hdelivers : requester.subscription.next?.isSome) : Written next := by
  obtain ⟨⟨payload, rest⟩, hnext⟩ := Option.isSome_iff_exists.mp hdelivers
  obtain ⟨hsend, hsize, hev, hwrites⟩ := (lastDelivery_iff hnext).mp hlast
  obtain ⟨-, -, hfrag, hnone⟩ := hsound.rounds.idle hnext
  -- The payload of the move is the one that is taken.
  have htaken {payload' : ReactivePendingPayload} {rest' : Subscription ReactivePendingPayload}
      (hnext' : requester.subscription.next? = some (payload', rest')) :
      payload' = payload ∧ rest' = rest := by
    rw [hnext] at hnext'
    cases hnext'
    exact ⟨rfl, rfl⟩
  cases hmove with
  | refused _ hcall =>
    obtain ⟨count, hcall⟩ | hcall := hcall
    · cases hcall
    · cases hcall
  | schedule _ hpay => cases hpay
  | drop _ hstopped =>
    rw [hsend] at hstopped
    cases hstopped
  | stuck hnext' _ hbig =>
    obtain ⟨rfl, rfl⟩ := htaken hnext'
    omega
  | cut hnext' _ hbig =>
    obtain ⟨rfl, rfl⟩ := htaken hnext'
    omega
  | cutBehind hnext' _ hbig =>
    obtain ⟨rfl, rfl⟩ := htaken hnext'
    omega
  | last => exact ⟨hnone, rfl, nofun⟩
  | hold hnext' _ _ hgoes hlimit hmore hcredit =>
    obtain ⟨rfl, rfl⟩ := htaken hnext'
    rw [hgoes] at hwrites
    rcases hwrites with hends | hfull | hnothing | hspent
    · cases hends
    · omega
    · exact absurd hnothing hmore
    · exact absurd hspent hcredit
  | flush hnext' =>
    obtain ⟨rfl, rfl⟩ := htaken hnext'
    refine ⟨hnone, hfrag, fun _ => ⟨?_, rfl⟩⟩
    simp only [apply_ite Subscription.events, Subscription.events_pause, ite_self]
    exact hev

/-- A completion that leaves everything written is a last one. -/
theorem lastCompletion_of_written {index : ℕ}
    (hmove : Move streamId configuration requester (.done index) next) (hwritten : Written next) :
    LastCompletion requester index := by
  cases hmove with
  | refused _ hcall =>
    obtain ⟨count, hcall⟩ | hcall := hcall
    · cases hcall
    · cases hcall
  | schedule _ hpay => cases hpay
  | round => exact absurd hwritten (not_written_fragmentate _)
  | finish hcb hmore hlast => exact ⟨hcb, hmore, .inl hlast⟩
  | proceed hcb hmore =>
    refine ⟨hcb, hmore, .inr ?_⟩
    cases hsend : requester.sending with
    | false => exact .inl rfl
    | true =>
      have hev := (hwritten.2.2 hsend).1
      simp only [apply_ite Subscription.events, Subscription.events_resume, ite_self] at hev
      exact .inr hev

/-- A last completion leaves everything written. -/
theorem written_of_lastCompletion (hsound : Sound streamId requester) {index : ℕ}
    (hmove : Move streamId configuration requester (.done index) next)
    (hlast : LastCompletion requester index) : Written next := by
  obtain ⟨hcb, hmore, hrest⟩ := hlast
  obtain ⟨honly, hnone⟩ := callbacks_eq_singleton hsound.rounds.callbacks hcb
  obtain ⟨-, hheld⟩ := hsound.rounds.rest honly
  cases hmove with
  | refused _ hcall =>
    obtain ⟨count, hcall⟩ | hcall := hcall
    · cases hcall
    · cases hcall
  | schedule _ hpay => cases hpay
  | round hcb' hless =>
    rw [hcb] at hcb'
    cases hcb'
    -- There is no round behind the last completion.
    have := hless.resolve_left (by decide)
    omega
  | finish => exact ⟨hnone, rfl, nofun⟩
  | proceed _ _ hgoes =>
    refine ⟨hnone, rfl, fun hsends => ⟨?_, hheld⟩⟩
    simp only [apply_ite Subscription.events, Subscription.events_resume, ite_self]
    -- Nothing goes on behind it, for one of three reasons.
    rcases hrest with hends | hstopped | hev
    · rw [hgoes] at hends
      cases hends
    · rw [show requester.sending = true from hsends] at hstopped
      cases hstopped
    · exact hev

/-! ## The calls -/

/-- Until the requester is torn down, what is in the queue, in the buffer and being cut is
pending. -/
def Covered (requester : ReactiveRequester) : Prop :=
  requester.subscription.canceled = false →
    requester.subscription.events.length + requester.held.length +
      (if requester.fragmenting = true then 1 else 0) ≤ requester.pending

theorem covered_new (chunkSize : ℕ) : Covered (new chunkSize) := fun _ => le_rfl

theorem covered_move (hsound : Sound streamId requester) (h : Covered requester)
    (hmove : Move streamId configuration requester action next) : Covered next := by
  -- The queue behind its first payload.
  have hdrop {payload : ReactivePendingPayload} {rest : Subscription ReactivePendingPayload}
      (hnext : requester.subscription.next? = some (payload, rest)) :
      rest.events.length + 1 + requester.held.length ≤ requester.pending ∧
        requester.fragmenting = false := by
    obtain ⟨hsub, -, -, -, -⟩ := Subscription.next?_eq_some.mp hnext
    obtain ⟨hlen, hfrag, -, -, -⟩ := taken_next hsound hnext
    have hcovered := h hsub
    rw [hfrag, if_neg Bool.false_ne_true] at hcovered
    refine ⟨?_, hfrag⟩
    omega
  intro hcancel
  cases hmove with
  | refused => exact h hcancel
  | ignored => exact h hcancel
  | request => exact h hcancel
  | schedule hacc =>
    obtain ⟨-, hsub, -⟩ := hsound.lifecycle.accepting hacc
    have hcovered := h hsub
    simp only [apply_ite Subscription.events, Subscription.events_resume, ite_self,
      Subscription.events_add hsub, length_append, length_singleton]
    push_cast
    omega
  | resume =>
    rw [Subscription.canceled_resume] at hcancel
    rw [Subscription.events_resume]
    exact h hcancel
  | wait => exact h hcancel
  | close => cases hcancel
  | timeout => exact h hcancel
  | closed => cases hcancel
  | drop hnext =>
    obtain ⟨hcovered, hfrag⟩ := hdrop hnext
    dsimp only
    rw [hfrag, if_neg Bool.false_ne_true]
    omega
  | stuck hnext =>
    obtain ⟨hcovered, -⟩ := hdrop hnext
    simp only [Subscription.events_pause, if_true]
    omega
  | cut hnext _ _ _ hchunks =>
    obtain ⟨hcovered, -⟩ := hdrop hnext
    rw [fragmentate_eq]
    simp only [Subscription.events_pause, length_nil, if_true]
    omega
  | cutBehind hnext =>
    obtain ⟨hcovered, -⟩ := hdrop hnext
    have hcount := hsound.recorded.count
    simp only [Subscription.events_pause, length_nil, if_true]
    omega
  | last => cases hcancel
  | hold hnext =>
    obtain ⟨hcovered, hfrag⟩ := hdrop hnext
    simp only [hfrag, length_append, length_singleton, Bool.false_eq_true, if_false]
    push_cast
    omega
  | flush hnext =>
    obtain ⟨hcovered, hfrag⟩ := hdrop hnext
    have hcount := hsound.recorded.count
    simp only [hfrag, apply_ite Subscription.events, Subscription.events_pause, ite_self,
      length_nil, Bool.false_eq_true, if_false]
    omega
  | round hcb =>
    have hsub : requester.subscription.canceled = false := by
      rw [fragmentate_eq] at hcancel
      exact hcancel
    have hcovered := h hsub
    rw [fragmentate_eq]
    simp only [length_nil]
    omega
  | finish => cases hcancel
  | proceed =>
    have hsub : requester.subscription.canceled = false := by
      simpa only [apply_ite Subscription.canceled, Subscription.canceled_resume, ite_self] using
        hcancel
    have hcovered := h hsub
    simp only [apply_ite Subscription.events, Subscription.events_resume, ite_self,
      Bool.false_eq_true, if_false]
    omega

/-- Where something is not written, something is pending. -/
theorem pending_pos (hsound : Sound streamId requester) (h : Covered requester)
    (hsub : requester.subscription.canceled = false) (hpend : ¬Written requester) :
    0 < requester.pending := by
  have hcovered := h hsub
  by_contra hnone
  refine hpend ⟨?_, ?_, fun _ => ⟨?_, ?_⟩⟩
  · -- Fragments are written only while a payload is cut.
    by_contra hcbs
    rcases hsound.rounds.fragmenting hcbs with hcancel | hfrag
    · rw [hsub] at hcancel
      cases hcancel
    · rw [if_pos hfrag] at hcovered
      omega
  · by_contra hfrag
    rw [if_pos (by simpa using hfrag)] at hcovered
    omega
  · exact eq_nil_of_length_eq_zero (by omega)
  · exact eq_nil_of_length_eq_zero (by omega)

/-- Another call of `close` waits as well, when it has a timeout. -/
theorem canceled_close (hclosing : requester.closing = false)
    (hsub : requester.subscription.canceled = false) (hpend : 0 < requester.pending)
    (graceful : Bool) : (close graceful requester).subscription.canceled = !graceful := by
  cases graceful with
  | true =>
    rw [close, if_neg (by rw [hclosing]; exact Bool.false_ne_true)]
    rw [if_pos (by simpa using hpend)]
    exact hsub
  | false =>
    rw [close_eq hclosing]
    rfl

/-- A step does what it is to exactly when it is not one that decides. -/
theorem answered_iff (hsound : Sound streamId requester) (hcovered : Covered requester)
    (hwaits : Waits requester) (hpend : ¬Written requester)
    (hstep : step streamId configuration requester action = some next) :
    Answered requester next action ↔ Undecided configuration requester action := by
  have hmove := step_move hsound.lifecycle.closing hstep
  -- No write completes `_closer`.
  have hcloser (hwrite : action ≠ .timeout) : next.closerCompleted = false :=
    (closerCompleted_move hmove hwrite).trans hwaits.2
  cases action with
  | deliver =>
    have hdelivers : requester.subscription.next?.isSome := by
      rw [step] at hstep
      rw [← Option.isSome_map, hstep]
      rfl
    constructor
    · intro hanswered _ _ hlast
      have hcomp := hanswered (written_of_lastDelivery hsound hmove hlast hdelivers)
      rw [hcloser (by rintro ⟨⟩)] at hcomp
      cases hcomp
    · intro hundecided hwritten
      exact absurd (lastDelivery_of_written hsound hpend hmove hwritten)
        (hundecided hwaits hpend)
  | done index =>
    constructor
    · intro hanswered _ _ hlast
      have hcomp := hanswered (written_of_lastCompletion hsound hmove hlast)
      rw [hcloser (by rintro ⟨⟩)] at hcomp
      cases hcomp
    · intro hundecided hwritten
      exact absurd (lastCompletion_of_written hmove hwritten) (hundecided hwaits hpend)
  | close graceful =>
    obtain rfl : close graceful requester = next := Option.some.inj hstep
    cases hsub : requester.subscription.canceled with
    | true =>
      constructor
      · exact fun _ _ _ => .inr hsub
      · intro _ hopen
        rw [hsub] at hopen
        cases hopen
    | false =>
      have hcancel := canceled_close hsound.lifecycle.closing hsub
        (pending_pos hsound hcovered hsub hpend) graceful
      constructor
      · intro hanswered _ _
        have hopen := hanswered hsub
        rw [hcancel] at hopen
        exact .inl (by simpa using hopen)
      · intro hundecided _
        rcases hundecided hwaits hpend with rfl | hgone
        · exact hcancel
        · rw [hsub] at hgone
          cases hgone
  | _ => exact ⟨fun _ _ _ => trivial, fun _ => trivial⟩

/-- A step that cannot be taken decides nothing. -/
theorem undecided_of_stuck (hstep : step streamId configuration requester action = none) :
    Undecided configuration requester action := by
  intro _ _
  cases action with
  | deliver =>
    rw [step, Option.map_eq_none_iff] at hstep
    show ¬LastDelivery configuration requester
    rw [LastDelivery, hstep]
    exact id
  | done index =>
    rw [step, Option.map_eq_none_iff] at hstep
    rintro ⟨hcb, -⟩
    rw [hstep] at hcb
    cases hcb
  | close graceful => cases hstep
  | _ => trivial

theorem covered_of_run {chunkSize : ℕ} {actions : List RequesterAction}
    (hrun : run (step streamId configuration) (new chunkSize) actions = some requester) :
    Sound streamId requester ∧ Covered requester := by
  refine run_invariant (fun requester => Sound streamId requester ∧ Covered requester)
    (fun requester action next hinv hstep => ?_) ⟨sound_new chunkSize, covered_new chunkSize⟩ hrun
  obtain ⟨hsound, hcovered⟩ := hinv
  have hmove := step_move hsound.lifecycle.closing hstep
  exact ⟨sound_step hsound hstep, covered_move hsound hcovered hmove⟩

/-- A run closes gracefully if and only if, while a call of `close` waits for something, no step
writes the last of it and no call of `close` without a timeout comes: whenever one does, `_closer`
is not completed, or the requester is torn down. -/
theorem graceful_iff_undecided (streamId : ℤ) (configuration : ReactiveChannelConfiguration)
    (chunkSize : ℕ) (actions : List RequesterAction) :
    Graceful streamId configuration (new chunkSize) actions ↔
      Along (step streamId configuration) (Undecided configuration) (new chunkSize) actions := by
  constructor
  · intro hgraceful
    by_contra hdecided
    obtain ⟨front, action, back, requester, rfl, -, hfront, hcond⟩ := exists_of_not_along hdecided
    obtain ⟨hsound, hcovered⟩ := covered_of_run hfront
    cases hstep : step streamId configuration requester action with
    | none => exact hcond (undecided_of_stuck hstep)
    | some next =>
      -- The step decides, so a call waits for something, and the step does not do what it is to.
      have hwaits : Waits requester := by
        by_contra hidle
        exact hcond fun hwaits => absurd hwaits hidle
      have hpending : ¬Written requester := fun hwritten =>
        hcond fun _ hpending => absurd hwritten hpending
      have hanswered := hgraceful front action back requester next rfl hfront hstep hwaits hpending
      exact hcond ((answered_iff hsound hcovered hwaits hpending hstep).mp hanswered)
  · rintro hundecided front action back requester next rfl hfront hstep hwaits hpending
    obtain ⟨hsound, hcovered⟩ := covered_of_run hfront
    exact (answered_iff hsound hcovered hwaits hpending hstep).mpr (hundecided.at_step hfront)

/-- A payload is sent while `close` waits for it, and `_closer` is not completed; and a second call
of `close` tears the requester down while the payload is pending. -/
theorem not_graceful :
    ¬Graceful 1 ⟨1, 100, 1, 10⟩ (new 64)
        [.resume 1, .schedulePayload [7] false, .close true, .deliver] ∧
      ¬Graceful 1 ⟨1, 100, 1, 10⟩ (new 64)
        [.schedulePayload [7] false, .close true, .close false] := by
  constructor
  · intro hgraceful
    have hcompleted := hgraceful [.resume 1, .schedulePayload [7] false, .close true] .deliver []
      _ _ rfl rfl rfl (by decide) (by decide) (by decide)
    exact absurd hcompleted (by decide)
  · intro hgraceful
    have hopen := hgraceful [.schedulePayload [7] false, .close true] (.close false) []
      _ _ rfl rfl rfl (by decide) (by decide) rfl
    exact absurd hopen (by decide)

end FengShui.Reactive.ReactiveRequester
