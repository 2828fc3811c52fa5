import FengShui.Reactive.RequesterInvariants

/-!
# What a requester counts as pending

`_pending` decides whether the buffer is written, so it is to be the number of payloads and frames
that are scheduled and not handed to the connection (`Counted`). It is while no payload that was cut
comes to its end: the requester counts one down only behind `_closing`, which is never set. From
then on a frame may stay in the buffer with nothing else to come.
-/

namespace FengShui.Reactive

open List

/-- The last frame of a payload. -/
def OutFrame.isEnd : OutFrame → Bool
  | payload _ _ follow _ => !follow
  | other _ => false

namespace ReactiveRequester

open Transition

/-- The number of payloads that end with one of the frames. -/
def ends (frames : List OutFrame) : ℕ := frames.countP OutFrame.isEnd

/-- The payloads handed to the connection completely, where the write of the last fragments of a
payload must be done. A frame of another type that is scheduled ends the stream, and what follows it
is not asked for. -/
def completed (requester : ReactiveRequester) : ℤ :=
  ends requester.handed -
    if requester.callbacks = [.fragmentateNext] ∧
      requester.currentFragmentsCount ≤ requester.currentFragmentNumber then 1 else 0

section Statement

variable (streamId : ℤ) (configuration : ReactiveChannelConfiguration)

/-- Whether a call schedules a payload or a frame, as a number. -/
def accepted (requester : ReactiveRequester) (action : RequesterAction) : ℕ :=
  if requester.accepting = true ∧ (scheduledPayload streamId action).isSome then 1 else 0

/-- The payloads and frames that a run schedules. -/
def scheduled : ReactiveRequester → List RequesterAction → ℕ
  | _, [] => 0
  | requester, action :: actions =>
    accepted streamId requester action +
      match step streamId configuration requester action with
      | some next => scheduled next actions
      | none => 0

/-- The pending count is right, and no frame stays in the buffer when nothing else is to come. -/
structure Counted (start : ReactiveRequester) (actions : List RequesterAction)
    (requester : ReactiveRequester) : Prop where
  pending : requester.pending = scheduled streamId configuration start actions - requester.completed
  flushed : requester.subscription.events = [] → requester.fragmenting = false →
    0 < requester.requested → requester.buffer.chunks = []

end Statement

/-- The step is not the end of a payload that was cut while the stream goes on. -/
def Uncut (requester : ReactiveRequester) : RequesterAction → Prop
  | .done index =>
    ¬(requester.callbacks[index]? = some .fragmentateNext ∧
      requester.currentFragmentsCount ≤ requester.currentFragmentNumber ∧
      requester.lastFragments = false ∧ requester.sending = true)
  | _ => True

instance (requester : ReactiveRequester) (action : RequesterAction) :
    Decidable (Uncut requester action) :=
  match action with
  | .done index =>
    inferInstanceAs (Decidable (¬(requester.callbacks[index]? = some .fragmentateNext ∧
      requester.currentFragmentsCount ≤ requester.currentFragmentNumber ∧
      requester.lastFragments = false ∧ requester.sending = true)))
  | .request _ | .schedulePayload .. | .scheduleError _ | .scheduleCancel | .resume _ | .close _
  | .timeout | .closed | .deliver => .isTrue trivial

variable {streamId : ℤ} {configuration : ReactiveChannelConfiguration}
  {requester next start : ReactiveRequester} {action : RequesterAction}
  {history : List RequesterAction} {count : ℕ}

/-! ## Counting frames -/

@[simp]
theorem ends_nil : ends [] = 0 := rfl

@[simp]
theorem ends_append (front back : List OutFrame) : ends (front ++ back) = ends front + ends back :=
  countP_append

theorem ends_eq_length {frames : List OutFrame} (h : ∀ frame ∈ frames, frame.isEnd = true) :
    ends frames = frames.length := countP_eq_length.mpr h

variable {index : ℕ} {payload : ReactivePendingPayload} {actions : List RequesterAction}

/-- Of the frames of a round the last one ends the payload, when no more rounds follow. -/
theorem ends_fragmentFrames (more lastFragments : Bool) {chunks : ℕ} (first : Bool)
    {fragments : List Uint8List} (hchunks : index + fragments.length = chunks) :
    ends (fragmentFrames more lastFragments chunks first index fragments) =
      if more = true ∨ fragments = [] then 0 else 1 := by
  induction fragments generalizing first index with
  | nil => simp [fragmentFrames]
  | cons fragment fragments ih =>
    rw [length_cons] at hchunks
    rw [fragmentFrames, ← singleton_append, ends_append]
    cases more with
    | true =>
      -- Every fragment is followed by one.
      have hrest : ends (fragmentFrames true lastFragments chunks false index fragments) = 0 := by
        clear ih hchunks
        induction fragments with
        | nil => rfl
        | cons fragment fragments ih =>
          rw [fragmentFrames, ← singleton_append, ends_append, if_pos rfl, ih]
          rfl
      rw [if_pos rfl, hrest]
      rfl
    | false =>
      have hrest := @ih (index + 1) false (by omega)
      rw [if_neg Bool.false_ne_true, hrest]
      cases fragments with
      | nil =>
        have hlast : index + 1 = chunks := by simpa using hchunks
        simp [ends, OutFrame.isEnd, hlast]
      | cons second fragments =>
        have hfollow : index + 1 ≠ chunks := by
          rw [length_cons] at hchunks
          omega
        simp [ends, OutFrame.isEnd, hfollow]

/-- A round of a payload that has fragments left hands over its end exactly with the last of
them. -/
theorem ends_roundFrames (configuration : ReactiveChannelConfiguration)
    (hfrags : requester.currentFragments ≠ [])
    (hnum : requester.currentFragmentNumber + requester.currentFragments.length =
      requester.currentFragmentsCount) :
    ends (requester.roundFrames configuration) =
      if requester.currentFragmentsCount ≤ requester.currentFragmentNumber +
        min configuration.chunksLimit requester.currentFragments.length then 1 else 0 := by
  have hpos := length_pos_iff.mpr hfrags
  have htake : 0 + (requester.currentFragments.take
      (min configuration.chunksLimit requester.currentFragments.length)).length =
      min configuration.chunksLimit requester.currentFragments.length := by
    rw [length_take]
    omega
  rw [roundFrames, ends_fragmentFrames _ _ _ htake]
  -- The last frame of the round ends the payload, unless there is more.
  by_cases hmore : requester.currentFragmentNumber +
      min configuration.chunksLimit requester.currentFragments.length <
        requester.currentFragmentsCount
  · rw [if_pos (.inl (decide_eq_true hmore)), if_neg (not_le.mpr hmore)]
  · have hsome : requester.currentFragments.take
        (min configuration.chunksLimit requester.currentFragments.length) ≠ [] := by
      rw [← length_pos_iff, length_take]
      omega
    rw [if_neg (by simp only [decide_eq_true_eq, not_or]; exact ⟨hmore, hsome⟩),
      if_pos (not_lt.mp hmore)]

/-- Where no last write of a cut payload is under way, what was handed over is completed. -/
theorem completed_of_callbacks (h : requester.callbacks ≠ [.fragmentateNext]) :
    requester.completed = ends requester.handed := by
  rw [completed, if_neg fun hdone => h hdone.1, sub_zero]

/-- A round completes nothing until its write is done. -/
theorem completed_fragmentate (hnone : requester.callbacks = [])
    (hfrags : requester.currentFragments ≠ [])
    (hnum : requester.currentFragmentNumber + requester.currentFragments.length =
      requester.currentFragmentsCount) :
    (fragmentate streamId configuration requester).completed =
      ends requester.handed + ends requester.held := by
  rw [completed, fragmentate_eq]
  simp only [ends_append, ends_roundFrames configuration hfrags hnum, hnone,
    nil_append, true_and]
  split <;> push_cast <;> ring

/-! ## What a step does to the count -/

/-- The count while the requester sends: it is what is in the queue, in the buffer and being cut,
and a frame is in the buffer only when something else is to come. -/
structure Tallied (count : ℕ) (requester : ReactiveRequester) : Prop where
  pending : requester.pending = count - requester.completed
  places : requester.pending = requester.subscription.events.length + requester.held.length +
    if requester.fragmenting = true then 1 else 0
  ends : ∀ frame ∈ requester.held, frame.isEnd = true
  coming : requester.held ≠ [] → requester.fragmenting = true ∨ requester.subscription.events ≠ []

/-- The frame of a payload that does not end the stream ends that payload. -/
theorem isEnd_wholeFrame (hframe : payload.frame = true → payload.last = true)
    (hlast : payload.last = false) : (wholeFrame payload).isEnd = true := by
  have hpay : payload.frame = false := by
    by_contra hcon
    rw [hframe (by simpa using hcon)] at hlast
    cases hlast
  rw [wholeFrame, hpay]
  rfl

/-- A payload that leaves the queue: the others stay, nothing is being cut, and what was handed over
is completed. -/
theorem taken_next (hsound : Sound streamId requester)
    {rest : Subscription ReactivePendingPayload}
    (hnext : requester.subscription.next? = some (payload, rest)) :
    requester.subscription.events.length = rest.events.length + 1 ∧
      requester.fragmenting = false ∧ requester.callbacks = [] ∧
      requester.completed = ends requester.handed ∧
      (payload.frame = true → payload.last = true) := by
  obtain ⟨-, -, hev, -, -⟩ := Subscription.next?_eq_some.mp hnext
  obtain ⟨-, -, hfrag, hnone⟩ := hsound.rounds.idle hnext
  have hends := hsound.queued.endsOnce
  rw [hev] at hends
  refine ⟨by rw [hev, length_cons], hfrag, hnone, ?_, hends.1⟩
  rw [completed_of_callbacks (by rw [hnone]; exact (cons_ne_nil _ _).symm)]

theorem accepted_eq_zero (h : scheduledPayload streamId action = none) :
    accepted streamId requester action = 0 := by
  rw [accepted, h, if_neg fun hsome => by cases hsome.2]

theorem accepted_of_refused (h : requester.accepting = false) :
    accepted streamId requester action = 0 := by
  rw [accepted, if_neg]
  rintro ⟨hacc, -⟩
  rw [h] at hacc
  cases hacc

/-- A payload that is scheduled is one more, in the queue. -/
theorem Tallied.schedule (h : Tallied count requester)
    (hsub : requester.subscription.canceled = false) :
    Tallied (count + 1) { requester with
      accepting := !payload.last
      subscription :=
        if creditScheduled payload.last requester.requested > 0 ∧ requester.fragmenting = false ∧
            requester.sending = true then
          (requester.subscription.add payload).resume
        else requester.subscription.add payload
      pending := requester.pending + 1
      requested := creditScheduled payload.last requester.requested } := by
  obtain ⟨hpend, hplaces, hends, hcoming⟩ := h
  have hcomp : completed { requester with
      accepting := !payload.last
      subscription :=
        if creditScheduled payload.last requester.requested > 0 ∧ requester.fragmenting = false ∧
            requester.sending = true then
          (requester.subscription.add payload).resume
        else requester.subscription.add payload
      pending := requester.pending + 1
      requested := creditScheduled payload.last requester.requested } = requester.completed := rfl
  refine ⟨?_, ?_, hends, fun _ => .inr ?_⟩
  · rw [hcomp]
    push_cast
    omega
  · simp only [apply_ite Subscription.events, Subscription.events_resume, ite_self,
      Subscription.events_add hsub, length_append, length_singleton]
    push_cast
    omega
  · simp only [apply_ite Subscription.events, Subscription.events_resume, ite_self,
      Subscription.events_add hsub]
    exact append_ne_nil_of_right_ne_nil _ (cons_ne_nil _ _)

/-- A round of fragments is of one payload that is pending, and nothing is held behind it. -/
theorem tallied_fragmentate (hnone : requester.callbacks = [])
    (hfrags : requester.currentFragments ≠ [])
    (hnum : requester.currentFragmentNumber + requester.currentFragments.length =
      requester.currentFragmentsCount) (hheld : requester.held = [])
    (hpend : requester.pending = count - (ends requester.handed : ℤ))
    (hplaces : requester.pending = requester.subscription.events.length +
      if requester.fragmenting = true then 1 else 0) :
    Tallied count (fragmentate streamId configuration requester) := by
  have hcomp : (fragmentate streamId configuration requester).completed =
      ends requester.handed + ends requester.held :=
    completed_fragmentate hnone hfrags hnum
  rw [hheld, ends_nil, Nat.cast_zero, add_zero] at hcomp
  refine ⟨?_, ?_, ?_, ?_⟩
  · rw [hcomp, fragmentate_eq]
    exact hpend
  · rw [fragmentate_eq]
    exact hplaces
  · rw [fragmentate_eq]
    exact nofun
  · rw [fragmentate_eq]
    exact fun hnil => absurd rfl hnil

/-- The rounds so far completed nothing, and the next one has fragments. -/
theorem uncompleted_of_callback (hrounds : Rounds requester) {callback : OnDone}
    (honly : requester.callbacks = [callback])
    (hmore : callback = .fragmentate ∨
      requester.currentFragmentNumber < requester.currentFragmentsCount) :
    requester.currentFragmentNumber + requester.currentFragments.length =
        requester.currentFragmentsCount ∧
      requester.currentFragments ≠ [] ∧ requester.held = [] ∧
      requester.completed = ends requester.handed := by
  cases callback with
  | fragmentate =>
    obtain ⟨hzero, hlen, hne, hheld⟩ := hrounds.first honly
    refine ⟨by omega, hne, hheld, ?_⟩
    rw [completed_of_callbacks]
    rw [honly]
    exact nofun
  | fragmentateNext =>
    obtain ⟨hlen, hheld⟩ := hrounds.rest honly
    have hless := hmore.resolve_left (by decide)
    refine ⟨hlen, ?_, hheld, ?_⟩
    · rw [← length_pos_iff]
      omega
    · rw [completed, if_neg fun hdone => absurd hdone.2 (by omega), sub_zero]

/-- A step that is not the end of a payload that was cut keeps the count. -/
theorem tallied_move (hsound : Sound streamId requester)
    (h : requester.sending = true → Tallied count requester) (huncut : Uncut requester action)
    (hmove : Move streamId configuration requester action next) (hsend : next.sending = true) :
    Tallied (count + accepted streamId requester action) next := by
  cases hmove with
  | refused hrefused =>
    rw [accepted_of_refused hrefused]
    exact h hsend
  | ignored =>
    rw [accepted_eq_zero rfl]
    exact h hsend
  | request =>
    obtain ⟨hpend, hplaces, hends, hcoming⟩ := h hsend
    rw [accepted_eq_zero rfl]
    refine ⟨?_, hplaces, hends, hcoming⟩
    rw [hpend, completed, completed, ends_append]
    rfl
  | @schedule _ payload hacc hpay =>
    obtain ⟨-, hsub, -⟩ := hsound.lifecycle.accepting hacc
    have haccepted : accepted streamId requester action = 1 := by
      rw [accepted, hpay, if_pos ⟨hacc, rfl⟩]
    rw [haccepted]
    exact (h hsend).schedule hsub
  | resume =>
    obtain ⟨hpend, hplaces, hends, hcoming⟩ := h hsend
    rw [accepted_eq_zero rfl]
    refine ⟨hpend, ?_, hends, ?_⟩
    · rw [Subscription.events_resume]
      exact hplaces
    · rw [Subscription.events_resume]
      exact hcoming
  | wait =>
    obtain ⟨hpend, hplaces, hends, hcoming⟩ := h hsend
    rw [accepted_eq_zero rfl]
    exact ⟨hpend, hplaces, hends, hcoming⟩
  | close => cases hsend
  | timeout => cases hsend
  | closed => cases hsend
  | drop _ hstopped =>
    rw [show requester.sending = true from hsend] at hstopped
    cases hstopped
  | @stuck payload rest e hnext =>
    obtain ⟨hpend, hplaces, hends, -⟩ := h hsend
    obtain ⟨hlen, hfrag, -, -, -⟩ := taken_next hsound hnext
    rw [accepted_eq_zero rfl]
    refine ⟨hpend, ?_, hends, fun _ => .inl rfl⟩
    rw [hfrag, if_neg Bool.false_ne_true] at hplaces
    show requester.pending = rest.pause.events.length + requester.held.length +
      if true = true then 1 else 0
    rw [Subscription.events_pause, if_pos rfl]
    omega
  | @cut payload rest fragments hnext hsends hsize hfrags hchunks =>
    obtain ⟨hpend, hplaces, hends, -⟩ := h hsends
    obtain ⟨hlen, hfrag, hnone, hcomp, -⟩ := taken_next hsound hnext
    have hheld : requester.held = [] := hsound.recorded.chunks.mp hchunks
    have hne : fragments ≠ [] :=
      disassemble_ne_nil (length_pos_iff.mp (by omega)) hfrags
    rw [hfrag, if_neg Bool.false_ne_true] at hplaces
    rw [accepted_eq_zero rfl]
    refine tallied_fragmentate hnone hne (Nat.zero_add _) hheld ?_ ?_
    · show requester.pending = (count + 0 : ℕ) - (ends requester.handed : ℤ)
      rw [hpend, hcomp, Nat.add_zero]
    · simp only [Subscription.events_pause, if_true]
      rw [hheld, length_nil] at hplaces
      omega
  | @cutBehind payload rest fragments hnext hsends =>
    obtain ⟨hpend, hplaces, hends, -⟩ := h hsends
    obtain ⟨hlen, hfrag, hnone, hcomp, -⟩ := taken_next hsound hnext
    have hcount := hsound.recorded.count
    rw [hfrag, if_neg Bool.false_ne_true] at hplaces
    rw [accepted_eq_zero rfl]
    refine ⟨?_, ?_, nofun, fun hnil => absurd rfl hnil⟩
    · -- What was held is handed over, and the first fragments wait for it.
      rw [completed_of_callbacks]
      · rw [ends_append, ends_eq_length hends]
        push_cast
        omega
      · rw [hnone]
        exact nofun
    · simp only [Subscription.events_pause, length_nil, if_true]
      omega
  | last => cases hsend
  | @hold payload rest hnext hsends _ hlast _ hmore =>
    obtain ⟨hpend, hplaces, hends, -⟩ := h hsends
    obtain ⟨hlen, hfrag, hnone, hcomp, hframe⟩ := taken_next hsound hnext
    have hcount := hsound.recorded.count
    rw [hfrag, if_neg Bool.false_ne_true] at hplaces
    rw [accepted_eq_zero rfl]
    refine ⟨hpend, ?_, ?_, fun _ => .inr ?_⟩
    · show requester.pending = rest.events.length +
        (requester.held ++ [wholeFrame payload]).length +
        if requester.fragmenting = true then 1 else 0
      rw [hfrag, if_neg Bool.false_ne_true, length_append, length_singleton]
      push_cast
      omega
    · intro frame hmem
      rcases mem_append.mp hmem with hold | hnew
      · exact hends frame hold
      · rw [mem_singleton.mp hnew]
        exact isEnd_wholeFrame hframe hlast
    · -- The buffer would be written if nothing else were pending.
      rw [← length_pos_iff]
      show 0 < rest.events.length
      omega
  | @flush payload rest hnext hsends _ hlast =>
    obtain ⟨hpend, hplaces, hends, -⟩ := h hsends
    obtain ⟨hlen, hfrag, hnone, hcomp, hframe⟩ := taken_next hsound hnext
    have hcount := hsound.recorded.count
    have hwhole : ends [wholeFrame payload] = 1 :=
      ends_eq_length fun frame hmem => by
        rw [mem_singleton.mp hmem]
        exact isEnd_wholeFrame hframe hlast
    rw [hfrag, if_neg Bool.false_ne_true] at hplaces
    rw [accepted_eq_zero rfl]
    refine ⟨?_, ?_, nofun, fun hnil => absurd rfl hnil⟩
    · rw [completed_of_callbacks]
      · rw [ends_append, ends_append, ends_eq_length hends, hwhole]
        push_cast
        omega
      · rw [hnone]
        exact (cons_ne_nil _ _).symm
    · simp only [apply_ite Subscription.events, Subscription.events_pause, ite_self,
        length_nil, hfrag, Bool.false_eq_true, if_false]
      omega
  | @round index callback hcb hmore =>
    rw [fragmentate_eq] at hsend
    obtain ⟨hpend, hplaces, hends, hcoming⟩ := h hsend
    obtain ⟨honly, hnone⟩ := callbacks_eq_singleton hsound.rounds.callbacks hcb
    obtain ⟨hnum, hne, hheld, hcomp⟩ := uncompleted_of_callback hsound.rounds honly hmore
    rw [accepted_eq_zero rfl]
    refine tallied_fragmentate hnone hne hnum hheld ?_ ?_
    · show requester.pending = (count + 0 : ℕ) - (ends requester.handed : ℤ)
      rw [hpend, hcomp, Nat.add_zero]
    · rw [hheld] at hplaces
      exact hplaces
  | finish => cases hsend
  | proceed hcb hmore hlast => exact absurd ⟨hcb, hmore, hlast, hsend⟩ huncut

variable (streamId configuration) in
/-- The last write of a payload that was cut, while the stream goes on. -/
theorem step_done_of_cut (hclosing : requester.closing = false)
    (hcb : requester.callbacks[index]? = some .fragmentateNext)
    (hmore : requester.currentFragmentsCount ≤ requester.currentFragmentNumber)
    (hlast : requester.lastFragments = false) :
    ∃ next, step streamId configuration requester (.done index) = some next ∧
      next.pending = requester.pending ∧ next.sending = requester.sending ∧
      next.handed = requester.handed ∧ next.callbacks = requester.callbacks.eraseIdx index := by
  refine ⟨fragmentateNext streamId configuration { requester with
    callbacks := requester.callbacks.eraseIdx index }, by rw [step, hcb]; rfl, ?_⟩
  rw [fragmentateNext, if_neg (not_lt.mpr hmore), if_neg (by rw [hlast]; exact Bool.false_ne_true)]
  -- `_closing` is false, so nothing is counted down.
  simp only [hclosing, Bool.false_and, Bool.false_eq_true, if_false]
  split_ifs <;> exact ⟨rfl, rfl, rfl, rfl⟩

/-! ## What a run does to the count -/

theorem scheduled_concat (hrun : run (step streamId configuration) start history = some requester)
    (action : RequesterAction) :
    scheduled streamId configuration start (history ++ [action]) =
      scheduled streamId configuration start history + accepted streamId requester action := by
  induction history generalizing start with
  | nil =>
    cases hrun
    rw [nil_append, scheduled, scheduled]
    split <;> rw [Nat.zero_add] <;> rfl
  | cons first history ih =>
    obtain ⟨second, hstep, hrun⟩ := run_cons_eq_some.mp hrun
    rw [cons_append, scheduled, scheduled, hstep]
    dsimp only
    rw [ih hrun, Nat.add_assoc]

theorem tallied_new (chunkSize : ℕ) : Tallied 0 (new chunkSize) :=
  ⟨rfl, rfl, nofun, fun hnil => absurd rfl hnil⟩

/-- In a run without the end of a payload that was cut, the count is right while the requester
sends. -/
theorem tallied_of_uncut {chunkSize : ℕ}
    (huncut : Along (step streamId configuration) Uncut (new chunkSize) actions)
    (hrun : run (step streamId configuration) (new chunkSize) actions = some requester)
    (hsend : requester.sending = true) :
    Tallied (scheduled streamId configuration (new chunkSize) actions) requester := by
  have h := run_induction (fun history requester => Sound streamId requester ∧
      run (step streamId configuration) (new chunkSize) history = some requester ∧
      (requester.sending = true →
        Tallied (scheduled streamId configuration (new chunkSize) history) requester))
    (fun history requester action next hinv hcond hstep => by
      obtain ⟨hsound, hfront, htallied⟩ := hinv
      have hmove := step_move hsound.lifecycle.closing hstep
      refine ⟨sound_step hsound hstep, run_concat hfront hstep, fun hsends => ?_⟩
      rw [scheduled_concat hfront]
      exact tallied_move hsound htallied hcond hmove hsends)
    ⟨sound_new chunkSize, rfl, fun _ => tallied_new chunkSize⟩ huncut hrun
  exact h.2.2 hsend

theorem counted_of_tallied (hsound : Sound streamId requester)
    (h : Tallied (scheduled streamId configuration start actions) requester) :
    Counted streamId configuration start actions requester := by
  refine ⟨h.pending, fun hev hfrag _ => ?_⟩
  by_contra hchunks
  rcases h.coming (fun hheld => hchunks (hsound.recorded.chunks.mpr hheld)) with hcut | hqueue
  · rw [hfrag] at hcut
    cases hcut
  · exact hqueue hev

/-- The end of a payload that was cut is completed and not counted. -/
theorem not_counted_of_cut (hsound : Sound streamId requester)
    (hrun : run (step streamId configuration) start history = some requester)
    (hcounted : Counted streamId configuration start history requester)
    (hcut : ¬Uncut requester (.done index)) :
    ∃ next, step streamId configuration requester (.done index) = some next ∧
      next.sending = true ∧
      ¬Counted streamId configuration start (history ++ [.done index]) next := by
  obtain ⟨hcb, hmore, hlast, hsend⟩ := not_not.mp hcut
  obtain ⟨next, hstep, hpend, hsends, hhand, hcbs⟩ :=
    step_done_of_cut streamId configuration hsound.lifecycle.closing hcb hmore hlast
  obtain ⟨honly, hnone⟩ := callbacks_eq_singleton hsound.rounds.callbacks hcb
  refine ⟨next, hstep, hsends.trans hsend, fun hcounted' => ?_⟩
  have hbefore : requester.completed = ends requester.handed - 1 := by
    rw [completed, if_pos ⟨honly, hmore⟩]
  have hafter : next.completed = ends requester.handed := by
    rw [completed_of_callbacks, hhand]
    rw [hcbs, hnone]
    exact (cons_ne_nil _ _).symm
  -- Nothing was scheduled in between, but one payload more counts as completed.
  have hcount := hcounted.pending
  have hcount' := hcounted'.pending
  rw [scheduled_concat hrun, accepted_eq_zero rfl, hafter, hpend] at hcount'
  rw [hbefore] at hcount
  push_cast at hcount'
  omega

/-- The pending count is right, and no frame stays behind, in every state of a run in which the
requester still sends, if and only if no payload that was cut comes to its end while the stream goes
on. -/
theorem counted_iff_uncut (streamId : ℤ) (configuration : ReactiveChannelConfiguration)
    (chunkSize : ℕ) (actions : List RequesterAction) :
    (∀ front back state, actions = front ++ back →
      run (step streamId configuration) (new chunkSize) front = some state → state.sending = true →
      Counted streamId configuration (new chunkSize) front state) ↔
    Along (step streamId configuration) Uncut (new chunkSize) actions := by
  constructor
  · intro hcounted
    by_contra hcut
    -- The first payload that was cut and ends.
    obtain ⟨front, action, back, state, rfl, -, hfront, hcond⟩ := exists_of_not_along hcut
    have hsound := sound_of_reachable ⟨front, hfront⟩
    cases action with
    | done index =>
      obtain ⟨-, -, -, hsending⟩ := not_not.mp hcond
      obtain ⟨next, hstep, hsends, hnot⟩ := not_counted_of_cut hsound hfront
        (hcounted front _ state rfl hfront hsending) hcond
      refine hnot (hcounted (front ++ [.done index]) back next ?_ (run_concat hfront hstep) hsends)
      rw [List.append_assoc, List.singleton_append]
    | _ => exact hcond trivial
  · rintro huncut front back state rfl hfront hsending
    exact counted_of_tallied (sound_of_reachable ⟨front, hfront⟩)
      (tallied_of_uncut (along_append huncut) hfront hsending)

/-- A payload of two fragments is sent, and a small one after it stays in the buffer with credit
left and nothing else to come. -/
theorem not_counted_behind_cut :
    ∃ requester, run (step 1 ⟨1, 1, 4, 1⟩) (new 64)
        [.schedulePayload [1, 2] false, .resume 10, .deliver, .done 0, .schedulePayload [7] false,
          .deliver] = some requester ∧ requester.sending = true ∧
      ¬Counted 1 ⟨1, 1, 4, 1⟩ (new 64)
        [.schedulePayload [1, 2] false, .resume 10, .deliver, .done 0, .schedulePayload [7] false,
          .deliver] requester := by
  let before := resume 10 (schedulePayload [1, 2] false (new 64))
  let cut := fragmentate 1 ⟨1, 1, 4, 1⟩ { before with
    fragmenting := true
    subscription := ⟨[], 1, false⟩
    currentFragments := [[1], [2]]
    currentFragmentsCount := 2 }
  have hdeliver : step 1 ⟨1, 1, 4, 1⟩ before .deliver = some cut := by
    show some (sendFragments 1 ⟨1, 1, 4, 1⟩ ⟨[1, 2], false, false⟩ _) = _
    rw [sendFragments, disassemble_two]
    rfl
  -- The requester behind the fragments counts one as pending, and so keeps the next frame.
  let behind := fragmentateNext 1 ⟨1, 1, 4, 1⟩ { cut with callbacks := [] }
  refine ⟨send 1 ⟨1, 1, 4, 1⟩ ⟨[7], false, false⟩ { schedulePayload [7] false behind with
    subscription := ⟨[], 0, false⟩ }, ?_, by decide +kernel, fun hcounted => ?_⟩
  · show run (step 1 ⟨1, 1, 4, 1⟩) before [.deliver, .done 0, .schedulePayload [7] false,
      .deliver] = _
    rw [run_cons, hdeliver]
    rfl
  · have hflushed := hcounted.flushed (by decide +kernel) (by decide +kernel) (by decide +kernel)
    exact absurd hflushed (by decide +kernel)

end ReactiveRequester

end FengShui.Reactive
