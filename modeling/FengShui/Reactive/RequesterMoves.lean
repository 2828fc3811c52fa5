import FengShui.Reactive.Requester

/-!
# What a step of the requester does

`Move` lists the paths through the code of `Requester`, each with the conditions under which it is
taken and the state it leads to, and `step_move` says that these are all. Every invariant of the
requester is proved over `Move`, and nothing later unfolds the code.
-/

namespace FengShui.Reactive.ReactiveRequester

/-! ## What a step does -/

section Moves

variable (streamId : ℤ) (configuration : ReactiveChannelConfiguration)

theorem foldl_addFrame (frames : List OutFrame) (requester : ReactiveRequester) :
    frames.foldl (addFrame streamId) requester =
      { requester with
        buffer :=
  frames.foldl (fun buffer frame => buffer.add (frame.bytes streamId)) requester.buffer
        held := requester.held ++ frames } := by
  induction frames generalizing requester with
  | nil => simp
  | cons frame frames ih =>
    rw [List.foldl_cons, ih]
    simp [addFrame]

/-- The frames that `fragmentate` adds. -/
def roundFrames (requester : ReactiveRequester) : List OutFrame :=
  let chunks := min configuration.chunksLimit requester.currentFragments.length
  fragmentFrames (requester.currentFragmentNumber + chunks < requester.currentFragmentsCount)
    requester.lastFragments chunks
    (requester.currentFragmentNumber = 0 && !requester.lastFragments) 0
    (requester.currentFragments.take chunks)

/-- The chunks with the frames of a round. -/
def roundChunks (requester : ReactiveRequester) : List Uint8List :=
  ((requester.roundFrames configuration).foldl
    (fun buffer frame => buffer.add (frame.bytes streamId)) requester.buffer).chunks

theorem clear_foldl_add (frames : List OutFrame) (buffer : ReactiveRequesterBuffer) :
    (frames.foldl (fun buffer frame => buffer.add (frame.bytes streamId)) buffer).clear =
      buffer.clear := by
  induction frames generalizing buffer with
  | nil => rfl
  | cons frame frames ih => rw [List.foldl_cons, ih, ReactiveRequesterBuffer.clear_add]

/-- A round writes the frames that are held and the next fragments. -/
theorem fragmentate_eq (requester : ReactiveRequester) :
    fragmentate streamId configuration requester =
      { requester with
        currentFragmentNumber := requester.currentFragmentNumber +
          min configuration.chunksLimit requester.currentFragments.length
        currentFragments := requester.currentFragments.drop
          (min configuration.chunksLimit requester.currentFragments.length)
        buffer := requester.buffer.clear
        written := requester.written ++
          [.writeMany (requester.roundChunks streamId configuration) true]
        callbacks := requester.callbacks ++ [.fragmentateNext]
        held := []
        handed :=
          requester.handed ++ (requester.held ++ requester.roundFrames configuration) } := by
  unfold fragmentate
  simp only [foldl_addFrame, writeMany, clearBuffer, clear_foldl_add]
  rfl

/-- The payload that a call schedules. -/
def scheduledPayload : RequesterAction → Option ReactivePendingPayload
  | .schedulePayload bytes complete => some ⟨bytes, complete, false⟩
  | .scheduleError message =>
    some ⟨ReactiveWriter.writeErrorFrame streamId ReactiveExceptions.applicationErrorCode message,
      true, true⟩
  | .scheduleCancel => some ⟨ReactiveWriter.writeCancelFrame streamId, true, true⟩
  | _ => none

/-- The credit after a terminal payload or another one is scheduled. -/
def creditScheduled (last : Bool) (requested : ℤ) : ℤ :=
  if last && requested ≠ reactiveInfinityRequestsCount then requested + 1 else requested

/-- The credit after a grant. -/
def creditResumed (count : ℕ) (requested : ℤ) : ℤ :=
  if requested = reactiveInfinityRequestsCount ∨ reactiveInfinityRequestsCount ≤ count then
    reactiveInfinityRequestsCount
  else min (requested + count) reactiveInfinityRequestsCount

/-- The credit after a payload that does not end the stream. -/
def creditSpent (requested : ℤ) : ℤ :=
  if requested = reactiveInfinityRequestsCount then requested else requested - 1

/-- What a step can do, while `_closing` is false (and it always is): each constructor has the
conditions under which the code takes that path, and the state behind it. -/
inductive Move (requester : ReactiveRequester) : RequesterAction → ReactiveRequester → Prop
  /-- A call that finds the requester not accepting. -/
  | refused {action : RequesterAction} (haccepting : requester.accepting = false)
      (hcall : (∃ count, action = .request count) ∨ (scheduledPayload streamId action).isSome) :
      Move requester action requester
  /-- A grant that comes when nothing is sent any more or while fragments are. -/
  | ignored {count : ℕ} (h : requester.sending = false ∨ requester.fragmenting = true) :
      Move requester (.resume count) requester
  | request {count : ℕ} (haccepting : requester.accepting = true) :
      Move requester (.request count) { requester with
        written := requester.written ++
          [.writeSingle (ReactiveWriter.writeRequestNFrame streamId count)]
        handed := requester.handed ++ [.other (ReactiveWriter.writeRequestNFrame streamId count)] }
  | schedule {action : RequesterAction} {payload : ReactivePendingPayload}
      (haccepting : requester.accepting = true)
      (hpayload : scheduledPayload streamId action = some payload) :
      Move requester action { requester with
        accepting := !payload.last
        subscription :=
          if creditScheduled payload.last requester.requested > 0 ∧ requester.fragmenting = false ∧
              requester.sending = true then
            (requester.subscription.add payload).resume
          else requester.subscription.add payload
        pending := requester.pending + 1
        requested := creditScheduled payload.last requester.requested }
  | resume {count : ℕ} (hsending : requester.sending = true)
      (hfragmenting : requester.fragmenting = false) :
      Move requester (.resume count) { requester with
        requested := creditResumed count requester.requested
        subscription := requester.subscription.resume }
  /-- `close` waits for what is pending. -/
  | wait (hpending : requester.pending > 0) :
      Move requester (.close true) { requester with
        accepting := false
        timers := requester.timers + 1 }
  | close {graceful : Bool} (hnow : ¬(graceful = true ∧ requester.pending > 0)) :
      Move requester (.close graceful) (finishClose { requester with accepting := false })
  | timeout (htimers : 0 < requester.timers) :
      Move requester .timeout { requester with
        sending := false
        timers := requester.timers - 1
        waiting := requester.waiting + 1
        closerCompleted := requester.closerCompleted || !requester.fragmenting }
  | closed (hcloser : requester.closerCompleted = true)
      (hwaits : 0 < requester.timers + requester.waiting) :
      Move requester .closed (finishClose { requester with
        waiting := requester.waiting - 1
        timers := if requester.waiting = 0 then requester.timers - 1 else requester.timers })
  /-- A payload that is taken when nothing is sent any more. -/
  | drop {payload : ReactivePendingPayload} {rest : Subscription ReactivePendingPayload}
      (hnext : requester.subscription.next? = some (payload, rest))
      (hsending : requester.sending = false) :
      Move requester .deliver { requester with subscription := rest }
  /-- A payload that `disassemble` does not cut. -/
  | stuck {payload : ReactivePendingPayload} {rest : Subscription ReactivePendingPayload}
      {e : DartException}
      (hnext : requester.subscription.next? = some (payload, rest))
      (hsending : requester.sending = true)
      (hsize : configuration.frameMaxSize < payload.bytes.length)
      (hfragments : ReactiveAssembler.disassemble payload.bytes configuration.fragmentSize =
        .error e) :
      Move requester .deliver { requester with fragmenting := true, subscription := rest.pause }
  /-- A payload that is cut, and the first round of its fragments. -/
  | cut {payload : ReactivePendingPayload} {rest : Subscription ReactivePendingPayload}
      {fragments : List Uint8List}
      (hnext : requester.subscription.next? = some (payload, rest))
      (hsending : requester.sending = true)
      (hsize : configuration.frameMaxSize < payload.bytes.length)
      (hfragments : ReactiveAssembler.disassemble payload.bytes configuration.fragmentSize =
        .ok fragments)
      (hchunks : requester.buffer.chunks = []) :
      Move requester .deliver (fragmentate streamId configuration { requester with
        fragmenting := true
        subscription := rest.pause
        currentFragments := fragments
        currentFragmentNumber := 0
        currentFragmentsCount := fragments.length
        lastFragments := payload.last })
  /-- A payload that is cut, and the write of what the buffer holds before its fragments. -/
  | cutBehind {payload : ReactivePendingPayload} {rest : Subscription ReactivePendingPayload}
      {fragments : List Uint8List}
      (hnext : requester.subscription.next? = some (payload, rest))
      (hsending : requester.sending = true)
      (hsize : configuration.frameMaxSize < payload.bytes.length)
      (hfragments : ReactiveAssembler.disassemble payload.bytes configuration.fragmentSize =
        .ok fragments)
      (hchunks : requester.buffer.chunks ≠ []) :
      Move requester .deliver { requester with
        fragmenting := true
        subscription := rest.pause
        currentFragments := fragments
        currentFragmentNumber := 0
        currentFragmentsCount := fragments.length
        lastFragments := payload.last
        written := requester.written ++ [.writeMany requester.buffer.chunks false]
        callbacks := requester.callbacks ++ [.fragmentate]
        handed := requester.handed ++ requester.held
        pending := requester.pending - requester.buffer.count
        buffer := requester.buffer.clear
        held := [] }
  /-- The payload that ends the stream. -/
  | last {payload : ReactivePendingPayload} {rest : Subscription ReactivePendingPayload}
      (hnext : requester.subscription.next? = some (payload, rest))
      (hsending : requester.sending = true)
      (hsize : payload.bytes.length ≤ configuration.frameMaxSize)
      (hlast : payload.last = true) :
      Move requester .deliver (finishClose { requester with
        accepting := false
        subscription := rest
        written := requester.written ++ [.writeMany
          (requester.buffer.add ((wholeFrame payload).bytes streamId)).chunks true]
        handed := requester.handed ++ (requester.held ++ [wholeFrame payload]) })
  /-- A payload whose frame stays in the buffer. -/
  | hold {payload : ReactivePendingPayload} {rest : Subscription ReactivePendingPayload}
      (hnext : requester.subscription.next? = some (payload, rest))
      (hsending : requester.sending = true)
      (hsize : payload.bytes.length ≤ configuration.frameMaxSize)
      (hlast : payload.last = false)
      (hlimit : requester.buffer.count + 1 < configuration.chunksLimit)
      (hpending : requester.pending - (requester.buffer.count + 1) ≠ 0)
      (hrequested : creditSpent requester.requested ≠ 0) :
      Move requester .deliver { requester with
        subscription := rest
        requested := creditSpent requester.requested
        buffer := requester.buffer.add ((wholeFrame payload).bytes streamId)
        held := requester.held ++ [wholeFrame payload] }
  /-- A payload whose frame is written with those of the buffer. -/
  | flush {payload : ReactivePendingPayload} {rest : Subscription ReactivePendingPayload}
      (hnext : requester.subscription.next? = some (payload, rest))
      (hsending : requester.sending = true)
      (hsize : payload.bytes.length ≤ configuration.frameMaxSize)
      (hlast : payload.last = false)
      (hflush : configuration.chunksLimit ≤ requester.buffer.count + 1 ∨
        requester.pending - (requester.buffer.count + 1) = 0 ∨
          creditSpent requester.requested = 0) :
      Move requester .deliver { requester with
        subscription := if creditSpent requester.requested = 0 then rest.pause else rest
        requested := creditSpent requester.requested
        written := requester.written ++ [.writeMany
          (requester.buffer.add ((wholeFrame payload).bytes streamId)).chunks false]
        handed := requester.handed ++ (requester.held ++ [wholeFrame payload])
        pending := requester.pending - (requester.buffer.count + 1)
        buffer := requester.buffer.clear
        held := [] }
  /-- The next round of fragments. -/
  | round {index : ℕ} {callback : OnDone}
      (hcallback : requester.callbacks[index]? = some callback)
      (hmore : callback = .fragmentate ∨
        requester.currentFragmentNumber < requester.currentFragmentsCount) :
      Move requester (.done index) (fragmentate streamId configuration { requester with
        callbacks := requester.callbacks.eraseIdx index })
  /-- The last fragment of the payload that ends the stream is written. -/
  | finish {index : ℕ}
      (hcallback : requester.callbacks[index]? = some .fragmentateNext)
      (hmore : requester.currentFragmentsCount ≤ requester.currentFragmentNumber)
      (hlast : requester.lastFragments = true) :
      Move requester (.done index) (finishClose { requester with
        accepting := false
        callbacks := requester.callbacks.eraseIdx index })
  /-- The last fragment of another payload is written. -/
  | proceed {index : ℕ}
      (hcallback : requester.callbacks[index]? = some .fragmentateNext)
      (hmore : requester.currentFragmentsCount ≤ requester.currentFragmentNumber)
      (hlast : requester.lastFragments = false) :
      Move requester (.done index) { requester with
        callbacks := requester.callbacks.eraseIdx index
        fragmenting := false
        requested := creditSpent requester.requested
        subscription :=
          if creditSpent requester.requested > 0 then requester.subscription.resume
          else requester.subscription }

variable {streamId configuration} {requester next : ReactiveRequester}

variable {payload : ReactivePendingPayload} {rest : Subscription ReactivePendingPayload}

theorem move_schedule {action : RequesterAction} (hacc : requester.accepting = true)
    (hpay : scheduledPayload streamId action = some payload) :
    Move streamId configuration requester action (schedule payload requester) := by
  have h : Move streamId configuration requester action _ := .schedule hacc hpay
  convert h using 1
  unfold schedule creditScheduled
  dsimp only
  split_ifs <;> simp_all

theorem move_resume (count : ℕ) :
    Move streamId configuration requester (.resume count) (resume count requester) := by
  unfold resume
  split
  · exact .ignored (by simp_all)
  · rename_i h
    have hsend : requester.sending = true := by simp_all
    have hfrag : requester.fragmenting = false := by simp_all
    have hmove : Move streamId configuration requester (.resume count) _ :=
      .resume hsend hfrag
    convert hmove using 1
    unfold creditResumed
    split
    · simp_all
    · split
      · simp_all
      · split_ifs <;> grind

/-- `close` without a timeout. -/
theorem close_eq (hclosing : requester.closing = false) :
    close false requester = finishClose { requester with accepting := false } := by
  rw [close, if_neg (by simp [hclosing])]
  simp

theorem move_close (hclosing : requester.closing = false) (graceful : Bool) :
    Move streamId configuration requester (.close graceful) (close graceful requester) := by
  unfold close
  rw [if_neg (by simp [hclosing])]
  dsimp only
  split
  · rename_i h
    obtain ⟨hpend, rfl⟩ : requester.pending > 0 ∧ graceful = true := by simpa using h
    exact .wait hpend
  · rename_i h
    exact .close fun ⟨hgraceful, hpend⟩ => h (by simp [hgraceful, hpend])

theorem move_sendWhole (hclosing : requester.closing = false)
    (hnext : requester.subscription.next? = some (payload, rest))
    (hsend : requester.sending = true)
    (hsize : payload.bytes.length ≤ configuration.frameMaxSize) (hlast : payload.last = false) :
    Move streamId configuration requester .deliver
      (sendWhole streamId configuration payload { requester with subscription := rest }) := by
  have hfinite : reactiveInfinityRequestsCount ≠ 0 := by decide
  by_cases hflush : configuration.chunksLimit ≤ requester.buffer.count + 1 ∨
      requester.pending - (requester.buffer.count + 1) = 0 ∨ creditSpent requester.requested = 0
  · have h : Move streamId configuration requester .deliver _ :=
      .flush hnext hsend hsize hlast hflush
    convert h using 1
    unfold sendWhole addFrame writeMany clearBuffer creditSpent
    unfold creditSpent at hflush
    split_ifs <;> simp_all
  · obtain ⟨hlimit, hpend, hreq⟩ := by simpa only [not_or, not_le] using hflush
    have h : Move streamId configuration requester .deliver _ :=
      .hold hnext hsend hsize hlast hlimit hpend hreq
    convert h using 1
    unfold sendWhole addFrame creditSpent
    unfold creditSpent at hreq
    split_ifs <;> simp_all

theorem move_send (hclosing : requester.closing = false)
    (hnext : requester.subscription.next? = some (payload, rest)) :
    Move streamId configuration requester .deliver
      (send streamId configuration payload { requester with subscription := rest }) := by
  unfold send
  dsimp only
  split
  · exact .drop hnext (by simp_all)
  · have hsend : requester.sending = true := by simp_all
    split
    · rename_i hsize
      unfold sendFragments
      dsimp only
      cases hfrags : ReactiveAssembler.disassemble payload.bytes configuration.fragmentSize with
      | error e => exact .stuck hnext hsend hsize hfrags
      | ok fragments =>
        dsimp only
        split
        · exact .cut hnext hsend hsize hfrags (by simp_all)
        · exact .cutBehind hnext hsend hsize hfrags (by simp_all)
    · have hsize : payload.bytes.length ≤ configuration.frameMaxSize := by omega
      split
      · rename_i hlast
        have h : Move streamId configuration requester .deliver _ :=
          .last hnext hsend hsize hlast
        convert h using 1
        rw [close_eq (by exact hclosing)]
        simp [writeMany, addFrame, finishClose, clearBuffer]
      · have hlast : payload.last = false := by simp_all
        exact move_sendWhole hclosing hnext hsend hsize hlast

theorem move_onDone (hclosing : requester.closing = false) {index : ℕ} {callback : OnDone}
    (hcb : requester.callbacks[index]? = some callback) :
    Move streamId configuration requester (.done index)
      (onDone streamId configuration callback
        { requester with callbacks := requester.callbacks.eraseIdx index }) := by
  unfold onDone
  cases callback with
  | fragmentate => exact .round hcb (.inl rfl)
  | fragmentateNext =>
    dsimp only
    unfold fragmentateNext
    dsimp only
    split
    · rename_i hmore
      exact .round hcb (.inr hmore)
    · have hmore : requester.currentFragmentsCount ≤ requester.currentFragmentNumber := by omega
      split
      · rename_i hlast
        rw [close_eq (by exact hclosing)]
        exact .finish hcb hmore hlast
      · have h : Move streamId configuration requester (.done index) _ :=
          .proceed hcb hmore (by simp_all)
        have hinf : reactiveInfinityRequestsCount > 0 := by decide
        convert h using 1
        unfold creditSpent
        simp only [hclosing, Bool.false_and, Bool.false_eq_true, if_false]
        split_ifs <;> simp_all

/-- Every step is one of the moves. -/
theorem step_move (hclosing : requester.closing = false) {action : RequesterAction}
    (h : step streamId configuration requester action = some next) :
    Move streamId configuration requester action next := by
  cases action with
  | request count =>
    cases h
    unfold request
    split
    · exact .refused (by simp_all) (.inl ⟨count, rfl⟩)
    · exact .request (by simp_all)
  | schedulePayload bytes complete =>
    cases h
    unfold schedulePayload
    split
    · exact .refused (by simp_all) (.inr rfl)
    · exact move_schedule (by simp_all) rfl
  | scheduleError message =>
    cases h
    unfold scheduleError
    split
    · exact .refused (by simp_all) (.inr rfl)
    · exact move_schedule (by simp_all) rfl
  | scheduleCancel =>
    cases h
    unfold scheduleCancel
    split
    · exact .refused (by simp_all) (.inr rfl)
    · exact move_schedule (by simp_all) rfl
  | resume count =>
    cases h
    exact move_resume count
  | close graceful =>
    cases h
    exact move_close hclosing graceful
  | timeout =>
    rw [step] at h
    split at h
    · rename_i htimers
      cases h
      have hmove : Move streamId configuration requester .timeout _ := .timeout (by simp_all)
      convert hmove using 1
      unfold onTimeout
      cases hfrag : requester.fragmenting <;> simp_all
    · cases h
  | closed =>
    rw [step] at h
    split at h
    · cases h
      exact .closed (by simp_all) (by simp_all)
    · cases h
  | deliver =>
    obtain ⟨⟨payload, rest⟩, hnext, rfl⟩ := Option.map_eq_some_iff.mp h
    exact move_send hclosing hnext
  | done index =>
    obtain ⟨callback, hcb, rfl⟩ := Option.map_eq_some_iff.mp h
    exact move_onDone hclosing hcb

end Moves

end FengShui.Reactive.ReactiveRequester
