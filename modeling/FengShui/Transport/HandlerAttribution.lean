import FengShui.Transport.Conservation

/-!
# Whose handler a completion calls (`client.dart`, `server.dart` and `file.dart` of `transport`)

Handlers are kept under the id of the buffer, and a completion removes the one of its outcome only.
The other stays for whoever has the buffer next, and is called there if that call gave no handler
for its outcome (`attributed_false`). As long as every completion finds the handler of its own call,
or none, no handler of another call is called.
-/

namespace FengShui.Transport

open FengShui.Memory FengShui.Transition State List

/-- A completion calls nothing but the handler that its own call gave for its outcome. -/
def Attributed (state : State) : Prop :=
  ∀ invocation ∈ state.invoked, invocation.handler = invocation.call.number

/-- Whether a request came with the handler for an outcome. -/
def Request.gives (request : Request) (succeeded : Bool) : Bool :=
  if succeeded then request.onDone else request.onError

/-- A completed write or send that came without the handler for its outcome finds none that an
earlier one left under its id. -/
def FindsOwn (state : State) (action : Action) : Prop :=
  ∀ position result, action = .complete position result →
    ∀ submission bufferId channel, state.submitted[position]? = some submission →
      submission.bufferId = some bufferId →
      state.channels[submission.call.channel]? = some channel → channel.active = true →
      submission.call.request.event ∈ channel.kind.notifier.writes →
      submission.call.request.gives (channel.kind.notifier.succeeds result) = false →
      (channel.handlers (channel.kind.notifier.succeeds result)).get? bufferId = none

/-- The handlers that were given are there until the completion. -/
def Registered (state : State) : Prop :=
  ∀ submission ∈ state.submitted, ∀ bufferId, submission.bufferId = some bufferId →
    ∀ channel, state.channels[submission.call.channel]? = some channel →
      ∀ succeeded, submission.call.request.gives succeeded = true →
        (channel.handlers succeeded).get? bufferId = some submission.call.number

namespace Channel

theorem get?_setAll (given : Bool) (call : ℕ) (bufferIds : List ℕ) (handlers : DartMap ℕ ℕ)
    (bufferId : ℕ) :
    (setAll given call bufferIds handlers).get? bufferId =
      if given = true ∧ bufferId ∈ bufferIds then some call else handlers.get? bufferId := by
  unfold setAll
  cases given with
  | false => simp
  | true =>
    rw [if_pos rfl]
    simp only [true_and]
    induction bufferIds generalizing handlers with
    | nil => simp
    | cons first bufferIds ih =>
      rw [foldl_cons, ih]
      by_cases hfirst : bufferId = first
      · subst hfirst
        rw [DartMap.get?_set_self, if_pos mem_cons_self]
        split <;> rfl
      · rw [DartMap.get?_set_of_ne handlers first hfirst]
        simp [hfirst]

theorem get?_handlers_register (call : Call) (bufferIds : List ℕ) (channel : Channel)
    (succeeded : Bool) (bufferId : ℕ) :
    ((channel.register call bufferIds).handlers succeeded).get? bufferId =
      if call.request.gives succeeded = true ∧ bufferId ∈ bufferIds then some call.number
      else (channel.handlers succeeded).get? bufferId := by
  cases succeeded with
  | true =>
    exact get?_setAll call.request.onDone call.number bufferIds channel.doneHandlers bufferId
  | false =>
    exact get?_setAll call.request.onError call.number bufferIds channel.errorHandlers bufferId

theorem Closes.handlers {before after : Channel} (h : before.Closes after) (succeeded : Bool) :
    after.handlers succeeded = before.handlers succeeded := by
  unfold Channel.handlers
  rw [h.doneHandlers, h.errorHandlers]

theorem get?_removeHandler_of_ne {bufferId other : ℕ} (h : other ≠ bufferId) (channel : Channel)
    (removed succeeded : Bool) :
    ((channel.removeHandler removed bufferId).handlers succeeded).get? other =
      (channel.handlers succeeded).get? other := by
  cases removed <;> cases succeeded <;> first
    | rfl
    | exact DartMap.get?_remove_of_ne _ bufferId h

end Channel

section Step

variable {state next : State}

/-- The channels of entries are there before channels are closed and added. -/
theorem registered_of_grows {channels : List Channel} {submitted : List Submission}
    (hgrows : Grows channels next.channels) (hsubm : next.submitted = submitted)
    (hchans : ∀ submission ∈ submitted, submission.call.channel < channels.length)
    (h : ∀ submission ∈ submitted, ∀ bufferId, submission.bufferId = some bufferId →
      ∀ channel, channels[submission.call.channel]? = some channel →
        ∀ succeeded, submission.call.request.gives succeeded = true →
          (channel.handlers succeeded).get? bufferId = some submission.call.number) :
    Registered next := by
  subst hsubm
  intro submission hmem bufferId hbuf channel hchan succeeded hgives
  rcases hgrows.2 _ channel hchan with ⟨before, hbefore, hcloses⟩ | ⟨-, -, hnone, -⟩
  · rw [hcloses.handlers]
    exact h submission hmem bufferId hbuf before hbefore succeeded hgives
  · have hlt := hchans submission hmem
    have hle := List.getElem?_eq_none_iff.mp hnone
    omega

variable {submission : Submission} {position : ℕ}

theorem mem_bufferIds {bufferId : ℕ} (hmem : submission ∈ state.submitted)
    (hbuf : submission.bufferId = some bufferId) : bufferId ∈ state.placed :=
  mem_append_right _ (mem_append_left _
    (mem_filterMap.mpr ⟨submission, hmem, hbuf⟩))

/-- A call that goes on leaves the handlers of the other ids alone. -/
theorem registered_proceed {call : Call} {bufferIds : List ℕ} (full : ℕ → Bool)
    (hnodup : (state.placed ++ bufferIds).Nodup) (h : Registered state) :
    Registered (state.proceed full call bufferIds) := by
  rcases proceed_cases full call bufferIds state with ⟨heq, -⟩ | ⟨channel, hchan, -, heq⟩
  · rw [heq]
    exact h
  · rw [heq]
    intro submission hmem bufferId hbuf found hfound succeeded hgives
    dsimp only at hmem hfound
    -- To count the call does not touch the handlers.
    have hregister (id : ℕ) :
        (({ channel.register call bufferIds with
          pending := channel.pending + call.count } : Channel).handlers succeeded).get? id =
            ((channel.register call bufferIds).handlers succeeded).get? id := rfl
    rcases mem_append.mp hmem with hmem | hmem
    · -- An entry from before has another id.
      have hother : bufferId ∉ bufferIds := fun hin =>
        (nodup_append.mp hnodup).2.2 bufferId (mem_bufferIds hmem hbuf) bufferId hin rfl
      rw [getElem?_set] at hfound
      split at hfound
      · rename_i hsame
        split at hfound
        · cases hfound
          rw [hregister, Channel.get?_handlers_register, if_neg fun hin => hother hin.2]
          exact h submission hmem bufferId hbuf channel (hsame ▸ hchan) succeeded hgives
        · cases hfound
      · exact h submission hmem bufferId hbuf found hfound succeeded hgives
    · obtain ⟨⟨id, index⟩, hent, rfl⟩ := mem_map.mp hmem
      cases hbuf
      have hin := fst_mem_of_mem_zipIdx (mem_of_mem_filter hent)
      rw [getElem?_set_self (List.getElem?_eq_some_iff.mp hchan).1] at hfound
      cases hfound
      rw [hregister, Channel.get?_handlers_register, if_pos ⟨hgives, hin⟩]

theorem registered_connect (h : Registered state) (index : ℕ) (full : Bool) :
    Registered (state.connect index full) := by
  unfold State.connect
  split
  · exact h
  · rename_i channel hchan
    split
    · exact h
    · intro submission hmem bufferId hbuf found hfound succeeded hgives
      dsimp only at hmem hfound
      rcases mem_append.mp hmem with hmem | hmem
      · rw [getElem?_set] at hfound
        split at hfound
        · rename_i hsame
          split at hfound
          · cases hfound
            exact h submission hmem bufferId hbuf channel (hsame ▸ hchan) succeeded hgives
          · cases hfound
        · exact h submission hmem bufferId hbuf found hfound succeeded hgives
      · split at hmem
        · cases hmem
        · rw [mem_singleton.mp hmem] at hbuf
          cases hbuf

/-- The other entries have other ids than the one that completes. -/
theorem ne_of_eraseIdx {other : Submission} {bufferId id : ℕ} (hnodup : state.placed.Nodup)
    (hsub : state.submitted[position]? = some submission)
    (hbuf : submission.bufferId = some bufferId)
    (hother : other ∈ state.submitted.eraseIdx position) (hid : other.bufferId = some id) :
    id ≠ bufferId := by
  obtain ⟨hpos, rfl⟩ := List.getElem?_eq_some_iff.mp hsub
  have hids : (state.submitted.filterMap Submission.bufferId).Nodup :=
    (nodup_append.mp (nodup_append.mp hnodup).2.1).1
  have hperm := (getElem_cons_eraseIdx_perm hpos).filterMap Submission.bufferId
  rw [filterMap_bufferId_cons, hbuf] at hperm
  have hfirst := (nodup_cons.mp (hperm.nodup_iff.mpr hids)).1
  rintro rfl
  exact hfirst (mem_filterMap.mpr ⟨other, hother, hid⟩)

theorem registered_complete {channel : Channel} {result : ℤ} (hstand : Standing state)
    (hnodup : state.placed.Nodup) (h : Registered state)
    (hsub : state.submitted[position]? = some submission)
    (hchan : state.channels[submission.call.channel]? = some channel)
    (hcompletes : Completes { state with submitted := state.submitted.eraseIdx position } submission
      result channel next) : Registered next := by
  have hlt (other : Submission) (hother : other ∈ state.submitted.eraseIdx position) :
      other.call.channel < state.channels.length :=
    hstand.submitted other (mem_of_mem_eraseIdx hother)
  -- It is enough that the handlers of the other operations stay.
  have hkeeps (lowered : Channel)
      (hlowered : ∀ other ∈ state.submitted.eraseIdx position, ∀ id, other.bufferId = some id →
        ∀ succeeded, (lowered.handlers succeeded).get? id = (channel.handlers succeeded).get? id)
      (hgrows : Grows (state.channels.set submission.call.channel lowered) next.channels) :
      Registered next := by
    refine registered_of_grows hgrows hcompletes.submitted (fun other hother => ?_)
      fun other hother id hid found hfound succeeded hgives => ?_
    · rw [length_set]
      exact hlt other hother
    · have hbefore := h other (mem_of_mem_eraseIdx hother) id hid
      rw [getElem?_set] at hfound
      split at hfound
      · rename_i hsame
        split at hfound
        · cases hfound
          rw [hlowered other hother id hid]
          exact hbefore channel (hsame ▸ hchan) succeeded hgives
        · cases hfound
      · exact hbefore found hfound succeeded hgives
  cases hcompletes.outcome with
  | silent hinvoked hgrows =>
    refine hkeeps _ (fun other hother id hid succeeded => ?_) hgrows
    rw [Channel.handlers_lower]
  | invokes bufferId hbuf hactive hwrites hinvoked hgrows =>
    refine hkeeps _ (fun other hother id hid succeeded => ?_) hgrows
    have hne := ne_of_eraseIdx hnodup hsub hbuf hother hid
    rw [Channel.get?_removeHandler_of_ne hne, Channel.handlers_lower]

/-- A completion that finds its own handler or none calls no other. -/
theorem attributed_complete {channel : Channel} {result : ℤ} (hreg : Registered state)
    (h : Attributed state) (hfinds : FindsOwn state (.complete position result))
    (hsub : state.submitted[position]? = some submission)
    (hchan : state.channels[submission.call.channel]? = some channel)
    (hcompletes : Completes { state with submitted := state.submitted.eraseIdx position } submission
      result channel next) : Attributed next := by
  cases hcompletes.outcome with
  | silent hinvoked hgrows =>
    intro invocation hmem
    rw [hinvoked] at hmem
    exact h invocation hmem
  | invokes bufferId hbuf hactive hwrites hinvoked hgrows =>
    intro invocation hmem
    rw [hinvoked] at hmem
    rcases mem_append.mp hmem with hmem | hmem
    · exact h invocation hmem
    · obtain ⟨handler, hhandler, rfl⟩ := mem_map.mp hmem
      rw [Option.mem_toList] at hhandler
      cases hgives : submission.call.request.gives (channel.kind.notifier.succeeds result) with
      | true =>
        have hown := hreg submission (mem_of_getElem? hsub) bufferId hbuf
          channel hchan _ hgives
        exact Option.some.inj (hhandler.symm.trans hown)
      | false =>
        have hnone := hfinds position result rfl submission bufferId channel hsub hbuf
          hchan hactive hwrites hgives
        cases hhandler.symm.trans hnone

end Step

/-- What a run whose completions find their own handlers keeps. -/
structure Own (state : State) : Prop where
  standing : Standing state
  nodup : state.placed.Nodup
  registered : Registered state
  attributed : Attributed state

theorem own_create (capacity : ℕ) : Own (create capacity) where
  standing := standing_create capacity
  nodup := (placed_create capacity).nodup_iff.mpr nodup_range
  registered _ h := by cases h
  attributed _ h := by cases h

theorem invoked_proceed (full : ℕ → Bool) (call : Call) (bufferIds : List ℕ) (state : State) :
    (state.proceed full call bufferIds).invoked = state.invoked := by
  unfold State.proceed
  split
  · rfl
  · split <;> rfl

theorem invoked_connect (index : ℕ) (full : Bool) (state : State) :
    (state.connect index full).invoked = state.invoked := by
  unfold State.connect
  split
  · rfl
  · split <;> rfl

variable {state next : State} {action : Action}

/-- No two places hold one buffer. -/
theorem nodup_step (hstand : Standing state) (hnodup : state.placed.Nodup)
    (hstep : step state action = some next) : next.placed.Nodup := by
  obtain ⟨lost, hperm, -⟩ := placed_step hstand hstep
  exact (nodup_append.mp (hperm.nodup_iff.mpr hnodup)).1

theorem registered_step (hstand : Standing state) (hnodup : state.placed.Nodup)
    (h : Registered state) (hstep : step state action = some next) : Registered next := by
  rcases step_cases hstep with hquiet | ⟨call, bufferIds, middle, -, hobtains, rfl⟩ |
    ⟨index, full, channel, -, -, rfl⟩ | ⟨position, result, submission, rfl, hsub, rfl⟩ |
    ⟨bufferId, -, -, rfl⟩
  · exact registered_of_grows hquiet.grows hquiet.submitted hstand.submitted h
  · have hmid : Registered middle := by
      rw [hobtains.middle]
      exact h
    exact registered_proceed _ ((placed_obtains hobtains).nodup_iff.mpr hnodup) hmid
  · exact registered_connect h index full
  · obtain ⟨channel, hchan, hcompletes⟩ := hstand.completes hsub result
    exact registered_complete hstand hnodup h hsub hchan hcompletes
  · exact h

/-- In every state the handlers of what is submitted are there. -/
theorem registered_of_reachable {capacity : ℕ} (h : Reachable step (create capacity) state) :
    Registered state := by
  have hkeeps := h.invariant (fun state => Standing state ∧ state.placed.Nodup ∧ Registered state)
    ⟨standing_create capacity, (placed_create capacity).nodup_iff.mpr nodup_range,
      nofun⟩
    fun _ _ _ ⟨hstand, hnodup, hreg⟩ hstep => ⟨hstand.step hstep,
      nodup_step hstand hnodup hstep, registered_step hstand hnodup hreg hstep⟩
  exact hkeeps.2.2

theorem Own.step (h : Own state) (hfinds : FindsOwn state action)
    (hstep : step state action = some next) : Own next := by
  refine ⟨h.standing.step hstep, nodup_step h.standing h.nodup hstep,
    registered_step h.standing h.nodup h.registered hstep, ?_⟩
  rcases step_cases hstep with hquiet | ⟨call, bufferIds, middle, -, hobtains, rfl⟩ |
    ⟨index, full, channel, -, -, rfl⟩ | ⟨position, result, submission, rfl, hsub, rfl⟩ |
    ⟨bufferId, -, -, rfl⟩
  · unfold Attributed
    rw [hquiet.invoked]
    exact h.attributed
  · have hmid : middle.invoked = state.invoked := by rw [hobtains.middle]
    unfold Attributed
    rw [invoked_proceed, hmid]
    exact h.attributed
  · unfold Attributed
    rw [invoked_connect]
    exact h.attributed
  · obtain ⟨channel, hchan, hcompletes⟩ := h.standing.completes hsub result
    exact attributed_complete h.registered h.attributed hfinds hsub hchan hcompletes
  · exact h.attributed

/-- In every run in which no completion finds a handler that was left behind, completions call the
handlers of their own calls only. -/
theorem attributed_of_findsOwn (capacity : ℕ) (actions : List Action) {state : State}
    (halong : Along step FindsOwn (create capacity) actions)
    (hrun : run step (create capacity) actions = some state) : Attributed state :=
  (run_induction (fun _ => Own) (fun _ _ _ _ hinv hfinds hstep => hinv.step hfinds hstep)
    (own_create capacity) halong hrun).attributed

/-- A write with both handlers, and its completion. -/
theorem attributed_of_findsOwn_write :
    ∃ state, run step (create 1)
      [.opened .client none, .call 0 (.clientWriteSingle [7] true true) fun _ => false,
        .complete 0 1] = some state ∧ state.invoked ≠ [] ∧ Attributed state := by
  refine ⟨_, rfl, List.cons_ne_nil _ _, attributed_of_findsOwn 1
    [.opened .client none, .call 0 (.clientWriteSingle [7] true true) fun _ => false,
      .complete 0 1] ?_ rfl⟩
  refine (along_cons_of_step rfl).mpr ⟨nofun, ?_⟩
  refine (along_cons_of_step rfl).mpr ⟨nofun, ?_⟩
  refine (along_cons_of_step rfl).mpr ⟨fun position result h submission bufferId channel
    hsubmission hbufferId hchannel _ _ hgives => ?_, trivial⟩
  obtain ⟨rfl, rfl⟩ := Action.complete.inj h
  cases hsubmission
  cases hchannel
  cases hgives

/-- A write with both handlers succeeds; the next write gave none and fails: the `onError` of the
first is called. -/
theorem attributed_false : ¬∀ state, Reachable step (create 1) state → Attributed state := by
  intro h
  have hwrites := h _ ⟨[.opened .client none,
    .call 0 (.clientWriteSingle [7] true true) fun _ => false, .complete 0 1,
    .call 0 (.clientWriteSingle [8] false false) fun _ => false, .complete 0 (-104)], rfl⟩
  have hfirst := hwrites ⟨⟨1, 0, TransportClientChannel.writeSingle [8] false false⟩, false, 0⟩
    (by decide)
  cases hfirst

end FengShui.Transport
