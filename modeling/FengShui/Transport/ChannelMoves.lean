import FengShui.Transport.TransportInvariants

/-!
# What a step does to one channel, to the ring and to the queue

`alters_step`, `submits_step` and `waiting_step` are the inversions of a step for one channel, for
the operations that are submitted, and for the calls that wait for a buffer.
-/

namespace FengShui.Transport

open FengShui.Memory State List

/-- The channel whose `close` a step may call; a completion calls it where it has a buffer. -/
def closeTarget (state : State) : Action → Option ℕ
  | .close index _ => some index
  | .closeFailed => state.closes.head?
  | .complete position _ => state.submitted[position]?.bind fun submission =>
    submission.bufferId.map fun _ => submission.call.channel
  | _ => none

/-- A channel before and behind a step. -/
inductive Alters (state : State) (index : ℕ) (before : Channel) : Action → Channel → Prop where
  | keeps (action : Action) : Alters state index before action before
  | closes {action : Action} {target : ℕ} (graceful : Bool)
    (htarget : closeTarget state action = some target)
    (hindex : target = index ∨ before.server = some target) :
    Alters state index before action (before.close graceful)
  | proceeds {action : Action} {call : Call} {bufferIds : List ℕ}
    (hadvances : advances state action = some (call, bufferIds)) (hindex : call.channel = index)
    (hclosing : before.closing = false) (hserver : state.isClosing before = false) :
    Alters state index before action
      { before.register call bufferIds with pending := before.pending + call.count }
  | connects (full : Bool) (hkind : before.kind = .client) (hclosing : before.closing = false) :
    Alters state index before (.connect index full) { before with pending := before.pending + 1 }
  | lowers {position : ℕ} {result : ℤ} {submission : Submission} {lowered : Channel}
    (hsubmission : state.submitted[position]? = some submission)
    (hindex : submission.call.channel = index)
    (hlowered : lowered = before.lower ∨ ∃ bufferId succeeded,
      lowered = before.lower.removeHandler succeeded bufferId) :
    Alters state index before (.complete position result) lowered
  | lowersAndCloses {position : ℕ} {result : ℤ} {submission : Submission}
    (hsubmission : state.submitted[position]? = some submission)
    (hindex : submission.call.channel = index) (hbufferId : submission.bufferId.isSome)
    (hactive : before.active = true) :
    Alters state index before (.complete position result) (before.lower.close false)
  | beginsClose {graceful : Bool} (hstage : before.stage = .connections graceful) :
    Alters state index before (.closedConnections index) (before.beginClose graceful)
  | expires (hstage : before.stage = .awaits true) :
    Alters state index before (.timeout index) { before with active := false }
  | ends {graceful : Bool} (hstage : before.stage = .awaits graceful)
    (hcloser : before.closer = true) :
    Alters state index before (.closed index) { before with active := false, stage := .closed }

section Channels

variable {state next : State} {index : ℕ} {before : Channel}

theorem getElem?_set_of_getElem? {channels : List Channel} {found : Channel}
    (h : channels[index]? = some before) (other : ℕ) :
    (channels.set other found)[index]? = some (if other = index then found else before) := by
  rw [getElem?_set]
  split
  · rename_i heq
    subst heq
    rw [if_pos (List.getElem?_eq_some_iff.mp h).1]
  · exact h

theorem getElem?_close (h : state.channels[index]? = some before) (target : ℕ) (graceful : Bool) :
    (state.close target graceful).channels[index]? = some before ∨
      (target = index ∨ before.server = some target) ∧
        (state.close target graceful).channels[index]? = some (before.close graceful) := by
  unfold State.close
  split
  · exact .inl h
  · split
    · exact .inl h
    · rw [getElem?_mapIdx, h, Option.map_some]
      split
      · rename_i hidx
        exact .inr ⟨hidx.imp Eq.symm id, rfl⟩
      · exact .inl rfl

variable {action : Action}

/-- Where a step closes a channel. -/
theorem alters_close (h : state.channels[index]? = some before) {target : ℕ}
    (htarget : closeTarget state action = some target) (graceful : Bool) :
    ∃ after, (state.close target graceful).channels[index]? = some after ∧
      Alters state index before action after := by
  rcases getElem?_close h target graceful with hkeeps | ⟨hidx, hcloses⟩
  · exact ⟨before, hkeeps, .keeps action⟩
  · exact ⟨_, hcloses, .closes graceful htarget hidx⟩

/-- Where a step sets one channel. -/
theorem alters_set (h : state.channels[index]? = some before) {other : ℕ}
    {channel found : Channel} (hother : state.channels[other]? = some channel)
    (halters : Alters state other channel action found) :
    ∃ after, (state.channels.set other found)[index]? = some after ∧
      Alters state index before action after := by
  refine ⟨_, getElem?_set_of_getElem? h other, ?_⟩
  split
  · rename_i heq
    subst heq
    obtain rfl := Option.some.inj (h.symm.trans hother)
    exact halters
  · exact .keeps action

theorem alters_proceed {call : Call} {bufferIds : List ℕ} {middle : State}
    (h : state.channels[index]? = some before) (hchans : middle.channels = state.channels)
    (hadv : advances state action = some (call, bufferIds)) (full : ℕ → Bool) :
    ∃ after, (middle.proceed full call bufferIds).channels[index]? = some after ∧
      Alters state index before action after := by
  rcases proceed_cases full call bufferIds middle with ⟨heq, -⟩ | ⟨channel, hchan, hclosing, heq⟩
  · rw [heq, hchans]
    exact ⟨before, h, .keeps action⟩
  · rw [heq, hchans]
    rw [hchans] at hchan
    have hsrv : state.isClosing channel = false := by
      unfold isClosing at hclosing ⊢
      rwa [hchans] at hclosing
    exact alters_set h hchan (.proceeds hadv rfl (Bool.or_eq_false_iff.mp hsrv).1 hsrv)

theorem alters_notify {position bufferId : ℕ} {result : ℤ} {submission : Submission}
    {channel : Channel} {middle : State} (h : state.channels[index]? = some before)
    (hsub : state.submitted[position]? = some submission)
    (hchan : state.channels[submission.call.channel]? = some channel)
    (hbuf : submission.bufferId = some bufferId) (hchans : middle.channels = state.channels) :
    ∃ after, (middle.notify submission.call bufferId result channel).channels[index]? = some after ∧
      Alters state index before (.complete position result) after := by
  have hlowers : Alters state submission.call.channel channel (.complete position result)
      channel.lower := .lowers hsub rfl (.inl rfl)
  -- `_pending--` comes first, whatever the rest of `notify` does.
  have hset := alters_set h hchan hlowers
  rw [← hchans] at hset
  unfold notify
  dsimp only
  split
  · rename_i hactive
    split
    · split
      · exact hset
      · split
        · -- The channel is lowered and closes, and what it serves with it.
          have hlowered : (State.release bufferId
              (middle.setChannel submission.call.channel channel.lower)).channels[index]? =
                some (if submission.call.channel = index then channel.lower else before) := by
            refine getElem?_set_of_getElem? ?_ _
            rw [hchans]
            exact h
          rcases getElem?_close hlowered submission.call.channel false with hkeeps | ⟨hidx, hcloses⟩
          · obtain ⟨after, hafter, halters⟩ := hset
            exact ⟨after, hkeeps.trans (hlowered.symm.trans hafter), halters⟩
          · refine ⟨_, hcloses, ?_⟩
            split
            · rename_i heq
              subst heq
              obtain rfl := Option.some.inj (h.symm.trans hchan)
              exact .lowersAndCloses hsub rfl (by rw [hbuf]; rfl) hactive
            · rename_i hne
              rw [if_neg hne] at hidx
              refine .closes false ?_ hidx
              rw [closeTarget, hsub, Option.bind_some, hbuf]
              rfl
        · exact hset
    · split
      · unfold invoke setChannel release
        dsimp only
        rw [set_set, hchans]
        exact alters_set h hchan (.lowers hsub rfl (.inr ⟨bufferId, _, rfl⟩))
      · exact hset
  · exact hset

end Channels

variable {state next : State} {action : Action}

/-- The inversion of a step for one channel. -/
theorem alters_step {index : ℕ} {before : Channel} (hstep : step state action = some next)
    (h : state.channels[index]? = some before) :
    ∃ after, next.channels[index]? = some after ∧ Alters state index before action after := by
  -- A new channel stands behind the others.
  have happend (channel : Channel) : (state.channels ++ [channel])[index]? = some before := by
    rw [getElem?_append_left (List.getElem?_eq_some_iff.mp h).1]
    exact h
  cases step_move hstep with
  | accepted | opened => exact ⟨before, happend _, .keeps _⟩
  | call full hchan =>
    unfold State.call
    dsimp only
    split
    · exact ⟨before, h, .keeps _⟩
    · rename_i hmany
      split
      · rename_i bufferIds buffers hcollect
        -- The call has its buffers at once.
        refine @alters_proceed _ _ _ _ _ _
          { state with buffers := buffers, calls := state.calls + 1 } h rfl ?_ full
        rw [advances, if_neg hmany, hcollect]
        rfl
      · exact ⟨before, h, .keeps _⟩
  | connect full hchan hkind =>
    unfold State.connect
    rw [hchan]
    dsimp only
    split
    · exact ⟨before, h, .keeps _⟩
    · rename_i hclosing
      exact alters_set h hchan (.connects full hkind (Bool.not_eq_true _ ▸ hclosing))
  | @resume call bufferIds buffers full hresume =>
    exact @alters_proceed _ _ _ _ _ _ { state with buffers := buffers } h rfl
      (by rw [advances, hresume]; rfl) full
  | @complete position submission result hsub =>
    unfold State.complete
    cases hchan : state.channels[submission.call.channel]? with
    | none => exact ⟨before, h, .keeps _⟩
    | some channel =>
      dsimp only
      split
      · exact ⟨before, h, .keeps _⟩
      · split
        · exact alters_set h hchan (.lowers hsub rfl (.inl rfl))
        · rename_i bufferId hbuf
          exact alters_notify h hsub hchan hbuf rfl
  | waits | release => exact ⟨before, h, .keeps _⟩
  | close target graceful => exact alters_close h rfl graceful
  | @closeFailed target closes hcloses =>
    rcases @getElem?_close { state with closes := closes } _ _ h target false with
      hkeeps | ⟨hidx, hclosed⟩
    · exact ⟨before, hkeeps, .keeps _⟩
    · exact ⟨_, hclosed, .closes false (by rw [closeTarget, hcloses]; rfl) hidx⟩
  | closedConnections hchan hstage => exact alters_set h hchan (.beginsClose hstage)
  | timeout hchan hstage => exact alters_set h hchan (.expires hstage)
  | closed hchan hstage hcloser => exact alters_set h hchan (.ends hstage hcloser)

/-- A new channel; a connection is of a server that does not close. -/
theorem opened_step {kind : Kind} {server : Option ℕ}
    (h : step state (.opened kind server) = some next) :
    next = { state with channels := state.channels ++ [.create kind server] } ∧
      (kind ≠ .serverConnection → server = none) ∧
      ∀ index, server = some index → ∃ channel, state.channels[index]? = some channel ∧
        channel.kind = .server ∧ channel.closing = false := by
  cases step_move h with
  | accepted hchan hkind hclosing =>
    refine ⟨rfl, fun hne => absurd rfl hne, fun index hidx => ?_⟩
    cases hidx
    exact ⟨_, hchan, hkind, hclosing⟩
  | opened => exact ⟨rfl, fun _ => rfl, nofun⟩

/-- What stays submitted. -/
def remaining (state : State) : Action → List Submission
  | .complete position _ => state.submitted.eraseIdx position
  | _ => state.submitted

/-- What a step hands to the ring. -/
inductive Submits (state : State) (action : Action) : List Submission → Prop where
  | none : Submits state action []
  | connect {index : ℕ} {full : Bool} {channel : Channel} (haction : action = .connect index full)
    (hchannel : state.channels[index]? = some channel) (hkind : channel.kind = .client) :
    Submits state action [⟨⟨state.calls, index, .one .connect false false⟩, 0, Option.none⟩]
  | buffers {call : Call} {bufferIds : List ℕ} {channel : Channel}
    (hadvances : advances state action = some (call, bufferIds))
    (hchannel : state.channels[call.channel]? = some channel)
    (hclosing : state.isClosing channel = false) :
    Submits state action (submissions action.full call bufferIds)

theorem submits_step (hstand : Standing state) (h : step state action = some next) :
    ∃ entries, Submits state action entries ∧ next.requests = state.requests ++ entries ∧
      next.submitted = remaining state action ++ entries := by
  rcases step_cases h with hquiet | ⟨call, bufferIds, middle, hadv, hobtains, rfl⟩ |
    ⟨index, full, channel, rfl, hchan, rfl⟩ |
    ⟨position, result, submission, rfl, hsub, rfl⟩ | ⟨bufferId, -, rfl, rfl⟩
  · have hrem : remaining state action = state.submitted := by
      unfold remaining
      split
      · rename_i position result
        -- A completion takes its entry from the ring.
        cases step_move h with
        | complete _ hsub =>
          obtain ⟨channel, -, hcompletes⟩ := hstand.completes hsub result
          exact hcompletes.submitted.symm.trans hquiet.submitted
      · rfl
    exact ⟨[], .none, by rw [hquiet.requests, append_nil],
      by rw [hquiet.submitted, hrem, append_nil]⟩
  · have hmid := hobtains.middle
    have hrem : remaining state action = state.submitted := by
      cases action with
      | complete => cases hadv
      | _ => rfl
    rw [hrem]
    rcases State.proceed_cases action.full call bufferIds middle with
      ⟨heq, -⟩ | ⟨channel, hchan, hclosing, heq⟩
    · exact ⟨[], .none, by rw [heq, hmid, append_nil], by rw [heq, hmid, append_nil]⟩
    · refine ⟨_, @Submits.buffers _ _ _ _ channel hadv ?_ ?_, by rw [heq, hmid],
        by rw [heq, hmid]⟩
      · rwa [hmid] at hchan
      · rwa [hmid] at hclosing
  · have hkind : channel.kind = .client := by
      cases step_move h with
      | connect _ hfound hkind =>
        obtain rfl := Option.some.inj (hchan.symm.trans hfound)
        exact hkind
    unfold State.connect
    split
    · exact ⟨[], .none, (append_nil _).symm, (append_nil _).symm⟩
    · split
      · exact ⟨[], .none, (append_nil _).symm, (append_nil _).symm⟩
      · dsimp only
        split
        · exact ⟨[], .none, rfl, rfl⟩
        · exact ⟨_, .connect rfl hchan hkind, rfl, rfl⟩
  · obtain ⟨channel, -, hcompletes⟩ := hstand.completes hsub result
    exact ⟨[], .none, by rw [hcompletes.requests, append_nil],
      by rw [hcompletes.submitted, append_nil]; rfl⟩
  · exact ⟨[], .none, (append_nil _).symm, (append_nil _).symm⟩

/-- A step in which no call goes on and nothing connects submits nothing. -/
theorem submitted_step (hstand : Standing state) (h : step state action = some next)
    (hadv : advances state action = none) (hconnect : ∀ index full, action ≠ .connect index full) :
    next.requests = state.requests ∧ next.submitted = remaining state action := by
  obtain ⟨entries, hsubmits, hreqs, hsubm⟩ := submits_step hstand h
  cases hsubmits with
  | none => exact ⟨hreqs.trans (append_nil _), hsubm.trans (append_nil _)⟩
  | connect haction => exact absurd haction (hconnect _ _)
  | buffers hadv' =>
    rw [hadv] at hadv'
    cases hadv'

/-- The call of the step itself. -/
inductive Calls (state : State) : Action → Call → Prop where
  | call {index : ℕ} {member : Member} {channel : Channel} (full : ℕ → Bool)
    (hchannel : state.channels[index]? = some channel) (hkind : channel.kind = member.kind) :
    Calls state (.call index member full) ⟨state.calls, index, member.request⟩

theorem buffers_proceed (full : ℕ → Bool) (call : Call) (bufferIds : List ℕ) (state : State) :
    (state.proceed full call bufferIds).buffers = state.buffers := by
  rcases proceed_cases full call bufferIds state with ⟨heq, -⟩ | ⟨channel, -, -, heq⟩ <;> rw [heq]

/-- Who goes on has waited, or has just called. -/
theorem advances_cases {call : Call} {bufferIds : List ℕ} (h : step state action = some next)
    (hadv : advances state action = some (call, bufferIds)) :
    call ∈ state.buffers.waiting ∨ Calls state action call := by
  cases action with
  | call index member full =>
    cases step_move h with
    | call _ hchan hkind =>
      rw [advances] at hadv
      split at hadv
      · cases hadv
      · obtain ⟨ids, -, hcall⟩ := Option.map_eq_some_iff.mp hadv
        cases hcall
        exact .inr (.call full hchan hkind)
  | resume full =>
    rw [advances] at hadv
    obtain ⟨⟨⟨resumed, ids⟩, buffers⟩, hresume, hmap⟩ := Option.bind_eq_some_iff.mp hadv
    obtain ⟨found, rfl, hcall⟩ := Option.map_eq_some_iff.mp hmap
    cases hcall
    have hwait := state.buffers.waiting_resume hresume
    rw [Option.isSome_some, if_pos rfl] at hwait
    exact .inl (hwait.mem_iff.mp (mem_append_right _ (mem_singleton_self _)))
  | _ => cases hadv

/-- Who waits has waited, or has just called. -/
theorem waiting_step (hstand : Standing state) (h : step state action = some next)
    {call : Call} (hcall : call ∈ next.buffers.waiting) :
    call ∈ state.buffers.waiting ∨ Calls state action call := by
  cases step_move h with
  | call full hchan hkind =>
    have hcalls := Calls.call full hchan hkind
    unfold State.call at hcall
    dsimp only at hcall
    split at hcall
    -- A call for many buffers waits for the first of them.
    · rcases mem_append.mp ((MemoryStaticBuffers.waiting_allocateArray _ _ _).mem_iff.mp hcall)
        with hmem | hmem
      · exact .inl hmem
      · exact .inr (mem_singleton.mp hmem ▸ hcalls)
    · split at hcall <;> rename_i hcollect
      · rw [buffers_proceed] at hcall
        have hwait := state.buffers.waiting_collect hcollect
        rw [Option.isSome_some, if_pos rfl, append_nil] at hwait
        exact .inl (hwait.mem_iff.mp hcall)
      · have hwait := state.buffers.waiting_collect hcollect
        rcases mem_append.mp (hwait.mem_iff.mp hcall) with hmem | hmem
        · exact .inl hmem
        · exact .inr (mem_singleton.mp hmem ▸ hcalls)
  | resume full hresume =>
    rw [buffers_proceed] at hcall
    exact .inl ((state.buffers.waiting_resume hresume).mem_iff.mp (mem_append_left _ hcall))
  | waits full hresume =>
    exact .inl ((state.buffers.waiting_resume hresume).mem_iff.mp (mem_append_left _ hcall))
  | complete result hsub =>
    obtain ⟨channel, -, hcompletes⟩ := hstand.completes hsub result
    exact .inl ((hcompletes.allocations.map Allocation.call).mem_iff.mp hcall)
  | @release bufferId =>
    exact .inl (((state.buffers.allocations_release bufferId).map Allocation.call).mem_iff.mp hcall)
  | connect =>
    unfold State.connect at hcall
    split at hcall
    · exact .inl hcall
    · split at hcall <;> exact .inl hcall
  | close | closeFailed =>
    rw [close_eq] at hcall
    exact .inl hcall
  | accepted | opened | closedConnections | timeout | closed => exact .inl hcall

section Length

variable (state : State)

theorem length_close (index : ℕ) (graceful : Bool) :
    (state.close index graceful).channels.length = state.channels.length := by
  unfold State.close
  split
  · rfl
  · split
    · rfl
    · exact length_mapIdx

theorem length_proceed (full : ℕ → Bool) (call : Call) (bufferIds : List ℕ) :
    (state.proceed full call bufferIds).channels.length = state.channels.length := by
  rcases proceed_cases full call bufferIds state with ⟨heq, -⟩ | ⟨channel, -, -, heq⟩ <;> rw [heq]
  exact length_set

theorem length_notify (call : Call) (bufferId : ℕ) (result : ℤ) (channel : Channel) :
    (state.notify call bufferId result channel).channels.length = state.channels.length := by
  have hset (found : Channel) : (state.setChannel call.channel found).channels.length =
      state.channels.length := length_set
  unfold notify
  dsimp only
  split
  · split
    · split
      · exact hset _
      · split
        · exact (length_close _ _ _).trans (hset _)
        · exact hset _
    · split
      · exact length_set.trans (hset _)
      · exact hset _
  · exact hset _

end Length

/-- Only `opened` makes a channel. -/
theorem length_step (h : step state action = some next)
    (haction : ∀ kind server, action ≠ .opened kind server) :
    next.channels.length = state.channels.length := by
  cases step_move h with
  | accepted | opened => exact absurd rfl (haction _ _)
  | call =>
    unfold State.call
    dsimp only
    split
    · rfl
    · split
      -- No other step appends to the channels.
      · exact length_proceed _ _ _ _
      · rfl
  | connect =>
    unfold State.connect
    split
    · rfl
    · split
      · rfl
      · exact length_set
  | resume => exact length_proceed _ _ _ _
  | complete =>
    unfold State.complete
    split
    · rfl
    · split
      · rfl
      · split
        · exact length_set
        · exact length_notify _ _ _ _ _
  | waits | release => rfl
  | close | closeFailed => exact length_close _ _ _
  | closedConnections | timeout | closed => exact length_set

end FengShui.Transport
