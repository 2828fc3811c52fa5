import FengShui.Transport.Transport

/-!
# What a step of the transport can do

`step_move` is the inversion of a step: what it does, to which call or channel, under which of its
guards. `step_cases` is what that means to the books: a step is quiet for the ring, the payloads and
the channels, or a call goes on with its buffers, or connects, or a completion arrives, or a payload
is released.
-/

namespace FengShui.Transport

open FengShui.Memory FengShui.Transition List

namespace Channel

/-- What `close` and what comes behind it do to a channel. -/
structure Closes (before after : Channel) : Prop where
  pending : after.pending = before.pending
  errorHandlers : after.errorHandlers = before.errorHandlers
  doneHandlers : after.doneHandlers = before.doneHandlers
  closing : before.closing = true → after.closing = true
  closer : after.closer = before.closer
  active : after.active = false →
    before.active = false ∨ after.closing = true ∨ before.stage ≠ .opened
  opened : after.stage ≠ .opened → before.stage ≠ .opened ∨ after.closing = true
  awaits : ∀ graceful, after.stage = .awaits graceful →
    before.stage = .awaits graceful ∨ 0 < before.pending
  closed : after.stage = .closed →
    before.stage = .closed ∨ before.closer = true ∨
      ((after.closing = true ∨ before.stage ≠ .opened) ∧ before.pending ≤ 0)

variable {channel : Channel}

theorem Closes.refl (channel : Channel) : Closes channel channel :=
  ⟨rfl, rfl, rfl, id, rfl, .inl, .inl, fun _ => .inl, .inl⟩

theorem closes_beginClose (graceful : Bool) (h : channel.closing = true ∨ channel.stage ≠ .opened) :
    Closes channel (channel.beginClose graceful) := by
  unfold beginClose
  split
  · rename_i hpend
    exact ⟨rfl, rfl, rfl, id, rfl, fun _ => .inr h, fun _ => h.symm, fun _ _ => .inr hpend,
      nofun⟩
  · rename_i hpend
    exact ⟨rfl, rfl, rfl, id, rfl, fun _ => .inr h, fun _ => h.symm, nofun,
      fun _ => .inr (.inr ⟨h, not_lt.mp hpend⟩)⟩

theorem closes_close (graceful : Bool) : Closes channel (channel.close graceful) := by
  unfold close
  split
  · exact .refl channel
  · split
    · exact ⟨rfl, rfl, rfl, fun _ => rfl, rfl, .inl, fun _ => .inr rfl, nofun,
        nofun⟩
    · have hclosing : Closes { channel with closing := true }
          (beginClose graceful { channel with closing := true }) :=
            closes_beginClose graceful (.inl rfl)
      have htrue : (beginClose graceful { channel with closing := true }).closing = true :=
        hclosing.closing rfl
      exact ⟨hclosing.pending, hclosing.errorHandlers, hclosing.doneHandlers, fun _ => htrue,
        hclosing.closer, fun _ => .inr (.inl htrue), fun _ => .inr htrue, hclosing.awaits,
        fun h => (hclosing.closed h).imp id (Or.imp id fun h => ⟨.inl htrue, h.2⟩)⟩

end Channel

namespace State

/-- Every id that is somewhere. -/
def placed (state : State) : List ℕ :=
  state.buffers.placed ++ (state.submitted.filterMap Submission.bufferId ++ state.delivered)

/-- The one list has the channels of the other, and new ones behind them. -/
def Grows (channels next : List Channel) : Prop :=
  channels.length ≤ next.length ∧
    ∀ (index : ℕ) (after : Channel), next[index]? = some after →
      (∃ before : Channel, channels[index]? = some before ∧ before.Closes after) ∨
        ∃ kind server, channels[index]? = none ∧ after = Channel.create kind server

/-- The calls that a step adds to those before it. -/
structure Starts (state : State) (calls : ℕ) (started : List Call) : Prop where
  length : started.length ≤ 1
  calls : calls = state.calls + started.length
  numbers : ∀ call ∈ started, call.number = state.calls
  channels : ∀ call ∈ started, call.channel < state.channels.length

/-- A step that leaves the ring, the payloads and the books of the channels as they are. -/
structure Quiet (state next : State) : Prop where
  placed : next.buffers.placed.Perm state.buffers.placed
  started : ∃ started, Starts state next.calls started ∧
    next.buffers.waiting.Perm (state.buffers.waiting ++ started)
  whole : state.buffers.Whole Call.count → next.buffers.Whole Call.count
  submitted : next.submitted = state.submitted
  delivered : next.delivered = state.delivered
  requests : next.requests = state.requests
  invoked : next.invoked = state.invoked
  grows : Grows state.channels next.channels

/-- A call gets its buffers and goes on in the state `middle`. -/
structure Obtains (state : State) (call : Call) (bufferIds : List ℕ) (middle : State) : Prop where
  placed : (middle.buffers.placed ++ bufferIds).Perm state.buffers.placed
  started : ∃ started, Starts state middle.calls started ∧
    (call :: middle.buffers.waiting).Perm (state.buffers.waiting ++ started)
  whole : state.buffers.Whole Call.count →
    middle.buffers.Whole Call.count ∧ bufferIds.length = call.count
  middle : middle = { state with buffers := middle.buffers, calls := middle.calls }

section Grows

theorem grows_refl (channels : List Channel) : Grows channels channels :=
  ⟨le_rfl, fun _ after hafter => .inl ⟨after, hafter, .refl after⟩⟩

theorem grows_set {channels : List Channel} {index : ℕ} {channel after : Channel}
    (h : channels[index]? = some channel) (hcloses : channel.Closes after) :
    Grows channels (channels.set index after) := by
  refine ⟨by rw [length_set], fun other found hfound => .inl ?_⟩
  rw [getElem?_set] at hfound
  split at hfound
  · rename_i heq
    subst heq
    split at hfound
    · rw [← Option.some.inj hfound]
      exact ⟨channel, h, hcloses⟩
    · cases hfound
  · exact ⟨found, hfound, .refl found⟩

theorem grows_close (index : ℕ) (graceful : Bool) (state : State) :
    Grows state.channels (state.close index graceful).channels := by
  unfold close
  split
  · exact grows_refl _
  · split
    · exact grows_refl _
    · refine ⟨by rw [length_mapIdx], fun other after hafter => .inl ?_⟩
      rw [getElem?_mapIdx] at hafter
      obtain ⟨before, hbefore, rfl⟩ := Option.map_eq_some_iff.mp hafter
      refine ⟨before, hbefore, ?_⟩
      split
      · exact Channel.closes_close graceful
      · exact .refl before

theorem grows_append (kind : Kind) (server : Option ℕ) (channels : List Channel) :
    Grows channels (channels ++ [.create kind server]) := by
  refine ⟨by rw [length_append]; exact Nat.le_add_right _ _, fun index after hafter => ?_⟩
  rcases getElem?_concat_eq_some.mp hafter with hafter | ⟨rfl, rfl⟩
  · exact .inl ⟨after, hafter, .refl after⟩
  · exact .inr ⟨kind, server, getElem?_eq_none le_rfl, rfl⟩

end Grows

theorem starts_nil (state : State) : Starts state state.calls [] :=
  ⟨Nat.zero_le 1, rfl, nofun, nofun⟩

/-- Only channels are changed. -/
theorem quiet_of_channels {state : State} {channels : List Channel} (closes : List ℕ)
    (h : Grows state.channels channels) :
    Quiet state { state with channels := channels, closes := closes } where
  placed := .rfl
  started := ⟨[], starts_nil state, .of_eq (append_nil _).symm⟩
  whole := id
  submitted := rfl
  delivered := rfl
  requests := rfl
  invoked := rfl
  grows := h

theorem close_eq (index : ℕ) (graceful : Bool) (state : State) :
    state.close index graceful =
      { state with channels := (state.close index graceful).channels } := by
  unfold close
  split
  · rfl
  · split <;> rfl

theorem quiet_close (index : ℕ) (graceful : Bool) (closes : List ℕ) (state : State) :
    Quiet state (State.close index graceful { state with closes := closes }) := by
  rw [close_eq]
  exact quiet_of_channels closes (grows_close index graceful { state with closes := closes })

variable {channel : Channel}

/-- A call that is new, on a channel that there is. -/
theorem starts_call {state : State} {index : ℕ} (h : state.channels[index]? = some channel)
    (request : Request) : Starts state (state.calls + 1) [⟨state.calls, index, request⟩] where
  length := le_rfl
  calls := rfl
  numbers call hcall := by rw [mem_singleton.mp hcall]
  channels call hcall := by
    rw [mem_singleton.mp hcall]
    exact (List.getElem?_eq_some_iff.mp h).1

/-- A member waits for its buffers, or goes on with them at once. -/
theorem call_cases {state : State} {index : ℕ} (h : state.channels[index]? = some channel)
    {request : Request} (hone : request.many = false → request.count = 1) (full : ℕ → Bool) :
    Quiet state (state.call index request full) ∨
      ∃ call bufferIds middle, request.many = false ∧ call = ⟨state.calls, index, request⟩ ∧
        (state.buffers.getOrAllocate call).1 = some bufferIds ∧
        Obtains state call bufferIds middle ∧
        state.call index request full = middle.proceed full call bufferIds := by
  unfold call
  dsimp only
  split
  · refine .inl ⟨state.buffers.perm_allocateArray _ _, ⟨_, starts_call h request, ?_⟩, ?_, rfl, rfl,
      rfl, rfl, grows_refl _⟩
    · exact state.buffers.waiting_allocateArray _ _
    · exact fun hwhole => hwhole.allocateArray ⟨state.calls, index, request⟩
  -- A call for one buffer has it, or waits.
  · rename_i hmany
    have hcount : ([] : List ℕ).length + 1 = Call.count ⟨state.calls, index, request⟩ :=
      (hone (Bool.not_eq_true _ ▸ hmany)).symm
    split <;> rename_i hcollect
    · have hperm := state.buffers.perm_collect hcollect
      have hwait := state.buffers.waiting_collect hcollect
      rw [append_nil] at hperm
      refine .inr ⟨_, _, _, Bool.not_eq_true _ ▸ hmany, rfl, congrArg Prod.fst hcollect,
        ⟨hperm, ⟨_, starts_call h request, ?_⟩, fun hwhole => ?_, rfl⟩, rfl⟩
      · rw [Option.isSome_some, if_pos rfl, append_nil] at hwait
        exact (hwait.cons _).trans (perm_append_singleton _ _).symm
      · exact (hwhole.collect hcount hcollect).imp id fun hlen => hlen _ rfl
    · have hperm := state.buffers.perm_collect hcollect
      have hwait := state.buffers.waiting_collect hcollect
      rw [append_nil, Option.getD_none, append_nil] at hperm
      exact .inl ⟨hperm, ⟨_, starts_call h request, hwait⟩,
        fun hwhole => (hwhole.collect hcount hcollect).1, rfl, rfl, rfl, rfl, grows_refl _⟩

/-- A call goes on, where its channel is not about to close. -/
theorem proceed_cases (full : ℕ → Bool) (call : Call) (bufferIds : List ℕ) (state : State) :
    state.proceed full call bufferIds = state ∧
        (∀ channel, state.channels[call.channel]? = some channel → state.isClosing channel = true ∨
          bufferIds = []) ∨
      ∃ channel, state.channels[call.channel]? = some channel ∧ state.isClosing channel = false ∧
        state.proceed full call bufferIds =
          { state with
            channels := state.channels.set call.channel
              { channel.register call bufferIds with pending := channel.pending + call.count }
            submitted := state.submitted ++ submissions full call bufferIds
            requests := state.requests ++ submissions full call bufferIds } := by
  unfold proceed
  cases hchan : state.channels[call.channel]? with
  | none => exact .inl ⟨rfl, nofun⟩
  | some channel =>
    dsimp only
    split
    · rename_i hclosing
      refine .inl ⟨rfl, fun found hfound => ?_⟩
      rw [← Option.some.inj hfound]
      rcases Bool.or_eq_true_iff.mp hclosing with hclosing | hempty
      · exact .inl hclosing
      · exact .inr (isEmpty_iff.mp hempty)
    · rename_i hclosing
      refine .inr ⟨channel, rfl, ?_, rfl⟩
      rw [Bool.not_eq_true, Bool.or_eq_false_iff] at hclosing
      exact hclosing.1

/-- A completion lowers the books of its channel, and may take a handler from them and call it. -/
inductive Outcome (state : State) (submission : Submission) (result : ℤ) (channel : Channel)
    (next : State) : Prop where
  | silent (hinvoked : next.invoked = state.invoked)
    (hgrows : Grows (state.channels.set submission.call.channel channel.lower) next.channels)
  | invokes (bufferId : ℕ) (hbufferId : submission.bufferId = some bufferId)
    (hactive : channel.active = true)
    (hwrites : submission.call.request.event ∈ channel.kind.notifier.writes)
    (hinvoked : next.invoked = state.invoked ++
      ((channel.handlers (channel.kind.notifier.succeeds result)).get? bufferId).toList.map
        fun handler => ⟨submission.call, channel.kind.notifier.succeeds result, handler⟩)
    (hgrows : Grows (state.channels.set submission.call.channel
      (channel.lower.removeHandler (channel.kind.notifier.succeeds result) bufferId)) next.channels)

/-- What a completion does. -/
structure Completes (state : State) (submission : Submission) (result : ℤ) (channel : Channel)
    (next : State) : Prop where
  placed : (next.buffers.placed ++ next.delivered).Perm
    (submission.bufferId.toList ++ (state.buffers.placed ++ state.delivered))
  allocations : next.buffers.allocations.Perm state.buffers.allocations
  submitted : next.submitted = state.submitted
  requests : next.requests = state.requests
  calls : next.calls = state.calls
  outcome : Outcome state submission result channel next

theorem completes_notify {state : State} {submission : Submission} {bufferId : ℕ}
    (hbuf : submission.bufferId = some bufferId) (result : ℤ) (channel : Channel) :
    Completes state submission result channel
      (state.notify submission.call bufferId result channel) := by
  have hrel : ((state.buffers.release bufferId).placed ++ state.delivered).Perm
      (submission.bufferId.toList ++ (state.buffers.placed ++ state.delivered)) := by
    rw [hbuf]
    exact (state.buffers.perm_release bufferId).append_right state.delivered
  have hallocs := state.buffers.allocations_release bufferId
  unfold notify
  dsimp only
  split
  · rename_i hactive
    split
    · split
      · refine ⟨?_, .rfl, rfl, rfl, rfl, .silent rfl (grows_refl _)⟩
        -- The payload has the buffer.
        rw [hbuf]
        refine List.Perm.trans ?_
          (perm_append_singleton bufferId (state.buffers.placed ++ state.delivered))
        rw [append_assoc]
        exact .rfl
      · split
        · rw [close_eq]
          refine ⟨hrel, hallocs, rfl, rfl, rfl, .silent rfl ?_⟩
          exact grows_close submission.call.channel false
            (release bufferId (state.setChannel submission.call.channel channel.lower))
        · exact ⟨hrel, hallocs, rfl, rfl, rfl, .silent rfl (grows_refl _)⟩
    · split
      · rename_i hwrites
        refine ⟨hrel, hallocs, rfl, rfl, rfl, .invokes bufferId hbuf hactive hwrites ?_ ?_⟩
        · rw [← Channel.handlers_lower]
          rfl
        · unfold invoke setChannel release
          dsimp only
          rw [set_set]
          exact grows_refl _
      · exact ⟨hrel, hallocs, rfl, rfl, rfl, .silent rfl (grows_refl _)⟩
  · exact ⟨hrel, hallocs, rfl, rfl, rfl, .silent rfl (grows_refl _)⟩

theorem completes_complete (state : State) {submission : Submission}
    (h : state.channels[submission.call.channel]? = some channel)
    (hstage : channel.stage ≠ .closed) (result : ℤ) :
    Completes state submission result channel (complete submission result state) := by
  unfold complete
  rw [h]
  dsimp only
  rw [if_neg hstage]
  split
  · rename_i hnone
    refine ⟨?_, .rfl, rfl, rfl, rfl, .silent rfl (grows_refl _)⟩
    rw [hnone]
    exact .rfl
  · rename_i bufferId hbuf
    exact completes_notify hbuf result channel

end State

open State

/-- Where the native calls of a step find the ring full. -/
def Action.full : Action → ℕ → Bool
  | .call _ _ full => full
  | .resume full => full
  | .connect _ full => fun _ => full
  | _ => fun _ => false

/-- The call that goes on in a step, and its buffers. -/
def advances (state : State) : Action → Option (Call × List ℕ)
  | .call index member _ =>
    if member.request.many then none
    else
      (state.buffers.getOrAllocate ⟨state.calls, index, member.request⟩).1.map fun bufferIds =>
        (⟨state.calls, index, member.request⟩, bufferIds)
  | .resume _ => state.buffers.resume.bind fun result =>
    result.1.2.map fun bufferIds => (result.1.1, bufferIds)
  | _ => none

variable {state next : State} {action : Action}

/-- What a step can do: each constructor has the conditions under which the code takes that path,
and the state behind it. -/
inductive Move (state : State) : Action → State → Prop
  /-- A connection of a server that does not close. -/
  | accepted {server : ℕ} {channel : Channel} (hchannel : state.channels[server]? = some channel)
      (hkind : channel.kind = .server) (hclosing : channel.closing = false) :
      Move state (.opened .serverConnection (some server))
        { state with channels := state.channels ++ [.create .serverConnection (some server)] }
  | opened {kind : Kind} (hkind : kind ≠ .serverConnection) :
      Move state (.opened kind none)
        { state with channels := state.channels ++ [.create kind none] }
  | call {index : ℕ} {member : Member} {channel : Channel} (full : ℕ → Bool)
      (hchannel : state.channels[index]? = some channel) (hkind : channel.kind = member.kind) :
      Move state (.call index member full) (state.call index member.request full)
  | connect {index : ℕ} {channel : Channel} (full : Bool)
      (hchannel : state.channels[index]? = some channel) (hkind : channel.kind = .client) :
      Move state (.connect index full) (state.connect index full)
  /-- A call that has its buffers goes on. -/
  | resume {call : Call} {bufferIds : List ℕ} {buffers : MemoryStaticBuffers Call}
      (full : ℕ → Bool)
      (hresume : state.buffers.resume = some ((call, some bufferIds), buffers)) :
      Move state (.resume full)
        (State.proceed full call bufferIds { state with buffers := buffers })
  /-- A call that waits for the next buffer. -/
  | waits {call : Call} {buffers : MemoryStaticBuffers Call} (full : ℕ → Bool)
      (hresume : state.buffers.resume = some ((call, none), buffers)) :
      Move state (.resume full) { state with buffers := buffers }
  | complete {position : ℕ} {submission : Submission} (result : ℤ)
      (hsubmission : state.submitted[position]? = some submission) :
      Move state (.complete position result) (State.complete submission result
        { state with submitted := state.submitted.eraseIdx position })
  | release {bufferId : ℕ} (hdelivered : bufferId ∈ state.delivered) :
      Move state (.release bufferId)
        { state.release bufferId with delivered := state.delivered.erase bufferId }
  | close (index : ℕ) (graceful : Bool) :
      Move state (.close index graceful) (state.close index graceful)
  | closeFailed {index : ℕ} {closes : List ℕ} (hcloses : state.closes = index :: closes) :
      Move state .closeFailed (State.close index false { state with closes := closes })
  | closedConnections {index : ℕ} {channel : Channel} {graceful : Bool}
      (hchannel : state.channels[index]? = some channel)
      (hstage : channel.stage = .connections graceful) :
      Move state (.closedConnections index)
        (state.setChannel index (channel.beginClose graceful))
  | timeout {index : ℕ} {channel : Channel} (hchannel : state.channels[index]? = some channel)
      (hstage : channel.stage = .awaits true) :
      Move state (.timeout index) (state.setChannel index { channel with active := false })
  | closed {index : ℕ} {channel : Channel} {graceful : Bool}
      (hchannel : state.channels[index]? = some channel) (hstage : channel.stage = .awaits graceful)
      (hcloser : channel.closer = true) :
      Move state (.closed index)
        (state.setChannel index { channel with active := false, stage := .closed })

/-- The inversion of a step. -/
theorem step_move (h : step state action = some next) : Move state action next := by
  cases action with
  | opened kind server =>
    rw [step] at h
    split at h
    · rename_i hkind
      split at h
      · rename_i channel hsrv
        split at h
        · rename_i hopen
          -- The server of the connection is there.
          obtain ⟨found, rfl, hchan⟩ := Option.bind_eq_some_iff.mp hsrv
          cases h
          subst hkind
          exact .accepted hchan hopen.1 hopen.2
        · cases h
      · cases h
    · rename_i hkind
      split at h
      · rename_i hnone
        cases h
        subst hnone
        exact .opened hkind
      · cases h
  | call index member full =>
    rw [step] at h
    split at h
    · rename_i channel hchan
      obtain ⟨hkind, h⟩ := Option.ite_none_right_eq_some.mp h
      cases h
      exact .call full hchan hkind
    · cases h
  | connect index full =>
    rw [step] at h
    split at h
    · rename_i channel hchan
      obtain ⟨hkind, h⟩ := Option.ite_none_right_eq_some.mp h
      cases h
      exact .connect full hchan hkind
    · cases h
  | resume full =>
    rw [step] at h
    split at h
    · rename_i call ids buffers hresume
      cases h
      exact .resume full hresume
    · rename_i call buffers hresume
      cases h
      exact .waits full hresume
    · cases h
  | complete position result =>
    rw [step] at h
    split at h
    · rename_i submission hsub
      cases h
      exact .complete result hsub
    · cases h
  | release bufferId =>
    obtain ⟨hdelivered, h⟩ := Option.ite_none_right_eq_some.mp h
    cases h
    exact .release hdelivered
  | close index graceful =>
    cases h
    exact .close index graceful
  | closeFailed =>
    rw [step] at h
    split at h
    · rename_i index closes hcloses
      cases h
      exact .closeFailed hcloses
    · cases h
  | closedConnections index =>
    rw [step] at h
    split at h
    · rename_i channel hchan
      split at h
      · rename_i graceful hstage
        cases h
        exact .closedConnections hchan hstage
      · cases h
    · cases h
  | timeout index =>
    rw [step] at h
    split at h
    · rename_i channel hchan
      obtain ⟨hstage, h⟩ := Option.ite_none_right_eq_some.mp h
      cases h
      exact .timeout hchan hstage
    · cases h
  | closed index =>
    rw [step] at h
    split at h
    · rename_i channel hchan
      split at h
      · rename_i graceful hstage
        obtain ⟨hcloser, h⟩ := Option.ite_none_right_eq_some.mp h
        cases h
        exact .closed hchan hstage hcloser
      · cases h
    · cases h

/-- A change of one channel that moves no buffer. -/
theorem quiet_setChannel {index : ℕ} {channel found : Channel}
    (hchan : state.channels[index]? = some channel) (hcloses : channel.Closes found) :
    Quiet state (state.setChannel index found) :=
  quiet_of_channels state.closes (grows_set hchan hcloses)

/-- What a step does to the calls and their buffers. -/
theorem step_cases (h : step state action = some next) :
    Quiet state next ∨
      (∃ call bufferIds middle, advances state action = some (call, bufferIds) ∧
        Obtains state call bufferIds middle ∧ next = middle.proceed action.full call bufferIds) ∨
      (∃ index full channel, action = .connect index full ∧ state.channels[index]? = some channel ∧
        next = state.connect index full) ∨
      (∃ position result submission, action = .complete position result ∧
        state.submitted[position]? = some submission ∧
        next = complete submission result
          { state with submitted := state.submitted.eraseIdx position }) ∨
      ∃ bufferId ∈ state.delivered, action = .release bufferId ∧
        next = { state.release bufferId with delivered := state.delivered.erase bufferId } := by
  cases step_move h with
  | accepted | opened =>
    exact .inl (quiet_of_channels state.closes (grows_append _ _ state.channels))
  | @call index member _ full hchan =>
    rcases call_cases hchan member.count_request full with
      hquiet | ⟨call, ids, middle, hmany, hcall, hobtain, hobtains, heq⟩
    · exact .inl hquiet
    · refine .inr (.inl ⟨call, ids, middle, ?_, hobtains, heq⟩)
      -- The call that goes on is the one that was made.
      rw [advances, if_neg (by rw [hmany]; exact Bool.false_ne_true), ← hcall, hobtain]
      rfl
  | connect full hchan => exact .inr (.inr (.inl ⟨_, full, _, rfl, hchan, rfl⟩))
  | @resume call ids buffers full hresume =>
    have hperm := state.buffers.perm_resume hresume
    have hwait := state.buffers.waiting_resume hresume
    refine .inr (.inl ⟨call, ids, { state with buffers := buffers }, ?_,
      ⟨hperm, ⟨[], starts_nil state, ?_⟩, fun hwhole => ?_, rfl⟩, rfl⟩)
    · rw [advances, hresume]
      rfl
    · rw [append_nil]
      exact (perm_append_singleton call _).symm.trans hwait
    · exact (hwhole.resume hresume).imp id fun hlen => hlen _ rfl
  | @waits call buffers full hresume =>
    have hperm := state.buffers.perm_resume hresume
    have hwait := state.buffers.waiting_resume hresume
    -- The buffer is kept by the call, which goes on waiting.
    rw [Option.getD_none, append_nil] at hperm
    rw [Option.isSome_none, if_neg Bool.false_ne_true, append_nil] at hwait
    rw [← append_nil state.buffers.waiting] at hwait
    exact .inl ⟨hperm, ⟨[], starts_nil state, hwait⟩, fun hwhole => (hwhole.resume hresume).1,
      rfl, rfl, rfl, rfl, grows_refl _⟩
  | complete result hsub =>
    exact .inr (.inr (.inr (.inl ⟨_, result, _, rfl, hsub, rfl⟩)))
  | release hdelivered => exact .inr (.inr (.inr (.inr ⟨_, hdelivered, rfl, rfl⟩)))
  | close index graceful => exact .inl (quiet_close index graceful state.closes state)
  | closeFailed => exact .inl (quiet_close _ false _ state)
  | @closedConnections _ _ graceful hchan hstage =>
    refine .inl (quiet_setChannel hchan ?_)
    exact Channel.closes_beginClose graceful (.inr (by rw [hstage]; exact nofun))
  | @timeout _ channel hchan hstage =>
    have hopened : channel.stage ≠ .opened := by
      rw [hstage]
      exact nofun
    refine .inl (quiet_setChannel hchan ?_)
    exact ⟨rfl, rfl, rfl, id, rfl, fun _ => .inr (.inr hopened), .inl, fun _ => .inl, .inl⟩
  | @closed _ channel _ hchan hstage hcloser =>
    have hopened : channel.stage ≠ .opened := by
      rw [hstage]
      exact nofun
    refine .inl (quiet_setChannel hchan ?_)
    exact ⟨rfl, rfl, rfl, id, rfl, fun _ => .inr (.inr hopened), fun _ => .inl hopened,
      nofun, fun _ => .inr (.inl hcloser)⟩

end FengShui.Transport
