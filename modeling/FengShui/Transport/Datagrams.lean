import FengShui.Transport.TransportMoves
import Mathlib.Logic.Function.Basic

/-!
# Replies to datagrams (`transport/server/responder.dart`, `transport/transport.c`)

Every buffer has one responder and one slot for an address, `inet_used_messages[bufferId].msg_name`.
A receive clears the slot of its buffer and the kernel writes the sender into it, a send copies the
address of its destination into it, and the responder of a datagram keeps a pointer to it. A reply
reads through that pointer when it gets its own buffer, which may be long after its datagram was
released.
-/

namespace FengShui.Transport

open FengShui.Transition List

/-- A datagram whose responder was given to the application. -/
structure Datagram where
  bufferId : ℕ
  source : ℕ
  /-- Another address was written into the slot of its buffer since. -/
  overwritten : Bool
  deriving DecidableEq, Repr

/-- An address is written into the slot of a buffer. -/
def Datagram.overwrite (bufferId address : ℕ) (datagram : Datagram) : Datagram :=
  if datagram.bufferId = bufferId ∧ datagram.source ≠ address then
    { datagram with overwritten := true }
  else datagram

theorem Datagram.overwrite_source (bufferId : ℕ) (datagram : Datagram) :
    datagram.overwrite bufferId datagram.source = datagram := if_neg fun hother => hother.2 rfl

/-- A send that was handed to the ring: for a reply the sender of the datagram whose responder the
application called, and the address that the kernel gets. -/
structure Sent where
  source : Option ℕ
  address : ℕ
  deriving DecidableEq, Repr

structure Datagrams where
  transport : State
  /-- `inet_used_messages[bufferId].msg_name`. -/
  messages : ℕ → ℕ
  /-- `_server` of the responder of a buffer. -/
  responders : ℕ → ℕ
  datagrams : List Datagram
  /-- The datagrams of the replies, by the number of their calls. -/
  replies : DartMap ℕ ℕ
  sent : List Sent

inductive DatagramAction where
  /-- `respondSingle` or `respondMany` of a responder. -/
  | respond (position : ℕ) (member : Member) (full : ℕ → Bool)
  /-- A completion; of a receive with the address that the kernel writes. -/
  | arrive (position : ℕ) (result : ℤ) (source : ℕ)
  /-- Whatever else there is, the sends of clients included. -/
  | other (action : Action)

/-- `respondSingle` and `respondMany`. -/
def Member.responds : Member → Bool
  | serverRespondSingle .. | serverRespondMany .. => true
  | _ => false

namespace Datagrams

def create (capacity : ℕ) : Datagrams :=
  ⟨.create capacity, fun _ => 0, fun _ => 0, [], .empty, []⟩

/-- `memcpy`, `memset` or the kernel, at the slot of a buffer. -/
def writeName (bufferId address : ℕ) (state : Datagrams) : Datagrams :=
  { state with
    messages := Function.update state.messages bufferId address
    datagrams := state.datagrams.map (Datagram.overwrite bufferId address) }

/-- The datagram that a call is a reply to. -/
def datagramOf (call : Call) (state : Datagrams) : Option Datagram :=
  (state.replies.get? call.number).bind fun position => state.datagrams[position]?

section Address

-- `_destination` of the clients: memory of their own.
variable (destination : ℕ → ℕ)

/-- What `_destination` points to: of a responder the slot of its buffer. -/
def address (call : Call) (state : Datagrams) : ℕ :=
  match state.datagramOf call with
  | some datagram => state.messages datagram.bufferId
  | none => destination call.channel

/-- `transport_receive_message` and `transport_send_message`, behind `io_uring_get_sqe`. -/
def prepare (state : Datagrams) (submission : Submission) : Datagrams :=
  match submission.bufferId with
  | none => state
  | some bufferId =>
    match submission.call.request.event with
    | .receiveMessage => state.writeName bufferId 0
    | .sendMessage =>
      let address := state.address destination submission.call
      { state.writeName bufferId address with
        sent := state.sent ++ [⟨(state.datagramOf submission.call).map Datagram.source, address⟩] }
    | _ => state

/-- A step of the transport, with the native calls that it makes. -/
def follow (next : State) (state : Datagrams) : Datagrams :=
  (next.requests.drop state.transport.requests.length).foldl (prepare destination)
    { state with transport := next }

/-- The completion of the submission gives its datagram to the application. -/
def gives (submission : Submission) (result : ℤ) (state : Datagrams) : Bool :=
  match state.transport.channels[submission.call.channel]? with
  | none => false
  | some channel =>
    channel.kind = .server && channel.stage ≠ .closed && channel.active &&
      submission.call.request.event = .receiveMessage && 0 < result

/-- `recvmsg`, and `getDatagramResponder` behind it. -/
def receive (submission : Submission) (result : ℤ) (source : ℕ) (state : Datagrams) : Datagrams :=
  match submission.bufferId with
  | none => state
  | some bufferId =>
    if submission.call.request.event = .receiveMessage ∧ 0 < result then
      let written := state.writeName bufferId source
      if state.gives submission result then
        { written with
          responders := Function.update written.responders bufferId submission.call.channel
          datagrams := written.datagrams ++ [⟨bufferId, source, false⟩] }
      else written
    else state

/-- The step of the transport below a step. -/
def below (state : Datagrams) : DatagramAction → Option Action
  | .respond position member full =>
    match state.datagrams[position]? with
    | some datagram =>
      if member.responds then some (.call (state.responders datagram.bufferId) member full)
        else none
    | none => none
  | .arrive position result _ => some (.complete position result)
  | .other (.call index member full) =>
    if member.responds then none else some (.call index member full)
  | .other (.complete ..) => none
  | .other action => some action

/-- What a step does before that of the transport. -/
def before (state : Datagrams) : DatagramAction → Datagrams
  | .respond position _ _ =>
    { state with replies := state.replies.set state.transport.calls position }
  | .arrive position result source =>
    match state.transport.submitted[position]? with
    | some submission => state.receive submission result source
    | none => state
  | .other _ => state

def step (state : Datagrams) (action : DatagramAction) : Option Datagrams :=
  (state.below action).bind fun below =>
    (Transport.step state.transport below).map fun next =>
      (state.before action).follow destination next

end Address

/-- Every reply was sent to the sender of its datagram. -/
def Answers (state : Datagrams) : Prop :=
  ∀ sent ∈ state.sent, ∀ source, sent.source = some source → sent.address = source

/-- A reply goes on before another address is written into the slot of its datagram. -/
def Prompt (state : Datagrams) (action : DatagramAction) : Prop :=
  ∀ below call bufferIds, state.below action = some below →
    advances state.transport below = some (call, bufferIds) →
      (∀ channel, state.transport.channels[call.channel]? = some channel →
        state.transport.isClosing channel = false) →
      ∀ datagram, (state.before action).datagramOf call = some datagram →
        datagram.overwritten = false

variable {destination : ℕ → ℕ} {state next : Datagrams}

/-- What the slot of a datagram holds until it is overwritten. -/
def Kept (state : Datagrams) : Prop :=
  ∀ datagram ∈ state.datagrams, datagram.overwritten = false →
    state.messages datagram.bufferId = datagram.source

theorem Kept.writeName (h : Kept state) (bufferId address : ℕ) :
    Kept (state.writeName bufferId address) := by
  intro datagram hmem hfresh
  obtain ⟨before, hbefore, rfl⟩ := mem_map.mp hmem
  unfold Datagrams.writeName Datagram.overwrite at *
  dsimp only
  split at hfresh
  · cases hfresh
  · rename_i hsame
    rw [if_neg hsame]
    by_cases hbuf : before.bufferId = bufferId
    · rw [hbuf, Function.update_self]
      exact (by_contra fun hne => hsame ⟨hbuf, fun heq => hne heq.symm⟩)
    · rw [Function.update_of_ne hbuf]
      exact h before hbefore hfresh

theorem datagramOf_writeName (call : Call) (bufferId address : ℕ) (state : Datagrams) :
    (state.writeName bufferId address).datagramOf call =
      (state.datagramOf call).map (Datagram.overwrite bufferId address) := by
  unfold datagramOf writeName
  cases state.replies.get? call.number with
  | none => rfl
  | some position => exact getElem?_map

/-- What the native calls of one call keep. -/
structure Sound (call : Call) (state : Datagrams) : Prop where
  kept : Kept state
  answers : Answers state
  fresh : call.request.event = .sendMessage → ∀ datagram, state.datagramOf call = some datagram →
    datagram.overwritten = false

theorem Sound.prepare {submission : Submission} (h : Sound submission.call state) :
    Sound submission.call (state.prepare destination submission) := by
  unfold Datagrams.prepare
  cases submission.bufferId with
  | none => exact h
  | some bufferId =>
    cases hevent : submission.call.request.event with
    | receiveMessage =>
      exact ⟨h.kept.writeName bufferId 0,
        h.answers, fun hsend => by rw [hevent] at hsend; cases hsend⟩
    | sendMessage =>
      have hof := fun address => datagramOf_writeName submission.call bufferId address state
      cases hcall : state.datagramOf submission.call with
      | none =>
        refine ⟨h.kept.writeName _ _, fun sent hmem source hsource =>
          ?_, fun _ datagram hother => ?_⟩
        · rcases mem_append.mp hmem with hmem | hmem
          · exact h.answers sent hmem source hsource
          · obtain rfl := mem_singleton.mp hmem
            cases hsource
        · have hnone := hof (state.address destination submission.call)
          rw [hcall] at hnone
          exact absurd (hother.symm.trans hnone) (by simp)
      | some datagram =>
        -- The slot of the datagram holds its sender.
        have hfresh := h.fresh hevent datagram hcall
        have haddr : state.address destination submission.call = datagram.source := by
          obtain ⟨position, -, hpos⟩ := Option.bind_eq_some_iff.mp hcall
          unfold Datagrams.address
          rw [hcall]
          exact h.kept datagram (mem_of_getElem? hpos) hfresh
        refine ⟨h.kept.writeName _ _, fun sent hmem source hsource => ?_, fun _ other hother => ?_⟩
        · rcases mem_append.mp hmem with hmem | hmem
          · exact h.answers sent hmem source hsource
          · obtain rfl := mem_singleton.mp hmem
            rw [haddr]
            exact Option.some.inj hsource
        · have hsame := hof (state.address destination submission.call)
          rw [hcall, haddr, Option.map_some, Datagram.overwrite_source] at hsame
          rw [haddr] at hother
          obtain rfl := Option.some.inj (hsame.symm.trans hother)
          exact hfresh
    | _ => exact h

/-- The native calls of one call, one behind the other. -/
theorem Sound.foldl {call : Call} {submissions : List Submission}
    (hcalls : ∀ submission ∈ submissions, submission.call = call) (h : Sound call state) :
    Sound call (submissions.foldl (Datagrams.prepare destination) state) := by
  induction submissions generalizing state with
  | nil => exact h
  | cons submission submissions ih =>
    obtain rfl := hcalls submission mem_cons_self
    exact ih (fun other hmem => hcalls other (mem_cons_of_mem submission hmem)) h.prepare

end Datagrams

theorem requests_complete (submission : Submission) (result : ℤ) (state : State) :
    (state.complete submission result).requests = state.requests := by
  unfold State.complete
  cases hchan : state.channels[submission.call.channel]? with
  | none => rfl
  | some channel =>
    dsimp only
    split
    · rfl
    · split
      · rfl
      · rename_i bufferId hbuf
        exact (State.completes_notify hbuf result channel).requests

/-- What a step hands to the ring: the buffers of a call that goes on, or none. -/
theorem requests_step {state next : State} {action : Action}
    (h : Transport.step state action = some next) :
    ∃ requests, next.requests = state.requests ++ requests ∧
      ((∀ submission ∈ requests, submission.bufferId = none) ∨
        ∃ call bufferIds, advances state action = some (call, bufferIds) ∧
          (∀ channel, state.channels[call.channel]? = some channel →
            state.isClosing channel = false) ∧
          ∀ submission ∈ requests, submission.call = call) := by
  rcases step_cases h with hquiet | ⟨call, bufferIds, middle, hadv, hobtains, rfl⟩ |
    ⟨index, full, channel, rfl, -, rfl⟩ | ⟨position, result, submission, -, hsub, rfl⟩ |
    ⟨bufferId, -, -, rfl⟩
  · exact ⟨[], by rw [hquiet.requests, append_nil], .inl nofun⟩
  -- The call that goes on prepares its own buffers.
  · have hmid := hobtains.middle
    rcases State.proceed_cases action.full call bufferIds middle with
      ⟨heq, -⟩ | ⟨channel, hchan, hclosing, heq⟩
    · refine ⟨[], ?_, .inl nofun⟩
      rw [heq, hmid, append_nil]
    · refine ⟨_, by rw [heq, hmid], .inr ⟨call, bufferIds, hadv, fun other hother => ?_, ?_⟩⟩
      · rw [hmid] at hchan hclosing
        obtain rfl := Option.some.inj (hchan.symm.trans hother)
        exact hclosing
      · intro submission hmem
        obtain ⟨entry, -, rfl⟩ := mem_map.mp hmem
        rfl
  · unfold State.connect
    split
    · exact ⟨[], (append_nil _).symm, .inl nofun⟩
    · split
      · exact ⟨[], (append_nil _).symm, .inl nofun⟩
      · refine ⟨_, rfl, .inl fun submission hmem => ?_⟩
        split at hmem
        · cases hmem
        · rw [mem_singleton.mp hmem]
  · refine ⟨[], ?_, .inl nofun⟩
    rw [requests_complete, append_nil]
  · exact ⟨[], (append_nil _).symm, .inl nofun⟩

namespace Datagrams

variable {destination : ℕ → ℕ} {state next : Datagrams} {action : DatagramAction}

/-- What holds between the steps. -/
structure Faithful (state : Datagrams) : Prop where
  kept : Kept state
  answers : Answers state

theorem Faithful.before (h : Faithful state) (action : DatagramAction) :
    Faithful (state.before action) := by
  cases action with
  | respond => exact ⟨h.kept, h.answers⟩
  | other => exact h
  | arrive position result source =>
    unfold Datagrams.before receive
    dsimp only
    split
    · rename_i submission hsub
      split
      · exact h
      · rename_i bufferId _
        split
        · have hwritten := h.kept.writeName bufferId source
          split
          · refine ⟨fun datagram hmem hfresh => ?_, h.answers⟩
            rcases mem_append.mp hmem with hmem | hmem
            · exact hwritten datagram hmem hfresh
            · obtain rfl := mem_singleton.mp hmem
              exact Function.update_self ..
          · exact ⟨hwritten, h.answers⟩
        · exact h
    · exact h

theorem transport_before (state : Datagrams) (action : DatagramAction) :
    (state.before action).transport = state.transport := by
  cases action with
  | respond | other => rfl
  | arrive position result source =>
    unfold Datagrams.before receive
    dsimp only
    repeat' split
    all_goals rfl

theorem Faithful.step (h : Faithful state) (hprompt : Prompt state action)
    (hstep : state.step destination action = some next) : Faithful next := by
  obtain ⟨below, hbelow, hmap⟩ := Option.bind_eq_some_iff.mp hstep
  obtain ⟨after, hafter, rfl⟩ := Option.map_eq_some_iff.mp hmap
  obtain ⟨requests, hreqs, hcalls⟩ := requests_step hafter
  have hbefore := h.before action
  have hlen : (state.before action).transport = state.transport := transport_before state action
  -- What the step hands to the ring is what it adds to the requests.
  have hdrop : after.requests.drop (state.before action).transport.requests.length = requests := by
    rw [hlen, hreqs, drop_left]
  unfold follow
  rw [hdrop]
  rcases hcalls with hnone | ⟨call, bufferIds, hadv, hclosing, hcalls⟩
  -- An operation without a buffer prepares no address.
  · have hsame : requests.foldl (Datagrams.prepare destination)
        { state.before action with transport := after } =
          { state.before action with transport := after } := by
      clear hreqs hdrop
      induction requests with
      | nil => rfl
      | cons submission requests ih =>
        rw [foldl_cons]
        have hfirst := hnone submission mem_cons_self
        rw [Datagrams.prepare, hfirst]
        exact ih fun other hmem => hnone other (mem_cons_of_mem submission hmem)
    rw [hsame]
    exact ⟨hbefore.kept, hbefore.answers⟩
  · have hsound : Sound call { state.before action with transport := after } :=
      ⟨hbefore.kept, hbefore.answers,
        fun _ datagram => hprompt below call bufferIds hbelow hadv hclosing datagram⟩
    have hlast := @Sound.foldl destination _ call requests hcalls hsound
    exact ⟨hlast.kept, hlast.answers⟩

theorem faithful_create (capacity : ℕ) : Faithful (create capacity) :=
  ⟨nofun, nofun⟩

/-- In every run in which replies go on before the slots of their datagrams are overwritten, every
reply is sent to the sender of its datagram. -/
theorem answers_of_prompt (destination : ℕ → ℕ) (capacity : ℕ) (actions : List DatagramAction)
    {state : Datagrams} (halong : Along (step destination) Prompt (create capacity) actions)
    (hrun : run (step destination) (create capacity) actions = some state) : Answers state :=
  (run_induction (fun _ => Faithful)
    (fun _ _ _ _ hfaithful hprompt hstep => hfaithful.step hprompt hstep)
    (faithful_create capacity) halong hrun).answers

/-- A reply behind the release of its datagram, which gets the buffer of the datagram. -/
theorem answers_of_prompt_release :
    ∃ state, run (step fun _ => 0) (create 2)
      [.other (.opened .server none), .other (.call 0 .serverReceive fun _ => false), .arrive 0 5 7,
        .other (.release 1), .respond 0 (.serverRespondSingle [1] false false) fun _ => false] =
          some state ∧ Answers state := by
  refine ⟨_, rfl, answers_of_prompt (fun _ => 0) 2
    [.other (.opened .server none), .other (.call 0 .serverReceive fun _ => false), .arrive 0 5 7,
      .other (.release 1), .respond 0 (.serverRespondSingle [1] false false) fun _ => false] ?_ rfl⟩
  -- Only the receive and the response take a buffer.
  refine (along_cons_of_step rfl).mpr ⟨?_, ?_⟩
  · rintro _ call bufferIds ⟨⟩ h
    cases h
  refine (along_cons_of_step rfl).mpr ⟨?_, ?_⟩
  · rintro _ call bufferIds ⟨⟩ h - datagram hdatagram
    cases h
    cases hdatagram
  refine (along_cons_of_step rfl).mpr ⟨?_, ?_⟩
  · rintro _ call bufferIds ⟨⟩ h
    cases h
  refine (along_cons_of_step rfl).mpr ⟨?_, ?_⟩
  · rintro _ call bufferIds ⟨⟩ h
    cases h
  refine (along_cons_of_step rfl).mpr ⟨?_, trivial⟩
  rintro _ call bufferIds ⟨⟩ h - datagram hdatagram
  cases h
  cases hdatagram
  rfl

/-- A reply behind the release of its datagram, when the next receive has the buffer already. -/
theorem answers_false : ¬∀ state, Reachable (step fun _ => 0) (create 2) state → Answers state := by
  intro h
  have hlast := h _ ⟨[.other (.opened .server none),
    .other (.call 0 .serverReceive fun _ => false), .arrive 0 5 7, .other (.release 1),
    .other (.call 0 .serverReceive fun _ => false),
    .respond 0 (.serverRespondSingle [1] false false) fun _ => false], rfl⟩
  exact absurd (hlast ⟨some 7, 0⟩ List.mem_cons_self 7 rfl) (by decide)

end Datagrams

end FengShui.Transport
