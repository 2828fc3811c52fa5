import FengShui.Lib.Transition
import FengShui.Transport.Channel

/-!
# The transport (`transport/transport.dart`, `transport/transport.c`)

All channels over one pool of static buffers and one ring, as a step function on whole runs: the
calls of the members, the microtasks of those that had to wait for a buffer, the completions in any
order and with any result, the releases of payloads, and the stages of `close`.

The native calls answer `MODULE_ERROR_CODE` where `io_uring_get_sqe` gives `NULL`, and nobody looks
at their answer: `full` says for which buffers of a call that is so.
-/

namespace FengShui.Transport

open FengShui.Memory FengShui.Transition

/-- A submission queue entry: the call and the place of the buffer in it. `connect` has no
buffer. -/
structure Submission where
  call : Call
  index : ℕ
  bufferId : Option ℕ
  deriving DecidableEq, Repr

/-- A handler that was called: the call that completed, its outcome, and the call that had given the
handler. -/
structure Invocation where
  call : Call
  succeeded : Bool
  handler : ℕ
  deriving DecidableEq, Repr

structure State where
  buffers : MemoryStaticBuffers Call
  channels : List Channel
  /-- What is submitted and not completed. -/
  submitted : List Submission
  /-- The buffers of the payloads that are delivered and not released. -/
  delivered : List ℕ
  /-- How many calls there were. -/
  calls : ℕ
  /-- The channels of which `notify` has called an error handler and not yet come to `close()`. -/
  closes : List ℕ
  /-- Whatever was submitted, in its order. -/
  requests : List Submission
  invoked : List Invocation

namespace State

def create (capacity : ℕ) : State := ⟨.create capacity, [], [], [], 0, [], [], []⟩

/-- `_closing`, and of a connection `_closing || _server._closing`. -/
def isClosing (channel : Channel) (state : State) : Bool :=
  channel.closing ||
    (channel.server.bind fun server => state.channels[server]?).any fun server => server.closing

def setChannel (index : ℕ) (channel : Channel) (state : State) : State :=
  { state with channels := state.channels.set index channel }

def release (bufferId : ℕ) (state : State) : State :=
  { state with buffers := state.buffers.release bufferId }

/-- `close` of a channel; a server starts with its connections. -/
def close (index : ℕ) (graceful : Bool) (state : State) : State :=
  match state.channels[index]? with
  | none => state
  | some channel =>
    if channel.closing then state
    else
      { state with
        channels := state.channels.mapIdx fun other channel =>
          if other = index ∨ channel.server = some index then channel.close graceful else channel }

/-- The entries that the ring has for the buffers of a call. -/
def submissions (full : ℕ → Bool) (call : Call) (bufferIds : List ℕ) : List Submission :=
  (bufferIds.zipIdx.filter fun entry => !full entry.2).map fun entry =>
    ⟨call, entry.2, some entry.1⟩

/-- A member from `if (_closing)` on. -/
def proceed (full : ℕ → Bool) (call : Call) (bufferIds : List ℕ) (state : State) : State :=
  match state.channels[call.channel]? with
  | none => state
  | some channel =>
    -- `Future.error(TransportClosedException…)`, or the `last` of no buffers.
    if state.isClosing channel || bufferIds.isEmpty then state
    else
      let channel := channel.register call bufferIds
      let entries := submissions full call bufferIds
      { state with
        channels := state.channels.set call.channel
          { channel with pending := channel.pending + call.request.count }
        submitted := state.submitted ++ entries
        requests := state.requests ++ entries }

/-- A member from its first line on. -/
def call (index : ℕ) (request : Request) (full : ℕ → Bool) (state : State) : State :=
  let call : Call := ⟨state.calls, index, request⟩
  let state := { state with calls := state.calls + 1 }
  if request.many then
    { state with buffers := state.buffers.allocateArray request.count call }
  else
    match state.buffers.getOrAllocate call with
    | (some bufferIds, buffers) => proceed full call bufferIds { state with buffers := buffers }
    | (none, buffers) => { state with buffers := buffers }

def connect (index : ℕ) (full : Bool) (state : State) : State :=
  match state.channels[index]? with
  | none => state
  | some channel =>
    if channel.closing then state
    else
      let entries : List Submission :=
        if full then [] else [⟨⟨state.calls, index, .one .connect false false⟩, 0, none⟩]
      { state with
        calls := state.calls + 1
        channels := state.channels.set index { channel with pending := channel.pending + 1 }
        submitted := state.submitted ++ entries
        requests := state.requests ++ entries }

/-- `_handlers.remove(bufferId)?.call()`, and the `close()` behind it. -/
def invoke (call : Call) (bufferId : ℕ) (succeeded : Bool) (channel : Channel) (state : State) :
    State :=
  let handler := (channel.handlers succeeded).get? bufferId
  let state := state.setChannel call.channel (channel.removeHandler succeeded bufferId)
  { state with
    invoked := state.invoked ++ handler.toList.map fun handler => ⟨call, succeeded, handler⟩
    closes :=
      if !succeeded && call.request.event ∈ channel.kind.notifier.closes then
        state.closes ++ [call.channel]
      else state.closes }

/-- The `notify` functions. -/
def notify (call : Call) (bufferId : ℕ) (result : ℤ) (channel : Channel) (state : State) : State :=
  let notifier := channel.kind.notifier
  let event := call.request.event
  let succeeded := notifier.succeeds result
  let lowered := state.setChannel call.channel channel.lower
  if channel.active then
    if event ∈ notifier.reads then
      if succeeded then { lowered with delivered := lowered.delivered ++ [bufferId] }
      else if event ∈ notifier.closes then (lowered.release bufferId).close call.channel false
      else lowered.release bufferId
    else if event ∈ notifier.writes then
      (lowered.release bufferId).invoke call bufferId succeeded channel.lower
    else lowered.release bufferId
  else lowered.release bufferId

/-- A completion: the registry is asked for the channel. -/
def complete (submission : Submission) (result : ℤ) (state : State) : State :=
  match state.channels[submission.call.channel]? with
  | none => state
  | some channel =>
    if channel.stage = .closed then state
    else
      match submission.bufferId with
      | none => state.setChannel submission.call.channel channel.lower
      | some bufferId => state.notify submission.call bufferId result channel

end State

inductive Action where
  /-- A new channel; a connection is accepted by a server. -/
  | opened (kind : Kind) (server : Option ℕ)
  | call (index : ℕ) (member : Member) (full : ℕ → Bool)
  | connect (index : ℕ) (full : Bool)
  /-- The next of those who waited for a buffer. -/
  | resume (full : ℕ → Bool)
  | complete (position : ℕ) (result : ℤ)
  | release (bufferId : ℕ)
  | close (index : ℕ) (graceful : Bool)
  /-- The `close()` that a `notify` starts behind its handler. -/
  | closeFailed
  /-- A server behind `await Future.wait(…)`. -/
  | closedConnections (index : ℕ)
  /-- The timeout of a graceful `close`. -/
  | timeout (index : ℕ)
  /-- `close` behind `await _closer.future`. -/
  | closed (index : ℕ)

open State

/-- A step of the transport, `none` where the action is not enabled. -/
def step (state : State) : Action → Option State
  | .opened kind server =>
    if kind = .serverConnection then
      match server.bind fun server => state.channels[server]? with
      | some channel =>
        if channel.kind = .server ∧ channel.closing = false then
          some { state with channels := state.channels ++ [.create kind server] }
        else none
      | none => none
    else if server = none then some { state with channels := state.channels ++ [.create kind none] }
    else none
  | .call index member full =>
    match state.channels[index]? with
    | some channel =>
      if channel.kind = member.kind then some (state.call index member.request full) else none
    | none => none
  | .connect index full =>
    match state.channels[index]? with
    | some channel => if channel.kind = .client then some (state.connect index full) else none
    | none => none
  | .resume full =>
    match state.buffers.resume with
    | some ((call, some bufferIds), buffers) =>
      some (proceed full call bufferIds { state with buffers := buffers })
    | some ((_, none), buffers) => some { state with buffers := buffers }
    | none => none
  | .complete position result =>
    match state.submitted[position]? with
    | some submission =>
      some (complete submission result
        { state with submitted := state.submitted.eraseIdx position })
    | none => none
  | .release bufferId =>
    if bufferId ∈ state.delivered then
      some { state.release bufferId with delivered := state.delivered.erase bufferId }
    else none
  | .close index graceful => some (state.close index graceful)
  | .closeFailed =>
    match state.closes with
    | index :: closes => some (State.close index false { state with closes := closes })
    | [] => none
  | .closedConnections index =>
    match state.channels[index]? with
    | some channel =>
      match channel.stage with
      | .connections graceful => some (state.setChannel index (channel.beginClose graceful))
      | _ => none
    | none => none
  | .timeout index =>
    match state.channels[index]? with
    | some channel =>
      if channel.stage = .awaits true then
        some (state.setChannel index { channel with active := false })
      else none
    | none => none
  | .closed index =>
    match state.channels[index]? with
    | some channel =>
      match channel.stage with
      | .awaits _ =>
        if channel.closer then
          some (state.setChannel index { channel with active := false, stage := .closed })
        else none
      | _ => none
    | none => none

end FengShui.Transport
