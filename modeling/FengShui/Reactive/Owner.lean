import FengShui.Lib.Transition
import FengShui.Transport.Channel

/-!
# A client or a server with its connections (`reactive/client.dart`, `reactive/server.dart`)

`ReactiveClient` and `ReactiveServer` keep their live connections in a list and tell their `onClose`
when a connection that reports its end was the last of them. Each error callback starts a
`_terminate`, and each expiry of the keep-alive timer and each `close` of the owner starts a `close`
of the connection: a teardown that closes the broker, closes the transport connection and reports.
All of them run side by side, an `await` at a time, with the completions of the transport
connections.
-/

namespace FengShui.Reactive

open FengShui.Transport FengShui.Transition

/-- How far a `close` or a `_terminate` of a connection is. -/
inductive Phase where
  /-- Awaits the streams in the `close` of the broker. -/
  | streams
  /-- Behind the `close` of the broker. -/
  | broker
  /-- In the `close` of the transport connection, the first one. -/
  | closes
  /-- Awaits `_closer` in a `close` behind the first one. -/
  | awaits
  /-- Behind the `close` of the transport connection. -/
  | returned
  | reported
  /-- The `close` of the transport connection has thrown. -/
  | thrown
  deriving DecidableEq, Repr

/-- A `close` of a connection, or a `_terminate` of it. -/
structure Teardown where
  connection : ℕ
  /-- Whether there is a `gracefulTimeout`. -/
  graceful : Bool
  phase : Phase
  deriving DecidableEq, Repr

/-- A transport connection that was handed to `accept` or `connect`, and what was made of it. -/
structure Handed where
  channel : Channel
  /-- `_accepting` of the broker, if there is a reactive connection. -/
  accepting : Option Bool
  /-- The `close` of the transport connection has come to its end. -/
  finished : Bool
  /-- The `close` of the transport connection has thrown. -/
  failed : Bool

namespace Handed

def create (kind : Kind) (made : Bool) : Handed where
  channel := .create kind none
  accepting := if made then some true else none
  finished := false
  failed := false

/-- The `transport_cancel_by_fd` of `close` finds the ring full; only the client looks at that. -/
def throws (graceful free : Bool) (handed : Handed) : Bool :=
  !handed.channel.closing && 0 < handed.channel.pending && !graceful &&
    handed.channel.kind = .client && !free

/-- `close` of the transport connection up to its first `await`. -/
def close (graceful free : Bool) (handed : Handed) : Phase × Handed :=
  if handed.channel.closing then
    (if !handed.channel.closer && 0 < handed.channel.pending then .awaits else .returned, handed)
  else
    (.closes, { handed with
      channel := handed.channel.close graceful
      failed := handed.throws graceful free })

/-- What was issued fails, or has come to the end of the stream, such that `notify` calls
`close`. -/
def drops (event : Event) (result : ℤ) (handed : Handed) : Bool :=
  handed.channel.active && event ∈ handed.channel.kind.notifier.closes &&
    !handed.channel.kind.notifier.succeeds result

/-- `notify`. -/
def notify (event : Event) (result : ℤ) (free : Bool) (handed : Handed) : Handed :=
  let lowered := { handed with channel := handed.channel.lower }
  if handed.drops event result then (lowered.close false free).2 else lowered

/-- `onTimeout` of a graceful `close`. -/
def timeout (free : Bool) (handed : Handed) : Handed :=
  { handed with
    channel := { handed.channel with active := false, stage := .awaits false }
    failed := handed.channel.kind = .client && !free }

end Handed

/-- `ReactiveClient` and `ReactiveServer`. -/
structure ReactiveOwner where
  kind : Kind
  /-- Whether the configuration has a `gracefulTimeout`. -/
  graceful : Bool
  active : Bool
  /-- Whatever was handed over; a connection is named by its place. -/
  handed : List Handed
  /-- `_connections`. -/
  connections : List ℕ
  teardowns : List Teardown
  /-- The calls of `close`, each with the teardowns that it waits for. -/
  closings : List (List ℕ)
  /-- The connections that have reported their end. -/
  reports : List ℕ
  /-- `_connections` at each call of `onClose`. -/
  onCloses : List (List ℕ)
  /-- How often `_connections` became empty. -/
  emptied : ℕ

namespace ReactiveOwner

def create (kind : Kind) (graceful : Bool) : ReactiveOwner where
  kind := kind
  graceful := graceful
  active := true
  handed := []
  connections := []
  teardowns := []
  closings := []
  reports := []
  onCloses := []
  emptied := 0

/-- A connection is made and added to `_connections`. -/
def add (owner : ReactiveOwner) : ReactiveOwner :=
  { owner with
    handed := owner.handed ++ [.create owner.kind true]
    connections := owner.connections ++ [owner.handed.length] }

/-- A transport connection that nothing is made of. -/
def refuse (owner : ReactiveOwner) : ReactiveOwner :=
  { owner with handed := owner.handed ++ [.create owner.kind false] }

/-- `ReactiveServer.accept`. -/
def accept (owner : ReactiveOwner) : ReactiveOwner :=
  if owner.active then owner.add else owner.refuse

/-- `ReactiveClient.connect` of a pool of that size. -/
def connect (pool : ℕ) (owner : ReactiveOwner) : ReactiveOwner :=
  if owner.active then add^[pool] owner else refuse^[pool] owner

def setHanded (index : ℕ) (handed : Handed) (owner : ReactiveOwner) : ReactiveOwner :=
  { owner with handed := owner.handed.set index handed }

def setPhase (position : ℕ) (teardown : Teardown) (phase : Phase) (owner : ReactiveOwner) :
    ReactiveOwner :=
  { owner with teardowns := owner.teardowns.set position { teardown with phase := phase } }

/-- A `close` or a `_terminate` up to its first `await`, in the `close` of the broker. -/
def begin (graceful : Bool) (owner : ReactiveOwner) (index : ℕ) : ReactiveOwner :=
  match owner.handed[index]? with
  | none => owner
  | some handed =>
    let phase := if handed.accepting = some true then .streams else .broker
    { owner.setHanded index { handed with accepting := some false } with
      teardowns := owner.teardowns ++ [⟨index, graceful, phase⟩] }

/-- The callback that a connection reports its end to. -/
def report (connection : ℕ) (owner : ReactiveOwner) : ReactiveOwner :=
  let connections := owner.connections.erase connection
  { owner with
    connections := connections
    reports := owner.reports ++ [connection]
    onCloses := if connections = [] then owner.onCloses ++ [connections] else owner.onCloses
    emptied :=
      if owner.connections ≠ [] ∧ connections = [] then owner.emptied + 1 else owner.emptied }

/-- A teardown to its next `await`. -/
def advance (position : ℕ) (free : Bool) (owner : ReactiveOwner) : Option ReactiveOwner :=
  match owner.teardowns[position]? with
  | none => none
  | some teardown =>
    match owner.handed[teardown.connection]? with
    | none => none
    | some handed =>
      match teardown.phase with
      | .streams => some (owner.setPhase position teardown .broker)
      | .broker =>
        let closed := handed.close teardown.graceful free
        some ((owner.setHanded teardown.connection closed.2).setPhase position teardown closed.1)
      | .closes =>
        if handed.failed then some (owner.setPhase position teardown .thrown)
        else if handed.finished then some (owner.setPhase position teardown .returned)
        else none
      | .awaits =>
        if handed.channel.closer then some (owner.setPhase position teardown .returned) else none
      | .returned =>
        some ((owner.report teardown.connection).setPhase position teardown .reported)
      | .reported | .thrown => none

/-- `close` up to its `await`: a snapshot of `_connections`, all of which are closed. -/
def close (owner : ReactiveOwner) : ReactiveOwner :=
  { owner.connections.foldl (begin owner.graceful) owner with
    closings :=
      owner.closings ++ [List.range' owner.teardowns.length owner.connections.length] }

/-- The teardown has come to its end without an error. -/
def isReported (owner : ReactiveOwner) (position : ℕ) : Bool :=
  (owner.teardowns[position]?).any fun teardown => teardown.phase = .reported

/-- `close` behind its `await`. -/
def closed (position : ℕ) (owner : ReactiveOwner) : Option ReactiveOwner :=
  match owner.closings[position]? with
  | some positions =>
    if positions.all owner.isReported then some { owner with active := false } else none
  | none => none

end ReactiveOwner

/-- What happens to an owner. The pool of a `connect` whose `connector` calls `close` is handed over
in two pieces, since `_active` changes behind an `await` only. -/
inductive OwnerAction where
  | accept
  | connect (pool : ℕ)
  /-- A read or a write of a connection is handed to the ring. -/
  | issue (index : ℕ)
  | complete (index : ℕ) (event : Event) (result : ℤ) (free : Bool)
  /-- `onError` of the inbound stream, or of a write. -/
  | error (index : ℕ)
  /-- The expiry of the keep-alive timer. -/
  | keepAlive (index : ℕ)
  | close
  | advance (position : ℕ) (free : Bool)
  /-- The timeout of a graceful `close` of a transport connection. -/
  | timeout (index : ℕ) (free : Bool)
  /-- `close` of a transport connection behind `await _closer.future`. -/
  | resume (index : ℕ)
  /-- `close` of a transport connection behind `await _inboundEvents.close()`. -/
  | finish (index : ℕ)
  /-- `close` behind its `await`. -/
  | closed (position : ℕ)
  deriving DecidableEq, Repr

/-- The transport connection of a step of its own. -/
def OwnerAction.index : OwnerAction → ℕ
  | .issue index | .complete index .. | .timeout index _ | .resume index | .finish index => index
  | _ => 0

namespace ReactiveOwner

/-- A step of the `close` of a transport connection, or of what is in flight on it. -/
def stepHanded (handed : Handed) : OwnerAction → Option Handed
  | .issue _ =>
    if handed.accepting.isSome ∧ handed.channel.closing = false then
      some { handed with channel := { handed.channel with pending := handed.channel.pending + 1 } }
    else none
  | .complete _ event result free =>
    if 0 < handed.channel.pending then some (handed.notify event result free) else none
  | .timeout _ free =>
    if handed.channel.stage = .awaits true ∧ handed.channel.closer = false then
      some (handed.timeout free)
    else none
  | .resume _ =>
    match handed.channel.stage with
    | .awaits _ =>
      if handed.channel.closer ∧ handed.failed = false then
        some { handed with channel := { handed.channel with active := false, stage := .closed } }
      else none
    | _ => none
  | .finish _ =>
    if handed.channel.stage = .closed ∧ handed.finished = false then
      some { handed with finished := true }
    else none
  | _ => none

/-- A transport connection does a step of its own. -/
def moveHanded (action : OwnerAction) (owner : ReactiveOwner) : Option ReactiveOwner :=
  match owner.handed[action.index]? with
  | some handed => (stepHanded handed action).map fun next => owner.setHanded action.index next
  | none => none

/-- There is a reactive connection at that place. -/
def Made (owner : ReactiveOwner) (index : ℕ) : Prop :=
  (owner.handed[index]?).any (fun handed => handed.accepting.isSome) = true

instance (owner : ReactiveOwner) (index : ℕ) : Decidable (owner.Made index) := by
  unfold Made
  infer_instance

/-- A step, `none` where the action is not enabled. -/
def step (owner : ReactiveOwner) : OwnerAction → Option ReactiveOwner
  | .accept => if owner.kind = .serverConnection then some owner.accept else none
  | .connect pool => if owner.kind = .client then some (owner.connect pool) else none
  | .error index => if owner.Made index then some (owner.begin false index) else none
  | .keepAlive index => if owner.Made index then some (owner.begin owner.graceful index) else none
  | .close => some owner.close
  | .advance position free => owner.advance position free
  | .closed position => owner.closed position
  | action => owner.moveHanded action

end ReactiveOwner

end FengShui.Reactive
