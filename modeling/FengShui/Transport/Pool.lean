import FengShui.Transport.Channel
import FengShui.Transport.Initialization

/-!
# Pools of clients (`transport/client/factory.dart`, `transport/client/client.dart`)

`tcp` and `unixStream` make their clients in a loop, register each one and let it connect; the
future of the pool waits for all of them. Behind the loop the completions come in any order, the
transport may close the clients that its registry has, and behind a `connect` that failed the unix
stream factory cleans up. What is asked of the kernel is traced.
-/

namespace FengShui.Transport

/-- The factory functions that make pools. -/
inductive PoolKind where
  | tcp
  | unixStream
  deriving DecidableEq, Repr

def PoolKind.factory : PoolKind → Factory
  | tcp => .tcpClient
  | unixStream => .unixStreamClient

/-- A `TransportClientChannel` with its native client. -/
structure PoolClient where
  /-- `_pointer.ref.fd`. -/
  fd : ℤ
  channel : Channel
  /-- The ring has its `connect`. -/
  connecting : Bool
  /-- How `_connector` was completed. -/
  connector : Option Bool
  /-- The factory has cleaned up behind a `connect` that failed. -/
  reported : Bool
  /-- `close` has come to its end. -/
  finished : Bool
  /-- `close` has thrown. -/
  failed : Bool
  /-- How often the native client was destroyed. -/
  destroys : ℕ

namespace PoolClient

def create (fd : ℤ) : PoolClient where
  fd := fd
  channel := .create .client none
  connecting := false
  connector := none
  reported := false
  finished := false
  failed := false
  destroys := 0

/-- `connect`, of a client that does not close: without a timeout `_connectTimeout!` throws. -/
def connect (connectTimeout : Option ℤ) (client : PoolClient) : Option PoolClient :=
  connectTimeout.map fun _ =>
    { client with
      channel := { client.channel with pending := client.channel.pending + 1 }
      connecting := true }

/-- `notifyConnect`. -/
def notifyConnect (result : ℤ) (client : PoolClient) : PoolClient :=
  { client with
    channel := client.channel.lower
    connector := client.connector.orElse fun _ => some (client.channel.active && result = 0) }

/-- `close` up to its first `await`. Without a timeout it cancels what is pending, and throws where
the ring has no entry for that. -/
def close (graceful cancels : Bool) (client : PoolClient) : PoolClient :=
  if client.channel.closing then client
  else
    { client with
      channel := client.channel.close graceful
      failed := decide (0 < client.channel.pending) && !graceful && !cancels }

/-- `onTimeout` of a graceful `close`. -/
def timeout (cancels : Bool) (client : PoolClient) : PoolClient :=
  { client with
    channel := { client.channel with active := false, stage := .awaits false }
    failed := !cancels }

/-- `close` behind `await _closer.future`. -/
def closed (client : PoolClient) : PoolClient :=
  { client with channel := { client.channel with active := false, stage := .closed } }

/-- `transport_client_destroy`. -/
def destroy (client : PoolClient) : PoolClient := { client with destroys := client.destroys + 1 }

/-- The `connect` has failed. -/
def refused (client : PoolClient) : Bool := client.connector = some false

end PoolClient

structure Pool where
  kind : PoolKind
  clients : List PoolClient
  /-- `TransportClientRegistry`, of the places of the clients. -/
  registry : DartMap ℤ ℕ
  /-- How many native clients were allocated. -/
  natives : ℕ
  /-- What the loop threw. -/
  thrown : Option Thrown
  trace : List Traced

namespace Pool

def empty (kind : PoolKind) : Pool := ⟨kind, [], .empty, 0, none, []⟩

/-- `_registry.add` and `clients.add`. -/
def add (client : PoolClient) (trace : List Traced) (pool : Pool) : Pool :=
  { pool with
    clients := pool.clients ++ [client]
    registry := pool.registry.set client.fd pool.clients.length
    natives := pool.natives + 1
    trace := trace }

/-- A round of the loop. -/
def openClient (kernel : Kernel) (configuration : SocketConfiguration) (connectTimeout : Option ℤ)
    (pool : Pool) : Pool :=
  let (result, trace) := pool.kind.factory.initialized kernel configuration pool.trace
  match result with
  | .error thrown =>
    { pool with natives := pool.natives + 1, thrown := some thrown, trace := trace }
  | .ok native =>
    match (PoolClient.create native.fd).connect connectTimeout with
    | some client => pool.add client trace
    | none => { pool.add (PoolClient.create native.fd) trace with thrown := some .typeError }

/-- The loop, which ends where it throws. -/
def openClients (kernel : Kernel) (configuration : SocketConfiguration)
    (connectTimeout : Option ℤ) : ℕ → Pool → Pool
  | 0, pool => pool
  | rounds + 1, pool =>
    let pool := pool.openClient kernel configuration connectTimeout
    if pool.thrown.isSome then pool
    else openClients kernel configuration connectTimeout rounds pool

/-- `tcp` and `unixStream` up to `Future.wait`. -/
def create (kernel : Kernel) (configuration : SocketConfiguration) (connectTimeout : Option ℤ)
    (kind : PoolKind) (size : ℕ) : Pool :=
  openClients kernel configuration connectTimeout size (empty kind)

def modifyClient (index : ℕ) (f : PoolClient → PoolClient) (pool : Pool) : Pool :=
  { pool with clients := pool.clients.modify index f }

/-- `_channel.close()`, `_registry.remove` and `transport_client_destroy`. -/
def cleanUp (index : ℕ) (fd : ℤ) (pool : Pool) : Pool :=
  { pool with
    clients := pool.clients.modify index PoolClient.destroy
    registry := pool.registry.remove fd
    trace := pool.trace ++ [⟨.shutdownDescriptor fd, 0⟩, ⟨.destroy, 0⟩] }

end Pool

inductive PoolAction where
  /-- The completion of a `connect`. -/
  | connected (index : ℕ) (result : ℤ)
  /-- `onError` of the `connect` of a unix stream client. -/
  | report (index : ℕ)
  /-- `close` of the registry; whether the ring has an entry for the cancel. -/
  | close (index : ℕ) (graceful cancels : Bool)
  /-- The timeout of a graceful `close`. -/
  | timeout (index : ℕ) (cancels : Bool)
  /-- `close` behind `await _closer.future`. -/
  | closed (index : ℕ)
  /-- The end of `close`. -/
  | finish (index : ℕ)
  deriving DecidableEq, Repr

namespace Pool

/-- The step of a client that meets a condition. -/
def proceed (index : ℕ) (enabled : PoolClient → Bool) (next : PoolClient → Pool) (pool : Pool) :
    Option Pool :=
  (pool.clients[index]?).bind fun client => if enabled client then some (next client) else none

/-- What makes a step of one client possible. -/
theorem proceed_eq_some {index : ℕ} {enabled : PoolClient → Bool} {next : PoolClient → Pool}
    {pool after : Pool} : pool.proceed index enabled next = some after ↔
      ∃ client, pool.clients[index]? = some client ∧ enabled client = true ∧
        next client = after := by
  unfold proceed
  rw [Option.bind_eq_some_iff]
  refine exists_congr fun client => and_congr_right fun _ => ?_
  rw [Option.ite_none_right_eq_some, Option.some.injEq]

/-- The completion of a `connect`, for the client that the registry has under its descriptor. -/
def complete (index : ℕ) (result : ℤ) (fd : ℤ) (pool : Pool) : Pool :=
  let pool := pool.modifyClient index fun client => { client with connecting := false }
  match pool.registry.get? fd with
  | some target => pool.modifyClient target (PoolClient.notifyConnect result)
  | none => pool

/-- A step behind the loop, `none` where the action is not enabled. -/
def step (pool : Pool) : PoolAction → Option Pool
  | .connected index result =>
    pool.proceed index PoolClient.connecting fun client => pool.complete index result client.fd
  | .report index =>
    pool.proceed index
      (fun client => pool.kind = .unixStream && client.refused && !client.reported)
      fun client =>
        (pool.modifyClient index fun client => { client with reported := true }).cleanUp
          index client.fd
  | .close index graceful cancels =>
    pool.proceed index (fun client => pool.registry.get? client.fd = some index) fun _ =>
      pool.modifyClient index (PoolClient.close graceful cancels)
  | .timeout index cancels =>
    pool.proceed index
      (fun client => client.channel.stage = .awaits true && !client.channel.closer)
      fun _ => pool.modifyClient index (PoolClient.timeout cancels)
  | .closed index =>
    pool.proceed index
      (fun client => client.channel.closer && !client.failed &&
        (client.channel.stage = .awaits true || client.channel.stage = .awaits false))
      fun _ => pool.modifyClient index PoolClient.closed
  | .finish index =>
    pool.proceed index (fun client => client.channel.stage = .closed && !client.finished)
      fun client =>
        (pool.modifyClient index fun client => { client with finished := true }).cleanUp
          index client.fd

end Pool

end FengShui.Transport
