import FengShui.Transport.EventMap
import FengShui.Transport.TransportMoves
import FengShui.Transport.UserData

/-!
# Descriptors, registries and events (`transport.dart`, `transport.c` and `factory.dart`)

The transport with what is below its channels: the descriptors that the kernel gives and takes back,
the registries that are keyed by them, the accepts, the table of events, and the memory of the
native clients and servers.
-/

namespace FengShui.Transport

open FengShui.Transition FengShui.SimpleMap

/-- What the factories make, and what a server accepts. -/
inductive Role where
  | tcpClient
  | unixStreamClient
  | udpClient
  | streamServer
  | udpServer
  | connection
  | file
  deriving DecidableEq, Repr

def Role.kind : Role → Kind
  | tcpClient | unixStreamClient | udpClient => .client
  | streamServer | udpServer => .server
  | connection => .serverConnection
  | file => .file

/-- The factory calls `connect`, and hands the client out when that is through. -/
def Role.connects : Role → Bool
  | tcpClient | unixStreamClient => true
  | _ => false

/-- `_connectTimeout`, `_readTimeout` and `_writeTimeout`. -/
structure Timeouts where
  connect : ℤ
  read : Option ℤ
  write : Option ℤ
  deriving DecidableEq, Repr

/-- A channel from below. -/
structure Peer where
  role : Role
  fd : ℕ
  timeouts : Timeouts
  /-- How `_connector` was completed. -/
  connector : Option Bool
  /-- `close` has come to its end. -/
  finished : Bool
  /-- `close` has thrown. -/
  failed : Bool
  /-- The factory has cleaned up behind a `connect` that failed. -/
  reported : Bool
  /-- How often `_closer` was completed. -/
  closers : ℕ
  /-- How often `_connector` was completed. -/
  connectors : ℕ
  /-- The calls of `transport_…_destroy`: how many operations were in flight. -/
  destroys : List ℕ
  /-- How often the native pointer was used behind that. -/
  dangling : ℕ
  /-- The accepts that were armed behind `close`. -/
  rearmed : ℕ
  deriving DecidableEq, Repr

namespace Peer

def create (role : Role) (fd : ℕ) (timeouts : Timeouts) : Peer where
  role := role
  fd := fd
  timeouts := timeouts
  connector := none
  finished := false
  failed := false
  reported := false
  closers := 0
  connectors := 0
  destroys := []
  dangling := 0
  rearmed := 0

/-- The registry has the channel. -/
def live (peer : Peer) : Bool := !peer.finished && !peer.reported

def timeout (event : Event) (peer : Peer) : ℤ :=
  match event with
  | .connect => peer.timeouts.connect
  | .read | .receiveMessage => peer.timeouts.read.getD transportTimeoutInfinity
  | .write | .sendMessage => peer.timeouts.write.getD transportTimeoutInfinity

/-- The native pointer is used. -/
def use (peer : Peer) : Peer :=
  if peer.destroys = [] then peer else { peer with dangling := peer.dangling + 1 }

def destroy (inflight : ℕ) (peer : Peer) : Peer :=
  { peer with destroys := peer.destroys ++ [inflight] }

end Peer

/-- A submission queue entry, of an accept by its server. -/
inductive Operation where
  | entry (submission : Submission)
  | accept (server : ℕ)
  deriving DecidableEq, Repr

namespace Operation

/-- The channel that issued the operation. -/
def channel : Operation → ℕ
  | .entry submission => submission.call.channel
  | .accept server => server

/-- `connect` and `accept` have no buffer, and 0 in its place. -/
def bufferId : Operation → ℕ
  | .entry submission => submission.bufferId.getD 0
  | .accept _ => 0

end Operation

/-- To whom a completion goes. -/
inductive Delivery where
  | notifyConnect (channel : ℕ)
  /-- `notifyData`, `notify` and `notifyDatagram`. -/
  | notifyData (channel bufferId : ℕ) (event : Event)
  | notifyAccept (channel : ℕ)
  deriving DecidableEq, Repr

/-- The function that the channel of the operation is to be notified with. -/
def Operation.delivery : Operation → Delivery
  | .entry submission =>
    match submission.bufferId with
    | some bufferId =>
      .notifyData submission.call.channel bufferId submission.call.request.event
    | none => .notifyConnect submission.call.channel
  | .accept server => .notifyAccept server

structure Host where
  transport : State
  peers : List Peer
  /-- What the kernel has open. -/
  descriptors : List ℕ
  clients : DartMap ℕ ℕ
  servers : DartMap ℕ ℕ
  connections : DartMap ℕ ℕ
  files : DartMap ℕ ℕ
  /-- The accepts in flight, by their servers. -/
  accepts : List ℕ
  /-- The table of events, `none` behind an `abort` or a search that does not end. -/
  events : Option (Map Node)
  /-- The operations in flight for which a cancel was prepared. -/
  canceled : List Operation

/-- `event &= ~bit`. -/
def clear (bit event : ℕ) : ℕ := event &&& (0xffff ^^^ bit)

/-- The event of which the `notify` functions take what is left in `event`. -/
def Event.ofBits (event : ℕ) : Event :=
  if event = Event.read.bit then .read
  else if event = Event.write.bit then .write
  else if event = Event.receiveMessage.bit then .receiveMessage
  else if event = Event.sendMessage.bit then .sendMessage
  else .connect

/-- `_pending--` completes `_closer`. -/
def Channel.completesCloser (channel : Channel) : Bool :=
  let pending := channel.pending - 1
  if channel.active then pending = 0 && channel.closing
  else pending = 0 && (channel.closing || channel.kind = .client) && !channel.closer

namespace Host

def create (capacity : ℕ) : Host where
  transport := .create capacity
  peers := []
  descriptors := []
  clients := .empty
  servers := .empty
  connections := .empty
  files := .empty
  accepts := []
  events := Map.create.reserve capacity
  canceled := []

def modifyPeer (index : ℕ) (f : Peer → Peer) (host : Host) : Host :=
  { host with peers := host.peers.modify index f }

def operations (host : Host) : List Operation :=
  host.transport.submitted.map .entry ++ host.accepts.map .accept

/-! ### The native functions -/

def eventOf (operation : Operation) (peer : Peer) : ℕ :=
  match operation with
  | .entry submission => submission.call.request.event.bit ||| peer.role.kind.bit
  | .accept _ => transportEventAccept ||| transportEventServer

def timeoutOf (operation : Operation) (peer : Peer) : ℤ :=
  match operation with
  | .entry submission => peer.timeout submission.call.request.event
  | .accept _ => transportTimeoutInfinity

/-- `io_uring_sqe_set_data64`. -/
def data (operation : Operation) (host : Host) : ℕ :=
  match host.peers[operation.channel]? with
  | some peer => userData peer.fd operation.bufferId (eventOf operation peer)
  | none => 0

/-- `transport_add_event`. -/
def addEvent (now : ℕ) (operation : Operation) (host : Host) : Host :=
  match host.peers[operation.channel]? with
  | some peer =>
    let node : Node := ⟨host.data operation, timeoutOf operation peer, now, peer.fd⟩
    { host with events := host.events.bind fun map => map.putCopy node }
  | none => host

/-- `transport_remove_event`. -/
def removeEvent (data : ℕ) (host : Host) : Host :=
  { host with events := host.events.bind fun map => EventMap.removeEvent map data }

/-- `io_uring_prep_cancel` for each of the user data. -/
def prepareCancels (prepared : List ℕ) (host : Host) : Host :=
  { host with
    canceled := host.canceled ++ host.operations.filter fun operation =>
      host.data operation ∈ prepared }

/-- `transport_cancel_by_fd`, with so many entries free in the ring. -/
def cancelByFd (fd free : ℕ) (host : Host) : Bool × Host :=
  match host.events.bind fun map => EventMap.cancelByFd map fd free with
  | some (done, prepared, map) => (done, { host.prepareCancels prepared with events := some map })
  | none => (false, { host with events := none })

/-- `transport_check_event_timeouts`, with so many entries free in the ring, and what `time(NULL)`
returns at the slots. -/
def checkEventTimeouts (now : ℕ → ℕ) (free : ℕ) (host : Host) : Host :=
  match host.events.bind fun map => EventMap.checkEventTimeouts map now free with
  | some (prepared, map) => { host.prepareCancels prepared with events := some map }
  | none => { host with events := none }

/-- `system_shutdown_descriptor`. -/
def shutdownDescriptor (fd : ℕ) (host : Host) : Host :=
  { host with descriptors := host.descriptors.erase fd }

/-- The operations in flight that a channel or one of its connections has issued. -/
def references (index : ℕ) (host : Host) : ℕ :=
  host.operations.countP fun operation => operation.channel = index ||
    (host.transport.channels[operation.channel]?.bind Channel.server) = some index

/-- `transport_client_destroy` and `transport_server_destroy`. -/
def destroy (index : ℕ) (host : Host) : Host :=
  host.modifyPeer index fun peer => peer.use.destroy (host.references index)

/-- `transport_accept`, behind `io_uring_get_sqe`. -/
def accept (now index : ℕ) (host : Host) : Host :=
  let closing := (host.transport.channels[index]?.map Channel.closing).getD false
  let host := host.modifyPeer index fun peer =>
    { peer.use with rearmed := peer.rearmed + if closing then 1 else 0 }
  addEvent now (.accept index) { host with accepts := host.accepts ++ [index] }

/-! ### Above the native functions -/

/-- The native calls of a step of the transport. Those for datagrams and `connect` read through the
pointer of the channel. -/
def submit (now : ℕ) (host : Host) (submission : Submission) : Host :=
  let host := addEvent now (.entry submission) host
  match submission.call.request.event with
  | .receiveMessage | .sendMessage | .connect => host.modifyPeer submission.call.channel Peer.use
  | .read | .write => host

/-- The channels that a step brings to `await _closer.future` behind a cancel. -/
def awaiting (before after : State) : List ℕ :=
  (List.range after.channels.length).filter fun index =>
    before.channels[index]?.map Channel.stage ≠ some (.awaits false) ∧
      after.channels[index]?.map Channel.stage = some (.awaits false)

/-- `transport_cancel_by_fd(_workerPointer, _pointer.ref.fd)`; the client checks what it returns. -/
def cancel (free : ℕ → ℕ) (host : Host) (index : ℕ) : Host :=
  match host.peers[index]? with
  | none => host
  | some peer =>
    let (done, host) := host.cancelByFd peer.fd (free index)
    match peer.role.kind with
    | .client => host.modifyPeer index fun peer =>
      { peer.use with failed := peer.failed || !done }
    | .server => host.modifyPeer index Peer.use
    | _ => host

/-- A step of the transport, with its native calls. -/
def act (action : Action) (free : ℕ → ℕ) (now : ℕ) (host : Host) : Option Host :=
  (Transport.step host.transport action).map fun next =>
    (awaiting host.transport next).foldl (cancel free)
      ((next.requests.drop host.transport.requests.length).foldl (submit now)
        { host with transport := next })

/-- `_registry.add`, `addServer` and `addConnection`. -/
def register (kind : Kind) (fd index : ℕ) (host : Host) : Host :=
  match kind with
  | .client => { host with clients := host.clients.set fd index }
  | .server => { host with servers := host.servers.set fd index }
  | .serverConnection => { host with connections := host.connections.set fd index }
  | .file => { host with files := host.files.set fd index }

/-- `_registry.remove`, `removeServer` and `removeConnection`. -/
def unregister (kind : Kind) (fd : ℕ) (host : Host) : Host :=
  match kind with
  | .client => { host with clients := host.clients.remove fd }
  | .server => { host with servers := host.servers.remove fd }
  | .serverConnection => { host with connections := host.connections.remove fd }
  | .file => { host with files := host.files.remove fd }

/-- A descriptor that the kernel may give. -/
def fresh (fd : ℕ) (host : Host) : Prop := fd ∉ host.descriptors ∧ fd < 2 ^ 31

instance (fd : ℕ) (host : Host) : Decidable (host.fresh fd) := by
  unfold fresh
  infer_instance

/-- A new channel of a descriptor. -/
def add (role : Role) (server : Option ℕ) (fd : ℕ) (timeouts : Timeouts) (host : Host) :
    Option Host :=
  (Transport.step host.transport (.opened role.kind server)).map fun next =>
    register role.kind fd host.transport.channels.length
      { host with transport := next, peers := host.peers ++ [.create role fd timeouts] }

/-- The factories, of clients with `connect` and of stream servers with `accept`. -/
def openChannel (role : Role) (fd : ℕ) (timeouts : Timeouts) (armed : Bool) (now : ℕ)
    (host : Host) :
    Option Host :=
  if host.fresh fd ∧ role ≠ .connection then
    let index := host.transport.channels.length
    (add role none fd timeouts
      { host with descriptors := host.descriptors ++ [fd] }).bind fun host =>
      if role.connects then host.act (.connect index !armed) (fun _ => 0) now
      else if role = .streamServer ∧ armed then some (host.accept now index)
      else some host
  else none

/-- The end of the `close` functions. -/
def finish (index : ℕ) (host : Host) : Option Host :=
  match host.transport.channels[index]?, host.peers[index]? with
  | some channel, some peer =>
    if channel.stage = .closed ∧ peer.finished = false ∧ peer.failed = false then
      let host :=
        ((host.shutdownDescriptor peer.fd).unregister peer.role.kind peer.fd).modifyPeer index
        fun peer => { peer with finished := true }
      match peer.role.kind with
      | .client | .server => some (host.destroy index)
      | _ => some host
    else none
  | _, _ => none

/-- `onError` of the `connect` of a unix stream client. -/
def report (index : ℕ) (host : Host) : Option Host :=
  match host.peers[index]? with
  | some peer =>
    if peer.role = .unixStreamClient ∧ peer.connector = some false ∧ peer.reported = false then
      let host := ((host.shutdownDescriptor peer.fd).unregister .client peer.fd).modifyPeer index
        fun peer => { peer with reported := true }
      some (host.destroy index)
    else none
  | none => none

/-! ### `_process` -/

def route (data : ℕ) (host : Host) : Option Delivery :=
  let event := UserData.event data
  let fd := UserData.fd data
  let bufferId := UserData.bufferId data
  if event &&& transportEventClient ≠ 0 then
    let event := clear transportEventClient event
    if event = Event.connect.bit then (host.clients.get? fd).map .notifyConnect
    else (host.clients.get? fd).map fun channel => .notifyData channel bufferId (.ofBits event)
  else if event &&& transportEventServer ≠ 0 then
    let event := clear transportEventServer event
    if event = Event.read.bit ∨ event = Event.write.bit then
      (host.connections.get? fd).map fun channel => .notifyData channel bufferId (.ofBits event)
    else if event = Event.receiveMessage.bit ∨ event = Event.sendMessage.bit then
      (host.servers.get? fd).map fun channel => .notifyData channel bufferId (.ofBits event)
    else (host.servers.get? fd).map .notifyAccept
  else if event &&& transportEventFile ≠ 0 then
    (host.files.get? fd).map fun channel =>
      .notifyData channel bufferId (.ofBits (clear transportEventFile event))
  else none

def notifyConnect (index : ℕ) (result : ℤ) (host : Host) : Host :=
  match host.transport.channels[index]? with
  | none => host
  | some channel =>
    modifyPeer index
      (fun peer => { peer with
        closers := peer.closers + if channel.completesCloser then 1 else 0
        connectors := peer.connectors + 1
        connector := peer.connector.orElse fun _ => some (channel.active && result = 0) })
      { host with transport := host.transport.setChannel index channel.lower }

def notifyData (index bufferId : ℕ) (event : Event) (call : Call) (result : ℤ) (free : ℕ → ℕ)
    (host : Host) : Host :=
  match host.transport.channels[index]? with
  | none => host
  | some channel =>
    let call := { call with channel := index, request := { call.request with event := event } }
    let next := host.transport.notify call bufferId result channel
    (awaiting host.transport next).foldl (cancel free)
      (modifyPeer index
        (fun peer => { peer with
          closers := peer.closers + if channel.completesCloser then 1 else 0 })
        { host with transport := next })

/-- `notifyAccept`. The acceptor may close its server, and the ring may be full behind it. -/
def notifyAccept (index : ℕ) (result : ℤ) (acceptor : Option Bool) (armed : Bool) (free : ℕ → ℕ)
    (now : ℕ) (host : Host) : Option Host :=
  match host.transport.channels[index]?, host.peers[index]? with
  | some channel, some peer =>
    if channel.closing then some host
    else
      let accepted :=
        if 0 < result then
          (add .connection (some index) result.toNat peer.timeouts host).bind fun host =>
            match acceptor with
            | some graceful => host.act (.close index graceful) free now
            | none => some host
        else some host
      accepted.map fun host => if armed then host.accept now index else host
  | _, _ => some host

/-- The completion of an operation takes its event from the table. -/
def retire (operation : Operation) (host : Host) : Host :=
  removeEvent (host.data operation) { host with canceled := host.canceled.erase operation }

/-- The completion of a submission. -/
def complete (position : ℕ) (result : ℤ) (free : ℕ → ℕ) (host : Host) : Option Host :=
  match host.transport.submitted[position]? with
  | none => none
  | some submission =>
    let retired := retire (.entry submission)
      { host with
        transport := { host.transport with
          submitted := host.transport.submitted.eraseIdx position } }
    match host.route (host.data (.entry submission)) with
    | some (.notifyConnect index) => some (retired.notifyConnect index result)
    | some (.notifyData index bufferId event) =>
      some (retired.notifyData index bufferId event submission.call result free)
    -- An accept has an event of its own.
    | some (.notifyAccept _) | none => some retired

/-- The completion of an accept, with the descriptor of a connection or an error. -/
def accepted (position : ℕ) (result : ℤ) (acceptor : Option Bool) (armed : Bool) (free : ℕ → ℕ)
    (now : ℕ) (host : Host) : Option Host :=
  match host.accepts[position]? with
  | none => none
  | some server =>
    if 0 < result → host.fresh result.toNat then
      let retired := retire (.accept server)
        { host with
          accepts := host.accepts.eraseIdx position
          descriptors :=
            if 0 < result then host.descriptors ++ [result.toNat] else host.descriptors }
      match host.route (host.data (.accept server)) with
      | some (.notifyAccept index) => retired.notifyAccept index result acceptor armed free now
      | _ => some retired
    else none

/-- The steps of the transport that are steps here: a client is in nobody's hands before it is
connected, nor behind a `connect` that failed; a stream server has no datagrams; a server waits for
its connections; a `close` that threw does not go on. -/
def permits (host : Host) : Action → Bool
  | .call index _ _ => (host.peers[index]?).any fun peer =>
    (!peer.role.connects || peer.connector = some true) && peer.role ≠ .streamServer
  | .resume _ | .release _ | .closeFailed => true
  | .close index _ => (host.peers[index]?).any fun peer => !peer.reported
  | .closedConnections index => host.transport.channels.all fun channel =>
    channel.server ≠ some index || channel.closer || channel.pending ≤ 0
  | .timeout index | .closed index => (host.peers[index]?).any fun peer => !peer.failed
  | .opened .. | .connect .. | .complete .. => false

end Host

inductive HostAction where
  /-- A factory opens a descriptor; the ring has an entry for its `connect` or `accept`. -/
  | openChannel (role : Role) (fd : ℕ) (timeouts : Timeouts) (armed : Bool) (now : ℕ)
  | act (action : Action) (free : ℕ → ℕ) (now : ℕ)
  | complete (position : ℕ) (result : ℤ) (free : ℕ → ℕ)
  | accepted (position : ℕ) (result : ℤ) (acceptor : Option Bool) (armed : Bool) (free : ℕ → ℕ)
    (now : ℕ)
  | finish (index : ℕ)
  | report (index : ℕ)
  | checkEventTimeouts (now : ℕ → ℕ) (free : ℕ)

namespace Host

def step (host : Host) : HostAction → Option Host
  | .openChannel role fd timeouts armed now => host.openChannel role fd timeouts armed now
  | .act action free now =>
    if host.permits action then
      match action with
      | .timeout index =>
        (host.act (.timeout index) free now).map fun host => host.cancel free index
      | action => host.act action free now
    else none
  | .complete position result free => host.complete position result free
  | .accepted position result acceptor armed free now =>
    host.accepted position result acceptor armed free now
  | .finish index => host.finish index
  | .report index => host.report index
  | .checkEventTimeouts now free => some (host.checkEventTimeouts now free)

end Host

end FengShui.Transport
