import FengShui.Core.SystemErrors
import Mathlib.Algebra.Ring.Int.Parity

/-!
# How clients and servers are initialized

`transport/socket.c`, `transport/client.c`, `transport/server.c`, `transport/client/factory.dart`
and `transport/server/factory.dart`.

A native function makes a socket, sets the options that the configuration asks for, and binds a
server. The number it gives up with goes through an `int8_t` to the factory, which closes what it
knows of, frees the structure and throws. The kernel is a parameter; whatever it is asked, and what
the factory does then, is traced.
-/

namespace FengShui.Transport

/-- `TRANSPORT_SOCKET_OPTION_…`. -/
inductive SocketOption where
  | socketNonblock
  | socketCloexec
  | socketReuseaddr
  | socketReuseport
  | socketRcvbuf
  | socketSndbuf
  | socketBroadcast
  | socketKeepalive
  | socketRcvlowat
  | socketSndlowat
  | ipTtl
  | ipFreebind
  | ipMulticastAll
  | ipMulticastIf
  | ipMulticastLoop
  | ipMulticastTtl
  | tcpQuickack
  | tcpDeferAccept
  | tcpFastopen
  | tcpKeepidle
  | tcpKeepcnt
  | tcpKeepintvl
  | tcpMaxseg
  | tcpNodelay
  | tcpSyncnt
  deriving DecidableEq, Repr

/-- The place of the option in the flags. -/
def SocketOption.bit : SocketOption → ℕ
  | socketNonblock => 1
  | socketCloexec => 2
  | socketReuseaddr => 3
  | socketReuseport => 4
  | socketRcvbuf => 5
  | socketSndbuf => 6
  | socketBroadcast => 7
  | socketKeepalive => 8
  | socketRcvlowat => 9
  | socketSndlowat => 10
  | ipTtl => 11
  | ipFreebind => 16
  | ipMulticastAll => 17
  | ipMulticastIf => 18
  | ipMulticastLoop => 19
  | ipMulticastTtl => 20
  | tcpQuickack => 21
  | tcpDeferAccept => 22
  | tcpFastopen => 23
  | tcpKeepidle => 24
  | tcpKeepcnt => 25
  | tcpKeepintvl => 26
  | tcpMaxseg => 27
  | tcpNodelay => 28
  | tcpSyncnt => 29

/-- `AF_INET` or `AF_UNIX`, and the type and protocol of a socket. -/
inductive SocketKind where
  | tcp
  | udp
  | unixStream
  deriving DecidableEq, Repr

/-- `sockaddr_in` and `sockaddr_un`. -/
inductive SocketAddress where
  | inet (ip : String) (port : ℕ)
  | unix (path : String)
  deriving DecidableEq, Repr

/-- What the kernel is asked, and what the factory does. -/
inductive NativeCall where
  | socket (kind : SocketKind)
  /-- `fcntl` with `F_GETFL`. -/
  | getFlags (fd : ℤ)
  /-- `fcntl` with `F_SETFL`. -/
  | setFlags (fd : ℤ) (flags : ℕ)
  | setsockopt (fd : ℤ) (option : SocketOption) (value : ℕ)
  | bind (fd : ℤ) (address : SocketAddress)
  | listen (fd : ℤ) (maxConnections : ℤ)
  /-- `system_shutdown_descriptor`. -/
  | shutdownDescriptor (fd : ℤ)
  /-- `transport_client_destroy` and `transport_server_destroy`. -/
  | destroy
  /-- `_registry.add` and `_registry.addServer`. -/
  | register (fd : ℤ)
  deriving DecidableEq, Repr

/-- A call with its answer. -/
structure Traced where
  call : NativeCall
  answer : ℤ
  deriving DecidableEq, Repr

namespace Traced

/-- The call has failed. -/
def refused (traced : Traced) : Bool :=
  match traced.call with
  | .socket _ => traced.answer = -1
  | .setsockopt .. => traced.answer ≠ 0
  | .getFlags _ | .setFlags .. | .bind .. | .listen .. => traced.answer < 0
  | .shutdownDescriptor _ | .destroy | .register _ => false

/-- The call is that of a socket. -/
def isSocket (traced : Traced) : Bool :=
  match traced.call with
  | .socket _ => true
  | _ => false

end Traced

/-- The descriptors that the calls have opened. -/
def opened (trace : List Traced) : List ℤ :=
  (trace.filter fun traced => traced.isSocket && !traced.refused).map Traced.answer

/-- How often the calls have closed a descriptor. -/
def closings (fd : ℤ) (trace : List Traced) : ℕ :=
  trace.countP fun traced => traced.call = .shutdownDescriptor fd

/-- The kernel: what it answers to a call behind those before it. -/
structure Kernel where
  answer : List Traced → NativeCall → ℤ
  socket : ∀ (trace : List Traced) (kind : SocketKind), answer trace (.socket kind) = -1 ∨
    0 ≤ answer trace (.socket kind) ∧ answer trace (.socket kind) < 2 ^ 31
  bind : ∀ (trace : List Traced) (fd : ℤ) (address : SocketAddress),
    answer trace (.bind fd address) = 0 ∨ answer trace (.bind fd address) = -1
  listen : ∀ (trace : List Traced) (fd maxConnections : ℤ),
    answer trace (.listen fd maxConnections) = 0 ∨ answer trace (.listen fd maxConnections) = -1

/-- A call, traced. -/
def Kernel.call (kernel : Kernel) (call : NativeCall) (trace : List Traced) : ℤ × List Traced :=
  (kernel.answer trace call, trace ++ [⟨call, kernel.answer trace call⟩])

namespace Kernel

/-- A descriptor above all that were opened. -/
def next (trace : List Traced) : ℤ := (opened trace).foldr max 2 + 1

/-- It is above zero. -/
theorem next_pos (trace : List Traced) : 0 < next trace := by
  unfold next
  generalize opened trace = fds
  induction fds with
  | nil => decide
  | cons first fds ih =>
    rw [List.foldr_cons]
    omega

/-- The kernel that refuses some calls, and gives descriptors in ascending order. -/
def refusing (refuses : NativeCall → Bool) : Kernel where
  answer trace call :=
    if refuses call then -1
    else
      match call with
      | .socket _ => if next trace < 2 ^ 31 then next trace else -1
      | _ => 0
  socket trace kind := by
    split
    · exact .inl rfl
    · dsimp only
      split
      · rename_i hlt
        exact .inr ⟨Int.le_of_lt (next_pos trace), hlt⟩
      · exact .inl rfl
  bind trace fd address := by
    split
    · exact .inr rfl
    · exact .inl rfl
  listen trace fd maxConnections := by
    split
    · exact .inr rfl
    · exact .inl rfl

end Kernel

/-! ## `socket.c` -/

/-- `fcntl` with the flag of an option, or `setsockopt` with a value. -/
inductive Setting where
  | flag (option : SocketOption) (flag : ℕ)
  | value (option : SocketOption) (value : ℕ)
  deriving DecidableEq, Repr

def Setting.option : Setting → SocketOption
  | flag option _ | value option _ => option

/-- `O_NONBLOCK`. -/
def oNonblock : ℕ := 0o4000

/-- `O_CLOEXEC`. -/
def oCloexec : ℕ := 0o2000000

/-- The settings that the flags ask for. -/
def asked (flags : ℕ) (settings : List Setting) : List Setting :=
  settings.filter fun setting => flags.testBit setting.option.bit

/-- Sets an option; false where the kernel refuses it. -/
def setOption (kernel : Kernel) (fd : ℤ) (setting : Setting) (trace : List Traced) :
    Bool × List Traced :=
  match setting with
  | .flag _ flag =>
    let (flags, trace) := kernel.call (.getFlags fd) trace
    if flags < 0 then (false, trace)
    else
      let (result, trace) := kernel.call (.setFlags fd (flags.toNat ||| flag)) trace
      (!decide (result < 0), trace)
  | .value option value =>
    let (result, trace) := kernel.call (.setsockopt fd option value) trace
    (decide (result = 0), trace)

/-- The body of the socket functions behind `socket`, with the negative bit of the first option that
is refused. -/
def setOptions (kernel : Kernel) (fd : ℤ) : List Setting → List Traced → ℤ × List Traced
  | [], trace => (fd, trace)
  | setting :: settings, trace =>
    let (done, trace) := setOption kernel fd setting trace
    if done then setOptions kernel fd settings trace else (-2 ^ setting.option.bit, trace)

/-- The socket functions. -/
def createSocket (kernel : Kernel) (kind : SocketKind) (settings : List Setting)
    (trace : List Traced) : ℤ × List Traced :=
  let (fd, trace) := kernel.call (.socket kind) trace
  if fd = -1 then (-1, trace) else setOptions kernel fd settings trace

/-- What `transport_client_configuration` and `transport_server_configuration` have of a socket. -/
structure SocketConfiguration where
  socketMaxConnections : ℤ
  socketConfigurationFlags : ℕ
  socketReceiveBufferSize : ℕ
  socketSendBufferSize : ℕ
  socketReceiveLowAt : ℕ
  socketSendLowAt : ℕ
  ipTtl : ℕ
  tcpKeepAliveIdle : ℕ
  tcpKeepAliveMaxCount : ℕ
  tcpKeepAliveIndividualCount : ℕ
  tcpMaxSegmentSize : ℕ
  tcpSynCount : ℕ
  /-- A pointer. -/
  ipMulticastInterface : ℕ
  ipMulticastTtl : ℕ
  deriving DecidableEq, Repr

namespace SocketConfiguration

variable (configuration : SocketConfiguration)

/-- The options of `transport_socket_create_tcp`, in its order. -/
def tcpSettings : List Setting :=
  asked configuration.socketConfigurationFlags
    [.flag .socketNonblock oNonblock, .flag .socketCloexec oCloexec, .value .socketReuseaddr 1,
     .value .socketReuseport 1, .value .socketRcvbuf configuration.socketReceiveBufferSize,
     .value .socketSndbuf configuration.socketSendBufferSize, .value .socketKeepalive 1,
     .value .socketRcvlowat configuration.socketReceiveLowAt,
     .value .socketSndlowat configuration.socketSendLowAt, .value .ipTtl configuration.ipTtl,
     .value .ipFreebind 1, .value .tcpQuickack 1, .value .tcpDeferAccept 1, .value .tcpFastopen 1,
     .value .tcpKeepidle configuration.tcpKeepAliveIdle,
     .value .tcpKeepcnt configuration.tcpKeepAliveMaxCount,
     .value .tcpKeepintvl configuration.tcpKeepAliveIndividualCount,
     .value .tcpMaxseg configuration.tcpMaxSegmentSize, .value .tcpNodelay 1,
     .value .tcpSyncnt configuration.tcpSynCount]

/-- The options of `transport_socket_create_udp`: `SO_REUSEADDR` is set whether or not it is asked
for. -/
def udpSettings : List Setting :=
  asked configuration.socketConfigurationFlags
      [.flag .socketNonblock oNonblock, .flag .socketCloexec oCloexec] ++
    [.value .socketReuseaddr 1] ++
    asked configuration.socketConfigurationFlags
      [.value .socketReuseport 1, .value .socketRcvbuf configuration.socketReceiveBufferSize,
       .value .socketSndbuf configuration.socketSendBufferSize, .value .socketBroadcast 1,
       .value .socketRcvlowat configuration.socketReceiveLowAt,
       .value .socketSndlowat configuration.socketSendLowAt, .value .ipTtl configuration.ipTtl,
       .value .ipFreebind 1, .value .ipMulticastAll 1,
       .value .ipMulticastIf configuration.ipMulticastInterface, .value .ipMulticastLoop 1,
       .value .ipMulticastTtl configuration.ipMulticastTtl]

/-- The options of `transport_socket_create_unix_stream`. -/
def unixStreamSettings : List Setting :=
  asked configuration.socketConfigurationFlags
    [.flag .socketNonblock oNonblock, .flag .socketCloexec oCloexec,
     .value .socketRcvbuf configuration.socketReceiveBufferSize,
     .value .socketSndbuf configuration.socketSendBufferSize, .value .socketKeepalive 1,
     .value .socketRcvlowat configuration.socketReceiveLowAt,
     .value .socketSndlowat configuration.socketSendLowAt]

end SocketConfiguration

section

variable (kernel : Kernel) (configuration : SocketConfiguration)

def transportSocketCreateTcp : List Traced → ℤ × List Traced :=
  createSocket kernel .tcp configuration.tcpSettings

def transportSocketCreateUdp : List Traced → ℤ × List Traced :=
  createSocket kernel .udp configuration.udpSettings

def transportSocketCreateUnixStream : List Traced → ℤ × List Traced :=
  createSocket kernel .unixStream configuration.unixStreamSettings

end

/-! ## `client.c` and `server.c` -/

/-- `transport_client` and `transport_server`, of which `calloc` leaves the fields 0. -/
structure Native where
  fd : ℤ
  /-- `int8_t initialization_error`. -/
  initializationError : ℤ
  deriving DecidableEq, Repr

namespace Native

def zero : Native := ⟨0, 0⟩

/-- `initialization_error = result`. -/
def fail (result : ℤ) (native : Native) : Native :=
  { native with initializationError := result.bmod (2 ^ 8) }

end Native

/-- The calls behind the socket, up to the first one that is refused. -/
def callAll (kernel : Kernel) (native : Native) : List NativeCall → List Traced →
    Native × List Traced
  | [], trace => (native, trace)
  | call :: calls, trace =>
    let (result, trace) := kernel.call call trace
    if result < 0 then (native.fail result, trace) else callAll kernel native calls trace

/-- The `transport_…_initialize_…` functions: a socket, and calls on its descriptor. -/
def initializeNative (kernel : Kernel) (create : List Traced → ℤ × List Traced)
    (calls : ℤ → List NativeCall) (trace : List Traced) : Native × List Traced :=
  let (result, trace) := create trace
  if result < 0 then (Native.zero.fail result, trace)
  else
    let native : Native := { Native.zero with fd := result.bmod (2 ^ 32) }
    callAll kernel native (calls native.fd) trace

section

variable (kernel : Kernel) (configuration : SocketConfiguration)

def transportClientInitializeTcp : List Traced → Native × List Traced :=
  initializeNative kernel (transportSocketCreateTcp kernel configuration) fun _ => []

def transportClientInitializeUdp (sourceIp : String) (sourcePort : ℕ) :
    List Traced → Native × List Traced :=
  initializeNative kernel (transportSocketCreateUdp kernel configuration) fun fd =>
    [.bind fd (.inet sourceIp sourcePort)]

def transportClientInitializeUnixStream : List Traced → Native × List Traced :=
  initializeNative kernel (transportSocketCreateUnixStream kernel configuration) fun _ => []

def transportServerInitializeTcp (ip : String) (port : ℕ) : List Traced → Native × List Traced :=
  initializeNative kernel (transportSocketCreateTcp kernel configuration) fun fd =>
    [.bind fd (.inet ip port), .listen fd configuration.socketMaxConnections]

def transportServerInitializeUdp (ip : String) (port : ℕ) : List Traced → Native × List Traced :=
  initializeNative kernel (transportSocketCreateUdp kernel configuration) fun fd =>
    [.bind fd (.inet ip port)]

def transportServerInitializeUnixStream (path : String) : List Traced → Native × List Traced :=
  initializeNative kernel (transportSocketCreateUnixStream kernel configuration) fun fd =>
    [.bind fd (.unix path), .listen fd configuration.socketMaxConnections]

end

/-! ## The factories -/

/-- What a factory throws. -/
inductive Thrown where
  /-- `TransportInitializationException`. -/
  | initialization (message : String)
  /-- `UnimplementedError`, of `SystemErrors.of`. -/
  | unimplemented (message : String)
  /-- `TypeError`, of `!` on a null. -/
  | typeError
  deriving DecidableEq, Repr

namespace TransportMessages

/-- `clientError` and `serverError`, by their label, in the exception. -/
def error (label : String) (result : ℤ) : Thrown :=
  match SystemErrors.of result with
  | .ok message => .initialization s!"[{label}] code = {result}, message = {message}"
  | .error message => .unimplemented message

/-- `clientSocketError` and `serverSocketError`, by their label, in the exception. -/
def socketError (label : String) (result : ℤ) : Thrown :=
  .initialization s!"[{label}] unable to set socket option: {-result}"

end TransportMessages

/-- The functions of the factories behind the native one: they check the error, clean up and throw,
or register the channel. -/
def openNative (label : String) (opening : Native × List Traced) :
    Except Thrown Native × List Traced :=
  let (native, trace) := opening
  if native.initializationError < 0 then
    if 0 < native.fd then
      (.error (TransportMessages.error label native.initializationError),
        trace ++ [⟨.shutdownDescriptor native.fd, 0⟩, ⟨.destroy, 0⟩])
    else
      (.error (TransportMessages.socketError label native.initializationError),
        trace ++ [⟨.destroy, 0⟩])
  else (.ok native, trace ++ [⟨.register native.fd, 0⟩])

/-- The functions of the factories, with their addresses. -/
inductive Factory where
  | tcpClient
  | udpClient (sourceIp : String) (sourcePort : ℕ)
  | unixStreamClient
  | tcpServer (ip : String) (port : ℕ)
  | udpServer (ip : String) (port : ℕ)
  | unixStreamServer (path : String)
  deriving DecidableEq, Repr

namespace Factory

/-- `tcp`, `udp` and `unixStream` of `TransportClientsFactory` and `TransportServersFactory`, for
one client or server. -/
def initialized (kernel : Kernel) (configuration : SocketConfiguration) :
    Factory → List Traced → Except Thrown Native × List Traced
  | tcpClient, trace =>
    openNative "client" (transportClientInitializeTcp kernel configuration trace)
  | udpClient ip port, trace =>
    openNative "client" (transportClientInitializeUdp kernel configuration ip port trace)
  | unixStreamClient, trace =>
    openNative "client" (transportClientInitializeUnixStream kernel configuration trace)
  | tcpServer ip port, trace =>
    openNative "server" (transportServerInitializeTcp kernel configuration ip port trace)
  | udpServer ip port, trace =>
    openNative "server" (transportServerInitializeUdp kernel configuration ip port trace)
  | unixStreamServer path, trace =>
    openNative "server" (transportServerInitializeUnixStream kernel configuration path trace)

end Factory

end FengShui.Transport
