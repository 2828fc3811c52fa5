import FengShui.Core.Dart
import FengShui.Transport.Initialization

/-!
# From a configuration to the calls (`factory.dart`, `client.c` and `server.c` of `transport`)

The factories translate a configuration into a set of flags and a structure of the values, and hand
addresses over as arguments of the native functions, which make socket addresses of them. A client
keeps the address that it connects or sends to.
-/

namespace FengShui.Transport

/-! ## Addresses -/

/-- `InternetAddress` of `dart:io`. -/
inductive InternetAddress where
  | ipv4 (first second third fourth : UInt8)
  | ipv6 (text : String)
  | unix (path : String)
  deriving DecidableEq, Repr

/-- The decimal digits of an octet. -/
def decimal (octet : UInt8) : List Char := Nat.toDigits 10 octet.toNat

/-- `InternetAddress.address`. -/
def InternetAddress.address : InternetAddress → String
  | ipv4 first second third fourth =>
    String.ofList (['.'].intercalate [decimal first, decimal second, decimal third, decimal fourth])
  | ipv6 text => text
  | unix path => path

/-- The value of a digit. -/
def digit (c : Char) : ℕ :=
  if '0' ≤ c ∧ c ≤ '9' then c.toNat - '0'.toNat
  else if 'a' ≤ c ∧ c ≤ 'f' then c.toNat - 'a'.toNat + 10
  else if 'A' ≤ c ∧ c ≤ 'F' then c.toNat - 'A'.toNat + 10
  else 16

/-- A number in a base, by its digits. -/
def number (base : ℕ) : List Char → ℕ → Option ℕ
  | [], value => some value
  | c :: digits, value =>
    if digit c < base then number base digits (value * base + digit c) else none

/-- A port behind `int32_t` and `htons`. -/
def nativePort (port : ℤ) : ℕ := (port % 2 ^ 16).toNat

/-- `toNativeUtf8`. -/
def toNativeUtf8 (string : DartString) : String := String.ofList (Unicode.utf16Decode string)

/-- An address as it is given to a factory. -/
inductive Given where
  | inet (address : InternetAddress) (port : ℤ)
  | unix (path : DartString)
  deriving DecidableEq, Repr

/-- The socket options of `TransportTcpClientConfiguration` and
`TransportTcpServerConfiguration`. -/
structure TcpOptions where
  socketReceiveBufferSize : Option ℤ
  socketSendBufferSize : Option ℤ
  socketNonblock : Option Bool
  socketCloexec : Option Bool
  socketReuseAddress : Option Bool
  socketReusePort : Option Bool
  socketKeepalive : Option Bool
  socketReceiveLowAt : Option ℤ
  socketSendLowAt : Option ℤ
  ipTtl : Option ℤ
  ipFreebind : Option Bool
  tcpQuickack : Option Bool
  tcpDeferAccept : Option Bool
  tcpFastopen : Option Bool
  tcpKeepAliveIdle : Option ℤ
  tcpKeepAliveMaxCount : Option ℤ
  tcpKeepAliveIndividualCount : Option ℤ
  tcpMaxSegmentSize : Option ℤ
  tcpNoDelay : Option Bool
  tcpSynCount : Option ℤ
  deriving DecidableEq, Repr

/-- `TransportUdpMulticastConfiguration`. -/
structure UdpMulticastConfiguration where
  groupAddress : String
  localAddress : String
  localInterface : Option String
  interfaceIndex : Option ℤ
  calculateInterfaceIndex : Bool
  deriving DecidableEq, Repr

/-- The socket options of `TransportUdpClientConfiguration` and
`TransportUdpServerConfiguration`. -/
structure UdpOptions where
  socketReceiveBufferSize : Option ℤ
  socketSendBufferSize : Option ℤ
  socketNonblock : Option Bool
  socketCloexec : Option Bool
  socketReuseAddress : Option Bool
  socketReusePort : Option Bool
  socketBroadcast : Option Bool
  socketReceiveLowAt : Option ℤ
  socketSendLowAt : Option ℤ
  ipTtl : Option ℤ
  ipFreebind : Option Bool
  ipMulticastAll : Option Bool
  ipMulticastInterface : Option UdpMulticastConfiguration
  ipMulticastLoop : Option ℤ
  ipMulticastTtl : Option ℤ
  deriving DecidableEq, Repr

/-- The socket options of `TransportUnixStreamClientConfiguration` and
`TransportUnixStreamServerConfiguration`. -/
structure UnixStreamOptions where
  socketReceiveBufferSize : Option ℤ
  socketSendBufferSize : Option ℤ
  socketNonblock : Option Bool
  socketCloexec : Option Bool
  socketKeepalive : Option Bool
  socketReceiveLowAt : Option ℤ
  socketSendLowAt : Option ℤ
  deriving DecidableEq, Repr

/-- `flags |= …`, for those of the options that are to be set. -/
def flagsOf (options : List (Bool × SocketOption)) : ℕ :=
  options.foldl (fun flags option => if option.1 then flags ||| 2 ^ option.2.bit else flags) 0

/-- `… == true`. -/
def isTrue (value : Option Bool) : Bool := value = some true

/-- A value in an unsigned field of this many bits, which is 0 where nothing is set. -/
def unsignedField (bits : ℕ) (value : Option ℤ) : ℕ := (value.getD 0 % 2 ^ bits).toNat

/-- A value in an `int32_t`. -/
def signedField (value : Option ℤ) : ℤ := (value.getD 0).bmod (2 ^ 32)

/-- `_tcpConfiguration` of both factories, but for the `TCP_NODELAY` that only one of them has and
for the backlog. -/
def tcpConfiguration (options : TcpOptions) (tcpNoDelay : Option Bool)
    (socketMaxConnections : Option ℤ) : SocketConfiguration where
  socketMaxConnections := signedField socketMaxConnections
  socketConfigurationFlags := flagsOf
    [(isTrue options.socketNonblock, .socketNonblock),
      (isTrue options.socketCloexec, .socketCloexec),
     (isTrue options.socketReuseAddress, .socketReuseaddr),
     (isTrue options.socketReusePort, .socketReuseport),
     (isTrue options.socketKeepalive, .socketKeepalive), (isTrue options.ipFreebind, .ipFreebind),
     (isTrue options.tcpQuickack, .tcpQuickack), (isTrue options.tcpDeferAccept, .tcpDeferAccept),
     (isTrue options.tcpFastopen, .tcpFastopen), (isTrue tcpNoDelay, .tcpNodelay),
     (options.socketReceiveBufferSize.isSome, .socketRcvbuf),
     (options.socketSendBufferSize.isSome, .socketSndbuf),
     (options.socketReceiveLowAt.isSome, .socketRcvlowat),
     (options.socketSendLowAt.isSome, .socketSndlowat), (options.ipTtl.isSome, .ipTtl),
     (options.tcpKeepAliveIdle.isSome, .tcpKeepidle),
     (options.tcpKeepAliveMaxCount.isSome, .tcpKeepcnt),
     -- The idle time again, where the other fields have their own.
     (options.tcpKeepAliveIdle.isSome, .tcpKeepintvl),
     (options.tcpMaxSegmentSize.isSome, .tcpMaxseg), (options.tcpSynCount.isSome, .tcpSyncnt)]
  socketReceiveBufferSize := unsignedField 32 options.socketReceiveBufferSize
  socketSendBufferSize := unsignedField 32 options.socketSendBufferSize
  socketReceiveLowAt := unsignedField 32 options.socketReceiveLowAt
  socketSendLowAt := unsignedField 32 options.socketSendLowAt
  ipTtl := unsignedField 16 options.ipTtl
  tcpKeepAliveIdle := unsignedField 32 options.tcpKeepAliveIdle
  tcpKeepAliveMaxCount := unsignedField 32 options.tcpKeepAliveMaxCount
  tcpKeepAliveIndividualCount := unsignedField 32 options.tcpKeepAliveIdle
  tcpMaxSegmentSize := unsignedField 32 options.tcpMaxSegmentSize
  tcpSynCount := unsignedField 16 options.tcpSynCount
  ipMulticastInterface := 0
  ipMulticastTtl := 0

/-- `_udpConfiguration` of both factories. The request of a multicast interface is written through
the pointer of the structure, which is null: there is no configuration then. -/
def udpConfiguration (options : UdpOptions) : Option SocketConfiguration :=
  if options.ipMulticastInterface.isSome then none
  else some {
    socketMaxConnections := 0
    socketConfigurationFlags := flagsOf
      [(isTrue options.socketNonblock, .socketNonblock),
       (isTrue options.socketCloexec, .socketCloexec),
       (isTrue options.socketReuseAddress, .socketReuseaddr),
       (isTrue options.socketReusePort, .socketReuseport),
       (isTrue options.socketBroadcast, .socketBroadcast), (isTrue options.ipFreebind, .ipFreebind),
       (isTrue options.ipMulticastAll, .ipMulticastAll),
       -- `ipMulticastLoop == true`, of an `int?`.
       (false, .ipMulticastLoop),
       (options.socketReceiveBufferSize.isSome, .socketRcvbuf),
       (options.socketSendBufferSize.isSome, .socketSndbuf),
       (options.socketReceiveLowAt.isSome, .socketRcvlowat),
       (options.socketSendLowAt.isSome, .socketSndlowat), (options.ipTtl.isSome, .ipTtl),
       (options.ipMulticastTtl.isSome, .ipMulticastTtl)]
    socketReceiveBufferSize := unsignedField 32 options.socketReceiveBufferSize
    socketSendBufferSize := unsignedField 32 options.socketSendBufferSize
    socketReceiveLowAt := unsignedField 32 options.socketReceiveLowAt
    socketSendLowAt := unsignedField 32 options.socketSendLowAt
    ipTtl := unsignedField 16 options.ipTtl
    tcpKeepAliveIdle := 0
    tcpKeepAliveMaxCount := 0
    tcpKeepAliveIndividualCount := 0
    tcpMaxSegmentSize := 0
    tcpSynCount := 0
    ipMulticastInterface := 0
    ipMulticastTtl := unsignedField 32 options.ipMulticastTtl }

/-- `_unixStreamConfiguration` of both factories. -/
def unixStreamConfiguration (options : UnixStreamOptions) (socketMaxConnections : Option ℤ) :
    SocketConfiguration where
  socketMaxConnections := signedField socketMaxConnections
  socketConfigurationFlags := flagsOf
    [(isTrue options.socketNonblock, .socketNonblock),
      (isTrue options.socketCloexec, .socketCloexec),
     (isTrue options.socketKeepalive, .socketKeepalive),
     (options.socketReceiveBufferSize.isSome, .socketRcvbuf),
     (options.socketSendBufferSize.isSome, .socketSndbuf),
     (options.socketReceiveLowAt.isSome, .socketRcvlowat),
     (options.socketSendLowAt.isSome, .socketSndlowat)]
  socketReceiveBufferSize := unsignedField 32 options.socketReceiveBufferSize
  socketSendBufferSize := unsignedField 32 options.socketSendBufferSize
  socketReceiveLowAt := unsignedField 32 options.socketReceiveLowAt
  socketSendLowAt := unsignedField 32 options.socketSendLowAt
  ipTtl := 0
  tcpKeepAliveIdle := 0
  tcpKeepAliveMaxCount := 0
  tcpKeepAliveIndividualCount := 0
  tcpMaxSegmentSize := 0
  tcpSynCount := 0
  ipMulticastInterface := 0
  ipMulticastTtl := 0

/-! ## The factories -/

/-- A call of a factory, for one client or server. -/
inductive Creation where
  | tcpClient (options : TcpOptions) (address : InternetAddress) (port : ℤ)
  | udpClient (options : UdpOptions) (sourceAddress : InternetAddress) (sourcePort : ℤ)
      (destinationAddress : InternetAddress) (destinationPort : ℤ)
  | unixStreamClient (options : UnixStreamOptions) (path : DartString)
  | tcpServer (options : TcpOptions) (socketMaxConnections : Option ℤ) (address : InternetAddress)
      (port : ℤ)
  | udpServer (options : UdpOptions) (address : InternetAddress) (port : ℤ)
  | unixStreamServer (options : UnixStreamOptions) (socketMaxConnections : Option ℤ)
      (path : DartString)
  deriving DecidableEq, Repr

namespace Creation

/-- The native configuration. -/
def configuration : Creation → Option SocketConfiguration
  -- `_tcpConfiguration` of the clients has no line for `tcpNoDelay`.
  | tcpClient options _ _ => some (tcpConfiguration options none none)
  | udpClient options .. => udpConfiguration options
  | unixStreamClient options _ => some (unixStreamConfiguration options none)
  | tcpServer options socketMaxConnections _ _ =>
    some (tcpConfiguration options options.tcpNoDelay socketMaxConnections)
  | udpServer options .. => udpConfiguration options
  | unixStreamServer options socketMaxConnections _ =>
    some (unixStreamConfiguration options socketMaxConnections)

/-- The native function with its arguments. `transport_client_initialize_udp` takes the destination
first, and the factory hands the source address over first. -/
def factory : Creation → Factory
  | tcpClient .. => .tcpClient
  | udpClient _ _ sourcePort destinationAddress _ =>
    .udpClient destinationAddress.address (nativePort sourcePort)
  | unixStreamClient .. => .unixStreamClient
  | tcpServer _ _ address port => .tcpServer address.address (nativePort port)
  | udpServer _ address port => .udpServer address.address (nativePort port)
  | unixStreamServer _ _ path => .unixStreamServer (toNativeUtf8 path)

/-- `transport_client_get_destination_address`, which connects and sends are given. -/
def destination : Creation → Option SocketAddress
  | tcpClient _ address port => some (.inet address.address (nativePort port))
  | udpClient _ sourceAddress _ _ destinationPort =>
    some (.inet sourceAddress.address (nativePort destinationPort))
  | unixStreamClient _ path => some (.unix (toNativeUtf8 path))
  | tcpServer .. | udpServer .. | unixStreamServer .. => none

/-- The factory: nothing where it writes through a null pointer. -/
def run (kernel : Kernel) (creation : Creation) (trace : List Traced) :
    Option (Except Thrown Native × List Traced) :=
  creation.configuration.map fun configuration =>
    creation.factory.initialized kernel configuration trace

end Creation

end FengShui.Transport
