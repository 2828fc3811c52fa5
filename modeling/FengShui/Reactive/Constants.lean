import FengShui.Core.Dart

/-!
# Constants of the reactive protocol (`reactive/constants.dart`)
-/

namespace FengShui.Reactive

@[match_pattern] abbrev reactiveFrameSetup : ℕ := 0x01
@[match_pattern] abbrev reactiveFrameLease : ℕ := 0x02
@[match_pattern] abbrev reactiveFrameKeepalive : ℕ := 0x03
@[match_pattern] abbrev reactiveFrameRequestChannel : ℕ := 0x07
@[match_pattern] abbrev reactiveFrameRequestN : ℕ := 0x08
@[match_pattern] abbrev reactiveFrameCancel : ℕ := 0x09
@[match_pattern] abbrev reactiveFramePayload : ℕ := 0x0A
@[match_pattern] abbrev reactiveFrameError : ℕ := 0x0B

def reactiveFrameHeaderFlagFollow : ℕ := 0x80
def reactiveFrameHeaderFlagComplete : ℕ := 0x40
def reactiveFrameHeaderFlagNext : ℕ := 0x20

def reactiveFrameSetupFlagLease : ℕ := 0x40

def reactiveFrameKeepAliveFlagRespond : ℕ := 0x80

def reactiveProtocolMajorVersion : ℕ := 1
def reactiveProtocolMinorVersion : ℕ := 0

def reactiveInfinityRequestsCount : ℤ := 2147483647

def reactiveStreamIdMask : ℤ := 0x7FFFFFFF
def reactiveClientInitialStreamId : ℤ := -1
def reactiveServerInitialStreamId : ℤ := 0
def reactiveStreamIdIncrement : ℤ := 2

def reactiveFrameLengthFieldSize : ℕ := 3
def reactiveMetadataLengthFieldSize : ℕ := 3
def reactiveFrameHeaderSize : ℕ := 9

end FengShui.Reactive
