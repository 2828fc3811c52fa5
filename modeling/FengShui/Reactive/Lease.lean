import FengShui.Core.Dart

/-!
# Leases (`reactive/lease.dart`)

The clock is an argument: `DateTime.now().millisecondsSinceEpoch` at the call.
-/

namespace FengShui.Reactive

structure ReactiveLeaseConfiguration where
  /-- In milliseconds, as the code uses it. -/
  timeToLiveCheck : ℕ
  timeToLiveRefresh : ℕ
  requests : ℕ
  deriving DecidableEq, Repr

structure ReactiveLeaseLimiter where
  available : ℤ
  timeToLive : ℤ
  timestamp : ℤ
  enabled : Bool
  deriving DecidableEq, Repr

namespace ReactiveLeaseLimiter

def new (now : ℤ) : ReactiveLeaseLimiter := ⟨0, 0, now, false⟩

/-- Whether the count is restricted, and the limiter behind the check. -/
def restricted (now count : ℤ) (limiter : ReactiveLeaseLimiter) : Bool × ReactiveLeaseLimiter :=
  if limiter.available < count then (true, limiter)
  else if now - limiter.timestamp > limiter.timeToLive then (true, { limiter with available := 0 })
  else (false, limiter)

def reconfigure (now timeToLive requests : ℤ) (_ : ReactiveLeaseLimiter) : ReactiveLeaseLimiter :=
  ⟨requests, timeToLive, now, true⟩

def notify (now count : ℤ) (limiter : ReactiveLeaseLimiter) : ReactiveLeaseLimiter :=
  let limiter := { limiter with available := max (limiter.available - count) 0 }
  if now - limiter.timestamp > limiter.timeToLive then { limiter with available := 0 } else limiter

end ReactiveLeaseLimiter

end FengShui.Reactive
