import FengShui.Lib.Transition
import FengShui.Reactive.Broker

/-!
# The keep-alive of a connection (`reactive/keepalive.dart`)

Both sides of a connection ping each other with a periodic timer, and with a second one they look
whether a KEEPALIVE frame came in the time that a silence may last. The client takes interval and
lifetime from its setup configuration, the server from the SETUP frame, which has 32 bits for each.
One clock stands for `DateTime.now()` and for the timers of both sides. Timers that fire late and
frames that are under way for a while are its steps in between: where the interval, the lateness and
the way to the peer and back are shorter than the lifetime together, no side ever closes the
connection (`alive_of_run`).
-/

namespace FengShui.Reactive

open FengShui.Transition

namespace ReactiveKeepAliveTimer

/-- `start`. -/
def start (keepAliveInterval keepAliveMaxLifetime : ℕ) (timer : ReactiveKeepAliveTimer) :
    ReactiveKeepAliveTimer :=
  { timer with started := some (keepAliveInterval, keepAliveMaxLifetime) }

/-- `pong`, but for the answer. -/
def pong (now : ℤ) (timer : ReactiveKeepAliveTimer) : ReactiveKeepAliveTimer :=
  { timer with lastPong := now }

/-- `stop`. -/
def stop (timer : ReactiveKeepAliveTimer) : ReactiveKeepAliveTimer := { timer with started := none }

/-- The condition of the callback of `_pongTimer`. -/
def expired (now : ℤ) (keepAliveMaxLifetime : ℕ) (timer : ReactiveKeepAliveTimer) : Bool :=
  decide (now - timer.lastPong ≥ keepAliveMaxLifetime)

end ReactiveKeepAliveTimer

/-- The two ends of a connection. -/
inductive Side where
  | client | server
  deriving DecidableEq, Repr

/-- The other end. -/
def Side.peer : Side → Side
  | .client => .server
  | .server => .client

/-- A frame, as far as the keep-alive looks at it. -/
inductive Signal where
  | setup (keepAliveInterval keepAliveMaxLifetime : ℕ)
  | keepAlive (respond : Bool)
  | other
  deriving DecidableEq, Repr

/-- One end of the connection: `ReactiveClientConnection` or `ReactiveServerConnection`. -/
structure Endpoint where
  /-- The object is made. -/
  made : Bool
  keepAliveTimer : ReactiveKeepAliveTimer
  /-- When `_pingTimer` is due. -/
  pingAt : ℤ
  /-- When `_pongTimer` is due. -/
  pongAt : ℤ
  accepting : Bool
  sending : Bool
  activated : Bool
  /-- How often `_pongTimer` has closed the connection. -/
  expiries : ℕ
  deriving DecidableEq, Repr

/-- The connection with what is under way on it. -/
structure KeepAlive where
  now : ℤ
  endpoint : Side → Endpoint
  /-- The frames that a side wrote and that the other one has not read, with the times. -/
  written : Side → List (ℤ × Signal)

/-- What happens on the connection. -/
inductive KeepAliveAction where
  /-- Time goes by. -/
  | advance (elapsed : ℕ)
  /-- The constructor of the connection of a side. -/
  | make (side : Side)
  /-- `connect` of the client. -/
  | connect
  /-- `_pingTimer` fires, behind callbacks that it is too late for. -/
  | ping (side : Side) (missed : ℕ)
  /-- `_pongTimer` fires. -/
  | check (side : Side) (missed : ℕ)
  /-- A side reads a frame. -/
  | deliver (side : Side)
  /-- A frame to a side is lost with the connection under it. -/
  | lose (side : Side)
  /-- A side writes another frame. -/
  | write (side : Side)
  /-- A `close` that the timer did not begin. -/
  | close (side : Side)
  /-- The `close` of the broker has waited for the streams. -/
  | closed (side : Side)
  deriving DecidableEq, Repr

/-- What the SETUP frame says, and whether the server takes it. -/
structure KeepAliveSetup where
  keepAliveInterval : ℕ
  keepAliveMaxLifetime : ℕ
  accepted : Bool
  deriving DecidableEq, Repr

namespace Endpoint

/-- Before the constructor. -/
def none : Endpoint where
  made := false
  keepAliveTimer := ⟨0, .none⟩
  pingAt := 0
  pongAt := 0
  accepting := true
  sending := true
  activated := false
  expiries := 0

/-- `_lastPong` is set when the timer is made. -/
def make (now : ℤ) : Endpoint := { none with made := true, keepAliveTimer := ⟨now, .none⟩ }

/-- The end of `setup` and of `connect` of the broker. -/
def activate (now : ℤ) (keepAliveInterval keepAliveMaxLifetime : ℕ) (endpoint : Endpoint) :
    Endpoint :=
  { endpoint with
    keepAliveTimer := endpoint.keepAliveTimer.start keepAliveInterval keepAliveMaxLifetime
    pingAt := now + keepAliveInterval
    pongAt := now + keepAliveMaxLifetime
    activated := true }

/-- The callback of `_pongTimer`: `close` begins with that nothing new is accepted. -/
def check (now : ℤ) (keepAliveMaxLifetime missed : ℕ) (endpoint : Endpoint) : Endpoint :=
  let endpoint := { endpoint with pongAt := endpoint.pongAt + (missed + 1) * keepAliveMaxLifetime }
  if endpoint.keepAliveTimer.expired now keepAliveMaxLifetime then
    { endpoint with accepting := false, expiries := endpoint.expiries + 1 }
  else endpoint

/-- `close` of the broker, behind the streams. -/
def closed (endpoint : Endpoint) : Endpoint :=
  { endpoint with sending := false, keepAliveTimer := endpoint.keepAliveTimer.stop }

/-- What the responder makes of a frame, and the answers. -/
def handle (setup : KeepAliveSetup) (now : ℤ) (signal : Signal) (endpoint : Endpoint) :
    Endpoint × List (ℤ × Signal) :=
  if !endpoint.sending then (endpoint, [])
  else
    match signal with
    | .setup keepAliveInterval keepAliveMaxLifetime =>
      if !endpoint.accepting || endpoint.activated then (endpoint, [])
      -- An ERROR frame answers a SETUP frame that is not accepted.
      else if !setup.accepted then (endpoint, [(now, .other)])
      else (endpoint.activate now keepAliveInterval keepAliveMaxLifetime, [])
    | .keepAlive respond =>
      ({ endpoint with keepAliveTimer := endpoint.keepAliveTimer.pong now },
        if respond then [(now, .keepAlive false)] else [])
    | .other => (endpoint, [])

end Endpoint

namespace KeepAlive

open ReactiveKeepAliveTimer

/-- Nothing is made yet. -/
def start (now : ℤ) : KeepAlive := ⟨now, fun _ => .none, fun _ => []⟩

/-- A change of one side. -/
@[simps now written]
def update (side : Side) (endpoint : Endpoint) (keepAlive : KeepAlive) : KeepAlive :=
  { keepAlive with endpoint := Function.update keepAlive.endpoint side endpoint }

/-- Frames that a side writes now. -/
@[simps now endpoint]
def write (side : Side) (signals : List (ℤ × Signal)) (keepAlive : KeepAlive) : KeepAlive :=
  { keepAlive with
    written := Function.update keepAlive.written side (keepAlive.written side ++ signals) }

/-- The frames to a side, but for the first one. -/
@[simps now endpoint]
def take (side : Side) (rest : List (ℤ × Signal)) (keepAlive : KeepAlive) : KeepAlive :=
  { keepAlive with written := Function.update keepAlive.written side.peer rest }

/-- One action, `none` when it cannot happen. -/
def step (setup : KeepAliveSetup) (keepAlive : KeepAlive) : KeepAliveAction → Option KeepAlive
  | .advance elapsed => some { keepAlive with now := keepAlive.now + elapsed }
  | .make side =>
    if (keepAlive.endpoint side).made then none
    else some (keepAlive.update side (.make keepAlive.now))
  | .connect =>
    let client := keepAlive.endpoint .client
    if !client.made || !client.accepting || client.activated then none
    else
      some ((keepAlive.update .client (client.activate keepAlive.now setup.keepAliveInterval
        setup.keepAliveMaxLifetime)).write .client
          [(keepAlive.now, .setup (setup.keepAliveInterval % 2 ^ 32)
            (setup.keepAliveMaxLifetime % 2 ^ 32))])
  | .ping side missed =>
    let endpoint := keepAlive.endpoint side
    match endpoint.keepAliveTimer.started with
    | none => none
    | some (keepAliveInterval, _) =>
      if endpoint.pingAt + missed * keepAliveInterval ≤ keepAlive.now then
        some ((keepAlive.update side
          { endpoint with pingAt := endpoint.pingAt + (missed + 1) * keepAliveInterval }).write side
            [(keepAlive.now, .keepAlive true)])
      else none
  | .check side missed =>
    let endpoint := keepAlive.endpoint side
    match endpoint.keepAliveTimer.started with
    | none => none
    | some (_, keepAliveMaxLifetime) =>
      if endpoint.pongAt + missed * keepAliveMaxLifetime ≤ keepAlive.now then
        some (keepAlive.update side (endpoint.check keepAlive.now keepAliveMaxLifetime missed))
      else none
  | .deliver side =>
    match keepAlive.written side.peer with
    | [] => none
    | (_, signal) :: rest =>
      if (keepAlive.endpoint side).made then
        let handled := (keepAlive.endpoint side).handle setup keepAlive.now signal
        some (((keepAlive.take side rest).update side handled.1).write side handled.2)
      else none
  | .lose side =>
    match keepAlive.written side.peer with
    | [] => none
    | _ :: rest => some (keepAlive.take side rest)
  | .write side => some (keepAlive.write side [(keepAlive.now, .other)])
  | .close side =>
    if (keepAlive.endpoint side).made then
      some (keepAlive.update side { keepAlive.endpoint side with accepting := false })
    else none
  | .closed side =>
    let endpoint := keepAlive.endpoint side
    if endpoint.accepting || !endpoint.sending then none
    else some (keepAlive.update side endpoint.closed)

/-! ## What a step can do -/

/-- The enabled actions and where they lead. -/
inductive Move (setup : KeepAliveSetup) (keepAlive : KeepAlive) : KeepAliveAction → KeepAlive → Prop
  | advance (elapsed : ℕ) :
    Move setup keepAlive (.advance elapsed) { keepAlive with now := keepAlive.now + elapsed }
  | make {side : Side} (hmade : (keepAlive.endpoint side).made = false) :
    Move setup keepAlive (.make side) (keepAlive.update side (.make keepAlive.now))
  | connect (hmade : (keepAlive.endpoint .client).made = true)
      (haccepting : (keepAlive.endpoint .client).accepting = true)
      (hactivated : (keepAlive.endpoint .client).activated = false) :
    Move setup keepAlive .connect ((keepAlive.update .client ((keepAlive.endpoint .client).activate
      keepAlive.now setup.keepAliveInterval setup.keepAliveMaxLifetime)).write .client
        [(keepAlive.now, .setup (setup.keepAliveInterval % 2 ^ 32)
          (setup.keepAliveMaxLifetime % 2 ^ 32))])
  | ping {side : Side} {missed interval lifetime : ℕ}
      (hstarted : (keepAlive.endpoint side).keepAliveTimer.started = some (interval, lifetime))
      (hdue : (keepAlive.endpoint side).pingAt + missed * interval ≤ keepAlive.now) :
    Move setup keepAlive (.ping side missed) ((keepAlive.update side { keepAlive.endpoint side with
      pingAt := (keepAlive.endpoint side).pingAt + (missed + 1) * interval }).write side
        [(keepAlive.now, .keepAlive true)])
  | check {side : Side} {missed interval lifetime : ℕ}
      (hstarted : (keepAlive.endpoint side).keepAliveTimer.started = some (interval, lifetime))
      (hdue : (keepAlive.endpoint side).pongAt + missed * lifetime ≤ keepAlive.now) :
    Move setup keepAlive (.check side missed)
      (keepAlive.update side ((keepAlive.endpoint side).check keepAlive.now lifetime missed))
  | deliver {side : Side} {time : ℤ} {signal : Signal} {rest : List (ℤ × Signal)}
      (hwritten : keepAlive.written side.peer = (time, signal) :: rest)
      (hmade : (keepAlive.endpoint side).made = true) :
    Move setup keepAlive (.deliver side) (((keepAlive.take side rest).update side
      ((keepAlive.endpoint side).handle setup keepAlive.now signal).1).write side
        ((keepAlive.endpoint side).handle setup keepAlive.now signal).2)
  | lose {side : Side} {frame : ℤ × Signal} {rest : List (ℤ × Signal)}
      (hwritten : keepAlive.written side.peer = frame :: rest) :
    Move setup keepAlive (.lose side) (keepAlive.take side rest)
  | write (side : Side) :
    Move setup keepAlive (.write side) (keepAlive.write side [(keepAlive.now, .other)])
  | close {side : Side} (hmade : (keepAlive.endpoint side).made = true) :
    Move setup keepAlive (.close side)
      (keepAlive.update side { keepAlive.endpoint side with accepting := false })
  | closed {side : Side} (haccepting : (keepAlive.endpoint side).accepting = false)
      (hsending : (keepAlive.endpoint side).sending = true) :
    Move setup keepAlive (.closed side) (keepAlive.update side (keepAlive.endpoint side).closed)

variable {setup : KeepAliveSetup} {keepAlive next : KeepAlive} {action : KeepAliveAction}

theorem step_move (h : keepAlive.step setup action = some next) :
    Move setup keepAlive action next := by
  cases action with
  | advance elapsed =>
    cases h
    exact .advance elapsed
  | make side =>
    simp only [step, Option.ite_none_left_eq_some, Option.some.injEq] at h
    obtain ⟨hmade, rfl⟩ := h
    exact .make (by simpa using hmade)
  | connect =>
    simp only [step, Option.ite_none_left_eq_some, Option.some.injEq] at h
    obtain ⟨hopen, rfl⟩ := h
    have hopen : ((keepAlive.endpoint .client).made = true ∧
        (keepAlive.endpoint .client).accepting = true) ∧
          (keepAlive.endpoint .client).activated = false := by simpa using hopen
    exact .connect hopen.1.1 hopen.1.2 hopen.2
  | ping side missed =>
    cases hstarted : (keepAlive.endpoint side).keepAliveTimer.started with
    | none => simp [step, hstarted] at h
    | some timers =>
      simp only [step, hstarted, Option.ite_none_right_eq_some, Option.some.injEq] at h
      obtain ⟨hdue, rfl⟩ := h
      exact .ping hstarted hdue
  | check side missed =>
    cases hstarted : (keepAlive.endpoint side).keepAliveTimer.started with
    | none => simp [step, hstarted] at h
    | some timers =>
      simp only [step, hstarted, Option.ite_none_right_eq_some, Option.some.injEq] at h
      obtain ⟨hdue, rfl⟩ := h
      exact .check hstarted hdue
  | deliver side =>
    cases hwritten : keepAlive.written side.peer with
    | nil => simp [step, hwritten] at h
    | cons frame rest =>
      simp only [step, hwritten, Option.ite_none_right_eq_some, Option.some.injEq] at h
      obtain ⟨hmade, rfl⟩ := h
      exact .deliver hwritten hmade
  | lose side =>
    cases hwritten : keepAlive.written side.peer with
    | nil => simp [step, hwritten] at h
    | cons frame rest =>
      simp only [step, hwritten, Option.some.injEq] at h
      obtain rfl := h
      exact .lose hwritten
  | write side =>
    cases h
    exact .write side
  | close side =>
    simp only [step, Option.ite_none_right_eq_some, Option.some.injEq] at h
    obtain ⟨hmade, rfl⟩ := h
    exact .close hmade
  | closed side =>
    simp only [step, Option.ite_none_left_eq_some, Option.some.injEq] at h
    obtain ⟨hopen, rfl⟩ := h
    have hopen : (keepAlive.endpoint side).accepting = false ∧
        (keepAlive.endpoint side).sending = true := by simpa using hopen
    exact .closed hopen.1 hopen.2

/-! ## What a step leaves -/

@[simp]
theorem peer_peer (side : Side) : side.peer.peer = side := by cases side <;> rfl

@[simp]
theorem peer_ne (side : Side) : side.peer ≠ side := by cases side <;> decide

@[simp]
theorem ne_peer (side : Side) : side ≠ side.peer := (peer_ne side).symm

theorem eq_or_eq_peer (side other : Side) : other = side ∨ other = side.peer := by
  cases side <;> cases other <;> decide

@[simp]
theorem endpoint_update_self (side : Side) (endpoint : Endpoint) :
    (keepAlive.update side endpoint).endpoint side = endpoint := Function.update_self ..

@[simp]
theorem endpoint_update_peer (side : Side) (endpoint : Endpoint) :
    (keepAlive.update side endpoint).endpoint side.peer = keepAlive.endpoint side.peer :=
  Function.update_of_ne (peer_ne side) ..

@[simp]
theorem written_write_self (side : Side) (signals : List (ℤ × Signal)) :
    (keepAlive.write side signals).written side = keepAlive.written side ++ signals :=
  Function.update_self ..

@[simp]
theorem written_write_peer (side : Side) (signals : List (ℤ × Signal)) :
    (keepAlive.write side signals).written side.peer = keepAlive.written side.peer :=
  Function.update_of_ne (peer_ne side) ..

@[simp]
theorem written_take_self (side : Side) (rest : List (ℤ × Signal)) :
    (keepAlive.take side rest).written side = keepAlive.written side :=
  Function.update_of_ne (ne_peer side) ..

@[simp]
theorem written_take_peer (side : Side) (rest : List (ℤ × Signal)) :
    (keepAlive.take side rest).written side.peer = rest := Function.update_self ..

variable {side : Side} {signals : List (ℤ × Signal)} {missed : ℕ}

/-- What is under way stays so while frames are written. -/
theorem mem_write {other : Side} {frame : ℤ × Signal} (signals : List (ℤ × Signal))
    (h : frame ∈ keepAlive.written other) :
    frame ∈ (keepAlive.write side signals).written other := by
  rcases eq_or_eq_peer side other with rfl | rfl
  · rw [written_write_self]
    exact List.mem_append_left signals h
  · rwa [written_write_peer]

/-- What is under way behind the write is either written by it or was under way before. -/
theorem mem_of_mem_write {other : Side} {frame : ℤ × Signal}
    (h : frame ∈ (keepAlive.write side signals).written other) :
    frame ∈ keepAlive.written other ∨ frame ∈ signals := by
  rcases eq_or_eq_peer side other with rfl | rfl
  · rw [written_write_self] at h
    exact List.mem_append.mp h
  · rw [written_write_peer] at h
    exact .inl h

/-- What holds of both sides. -/
theorem forall_side {P : Side → Prop} (side : Side) (hside : P side) (hpeer : P side.peer) :
    ∀ other, P other := by
  intro other
  rcases eq_or_eq_peer side other with rfl | rfl
  · exact hside
  · exact hpeer

instance decidableForallSide (P : Side → Prop) [DecidablePred P] : Decidable (∀ side, P side) :=
  decidable_of_iff (P .client ∧ P .server)
    ⟨fun h => forall_side .client h.1 h.2, fun h => ⟨h .client, h .server⟩⟩

/-! ## The broker behind a side -/

/-- A side whose broker it is, with the times of the timers. -/
def ofBroker {Value : Type} (broker : ReactiveBroker Value) (pingAt pongAt : ℤ) (expiries : ℕ) :
    Endpoint where
  made := true
  keepAliveTimer := broker.keepAliveTimer
  pingAt := pingAt
  pongAt := pongAt
  accepting := broker.accepting
  sending := broker.sending
  activated := broker.activated
  expiries := expiries

section Broker

variable {Value : Type} (application : Application Value) (broker : ReactiveBroker Value)
  (pingAt pongAt : ℤ) (expiries : ℕ)

/-- The broker of a side that sends does with a KEEPALIVE frame what the side does. -/
theorem ofBroker_pong (respond : Bool) (hsend : broker.sending = true) :
    let after := Effect.stateOf (ReactiveBroker.call application (.pong respond) broker)
    let handled :=
      (ofBroker broker pingAt pongAt expiries).handle setup broker.now (.keepAlive respond)
    ofBroker after pingAt pongAt expiries = handled.1 ∧
      after.written = broker.written ++
        handled.2.map fun _ => ReactiveWriter.writeKeepAliveFrame false 0 := by
  have hhandle : (ofBroker broker pingAt pongAt expiries).handle setup broker.now
      (.keepAlive respond) = ({ ofBroker broker pingAt pongAt expiries with
        keepAliveTimer := broker.keepAliveTimer.pong broker.now },
          if respond then [(broker.now, .keepAlive false)] else []) := by
    simp [Endpoint.handle, ofBroker, hsend]
  simp only [hhandle]
  cases respond with
  | true => exact ⟨rfl, rfl⟩
  | false => exact ⟨rfl, (List.append_nil _).symm⟩

theorem ofBroker_activate (keepAliveInterval keepAliveMaxLifetime : ℕ) :
    ofBroker (ReactiveBroker.activate keepAliveInterval keepAliveMaxLifetime broker)
      (broker.now + keepAliveInterval) (broker.now + keepAliveMaxLifetime) expiries =
    (ofBroker broker pingAt pongAt expiries).activate broker.now keepAliveInterval
      keepAliveMaxLifetime := rfl

theorem ofBroker_closed :
    ofBroker (ReactiveBroker.closed broker) pingAt pongAt expiries =
      (ofBroker broker pingAt pongAt expiries).closed := rfl

end Broker

/-! ## No side closes the connection of a peer that answers -/

/-- How late a timer fires at most, and how long a frame is under way at most. -/
structure Timing where
  late : ℕ
  delay : ℕ

/-- The timers of the pings and the frames are in time, and nothing but a timer closes the
connection. -/
def Timely (timing : Timing) (keepAlive : KeepAlive) : KeepAliveAction → Prop
  | .advance elapsed =>
    (∀ side, (keepAlive.endpoint side).keepAliveTimer.started ≠ none →
      keepAlive.now + elapsed ≤ (keepAlive.endpoint side).pingAt + timing.late) ∧
    ∀ side, ∀ frame ∈ keepAlive.written side, keepAlive.now + elapsed ≤ frame.1 + timing.delay
  | .lose _ | .close _ => False
  | _ => True

/-- A time at which a KEEPALIVE frame will have come to the side at the latest: as the answer to a
ping, from the peer, or as the answer to the next ping. -/
inductive Expects (timing : Timing) (keepAlive : KeepAlive) (side : Side) : ℤ → Prop
  | ping {time : ℤ} (hping : (time, .keepAlive true) ∈ keepAlive.written side) :
    Expects timing keepAlive side (time + 2 * timing.delay)
  | comes {time : ℤ} {respond : Bool}
      (hcomes : (time, .keepAlive respond) ∈ keepAlive.written side.peer) :
    Expects timing keepAlive side (time + timing.delay)
  | next : Expects timing keepAlive side
      ((keepAlive.endpoint side).pingAt + timing.late + 2 * timing.delay)

/-- A side whose timers run: the next KEEPALIVE frame comes before the lifetime of the last one is
over, or before the timer looks for it. -/
structure Running (setup : KeepAliveSetup) (timing : Timing) (keepAlive : KeepAlive) (side : Side) :
    Prop where
  timers : (keepAlive.endpoint side).keepAliveTimer.started =
    some (setup.keepAliveInterval, setup.keepAliveMaxLifetime)
  soon : (keepAlive.endpoint side).pingAt ≤ keepAlive.now + setup.keepAliveInterval
  punctual : keepAlive.now ≤ (keepAlive.endpoint side).pingAt + timing.late
  fresh : ∃ deadline, Expects timing keepAlive side deadline ∧
    (deadline < (keepAlive.endpoint side).keepAliveTimer.lastPong + setup.keepAliveMaxLifetime ∨
      deadline < (keepAlive.endpoint side).pongAt)

/-- What the frames under way say: none is late, and a SETUP frame has the times of the client. -/
structure Frames (setup : KeepAliveSetup) (timing : Timing) (keepAlive : KeepAlive) : Prop where
  arrives : ∀ side, ∀ frame ∈ keepAlive.written side, keepAlive.now ≤ frame.1 + timing.delay
  setups : ∀ side, ∀ frame ∈ keepAlive.written side, ∀ interval lifetime : ℕ,
    frame.2 = .setup interval lifetime →
      interval = setup.keepAliveInterval ∧ lifetime = setup.keepAliveMaxLifetime

/-- What every step that is in time keeps. -/
structure Alive (setup : KeepAliveSetup) (timing : Timing) (keepAlive : KeepAlive) : Prop where
  calm : ∀ side, (keepAlive.endpoint side).expiries = 0 ∧
    (keepAlive.endpoint side).accepting = true ∧ (keepAlive.endpoint side).sending = true
  frames : Frames setup timing keepAlive
  running : ∀ side, (keepAlive.endpoint side).keepAliveTimer.started ≠ none →
    Running setup timing keepAlive side

variable {timing : Timing}

theorem alive_start (setup : KeepAliveSetup) (timing : Timing) (now : ℤ) :
    Alive setup timing (start now) where
  calm _ := ⟨rfl, rfl, rfl⟩
  frames := ⟨fun _ _ hframe => (nomatch hframe), fun _ _ hframe => (nomatch hframe)⟩
  running _ hstarted := absurd rfl hstarted

/-- Frames that are written now, by a side that has not read more than before. -/
theorem Frames.write {changed : KeepAlive} (h : Frames setup timing keepAlive)
    (hnow : changed.now = keepAlive.now)
    (hread : ∀ other, ∀ frame ∈ changed.written other, frame ∈ keepAlive.written other)
    (hwritten : ∀ frame ∈ signals, frame.1 = keepAlive.now ∧ ∀ interval lifetime : ℕ,
      frame.2 = .setup interval lifetime →
        interval = setup.keepAliveInterval ∧ lifetime = setup.keepAliveMaxLifetime) :
    Frames setup timing (changed.write side signals) := by
  constructor
  · intro other frame hframe
    rw [write_now, hnow]
    rcases mem_of_mem_write hframe with hframe | hframe
    · exact h.arrives other frame (hread other frame hframe)
    · have htime := (hwritten frame hframe).1
      omega
  · intro other frame hframe
    rcases mem_of_mem_write hframe with hframe | hframe
    · exact h.setups other frame (hread other frame hframe)
    · exact (hwritten frame hframe).2

/-- The KEEPALIVE frame that is expected has not come too late. -/
theorem Expects.now_le {deadline : ℤ} (h : Expects timing keepAlive side deadline)
    (harrives : ∀ side, ∀ frame ∈ keepAlive.written side, keepAlive.now ≤ frame.1 + timing.delay)
    (hpunctual : keepAlive.now ≤ (keepAlive.endpoint side).pingAt + timing.late) :
    keepAlive.now ≤ deadline := by
  cases h with
  | ping hping =>
    have hnow := harrives side _ hping
    simp only at hnow
    omega
  | comes hcomes => exact harrives side.peer _ hcomes
  | next => omega

/-- A side of which nothing changes, while its peer may write. -/
theorem Running.frame (h : Running setup timing keepAlive side) (hnow : next.now = keepAlive.now)
    (hendpoint : next.endpoint side = keepAlive.endpoint side)
    (hping : ∀ time, (time, .keepAlive true) ∈ keepAlive.written side →
      (time, .keepAlive true) ∈ next.written side ∨
        (next.now, .keepAlive false) ∈ next.written side.peer ∧
          keepAlive.now ≤ time + timing.delay)
    (hcomes : ∀ time respond, (time, .keepAlive respond) ∈ keepAlive.written side.peer →
      (time, .keepAlive respond) ∈ next.written side.peer) : Running setup timing next side := by
  obtain ⟨deadline, hexpects, hdeadline⟩ := h.fresh
  have hkept : ∃ earlier ≤ deadline, Expects timing next side earlier := by
    cases hexpects with
    | ping hwritten =>
      rcases hping _ hwritten with hstill | ⟨hans, hnow'⟩
      · exact ⟨_, le_rfl, .ping hstill⟩
      · exact ⟨_, by omega, .comes hans⟩
    | comes hwritten => exact ⟨_, le_rfl, .comes (hcomes _ _ hwritten)⟩
    | next => exact ⟨_, le_rfl, hendpoint ▸ .next⟩
  obtain ⟨earlier, hle, hearlier⟩ := hkept
  refine ⟨?_, ?_, ?_, earlier, hearlier, ?_⟩
  · rw [hendpoint]
    exact h.timers
  · rw [hendpoint, hnow]
    exact h.soon
  · rw [hendpoint, hnow]
    exact h.punctual
  · rw [hendpoint]
    omega

/-- The timers are started. -/
theorem running_activate (endpoint : Endpoint)
    (hfits : setup.keepAliveInterval + timing.late + 2 * timing.delay <
    setup.keepAliveMaxLifetime)
    (hendpoint : next.endpoint side = endpoint.activate next.now setup.keepAliveInterval
      setup.keepAliveMaxLifetime) : Running setup timing next side := by
  have hping : (next.endpoint side).pingAt = next.now + setup.keepAliveInterval := by
    rw [hendpoint]
    rfl
  have hpong : (next.endpoint side).pongAt = next.now + setup.keepAliveMaxLifetime := by
    rw [hendpoint]
    rfl
  refine ⟨by rw [hendpoint]; rfl, by omega, by omega, _, .next, .inr ?_⟩
  omega

instance (timing : Timing) (keepAlive : KeepAlive) (action : KeepAliveAction) :
    Decidable (Timely timing keepAlive action) := by
  cases action <;> unfold Timely <;> infer_instance

/-- A KEEPALIVE frame has come. -/
theorem Running.pong (h : Running setup timing keepAlive side)
    (hfits : setup.keepAliveInterval + timing.late + 2 * timing.delay <
    setup.keepAliveMaxLifetime) (hnow : next.now = keepAlive.now)
    (hendpoint : next.endpoint side = { keepAlive.endpoint side with
      keepAliveTimer := (keepAlive.endpoint side).keepAliveTimer.pong keepAlive.now }) :
    Running setup timing next side := by
  have hping : (next.endpoint side).pingAt = (keepAlive.endpoint side).pingAt := by rw [hendpoint]
  have hlast : (next.endpoint side).keepAliveTimer.lastPong = keepAlive.now := by
    rw [hendpoint]
    rfl
  have hsoon := h.soon
  have hpunctual := h.punctual
  refine ⟨?_, by omega, by omega, _, .next, .inl (by omega)⟩
  rw [hendpoint]
  exact h.timers

/-- The timer of the pings fires: what was expected of the next ping is expected of this one. -/
theorem Running.ping (h : Running setup timing keepAlive side)
    (hdue : (keepAlive.endpoint side).pingAt + missed * setup.keepAliveInterval ≤ keepAlive.now) :
    Running setup timing ((keepAlive.update side { keepAlive.endpoint side with
      pingAt := (keepAlive.endpoint side).pingAt + (missed + 1) * setup.keepAliveInterval }).write
        side [(keepAlive.now, .keepAlive true)]) side := by
  have hsoon := h.soon
  have hpunctual := h.punctual
  have hmissed : (0 : ℤ) ≤ missed * setup.keepAliveInterval := by positivity
  have hsplit : ((missed : ℤ) + 1) * setup.keepAliveInterval =
      missed * setup.keepAliveInterval + setup.keepAliveInterval := by ring
  obtain ⟨deadline, hexpects, hdeadline⟩ := h.fresh
  have hkept : ∃ earlier ≤ deadline, Expects timing ((keepAlive.update side
      { keepAlive.endpoint side with
        pingAt := (keepAlive.endpoint side).pingAt + (missed + 1) * setup.keepAliveInterval }).write
          side [(keepAlive.now, .keepAlive true)]) side earlier := by
    cases hexpects with
    | ping hwritten => exact ⟨_, le_rfl, .ping (by simp [hwritten])⟩
    | comes hwritten => exact ⟨_, le_rfl, .comes (by simpa using hwritten)⟩
    | next => exact ⟨keepAlive.now + 2 * timing.delay, by omega, .ping (by simp)⟩
  obtain ⟨earlier, hle, hearlier⟩ := hkept
  refine ⟨by simpa using h.timers, ?_, ?_, earlier, hearlier, ?_⟩
  · simp only [write_now, update_now, write_endpoint, endpoint_update_self]
    omega
  · simp only [write_now, update_now, write_endpoint, endpoint_update_self]
    omega
  · simp only [write_endpoint, endpoint_update_self]
    omega

/-- The timer finds that a KEEPALIVE frame has come in time. -/
theorem Running.not_expired (h : Running setup timing keepAlive side)
    (harrives : ∀ side, ∀ frame ∈ keepAlive.written side, keepAlive.now ≤ frame.1 + timing.delay)
    (hdue : (keepAlive.endpoint side).pongAt + missed * setup.keepAliveMaxLifetime ≤
    keepAlive.now) :
    (keepAlive.endpoint side).keepAliveTimer.expired keepAlive.now setup.keepAliveMaxLifetime =
      false := by
  obtain ⟨deadline, hexpects, hdeadline⟩ := h.fresh
  have hnow := hexpects.now_le harrives h.punctual
  have hmissed : (0 : ℤ) ≤ missed * setup.keepAliveMaxLifetime := by positivity
  rw [expired, decide_eq_false_iff_not]
  omega

/-- Looking at the clock changes nothing else. -/
theorem Running.check (h : Running setup timing keepAlive side)
    (hexpired : (keepAlive.endpoint side).keepAliveTimer.expired keepAlive.now
      setup.keepAliveMaxLifetime = false) :
    Running setup timing (keepAlive.update side ((keepAlive.endpoint side).check keepAlive.now
      setup.keepAliveMaxLifetime missed)) side := by
  have hendpoint : (keepAlive.endpoint side).check keepAlive.now setup.keepAliveMaxLifetime missed =
      { keepAlive.endpoint side with pongAt :=
        (keepAlive.endpoint side).pongAt + (missed + 1) * setup.keepAliveMaxLifetime } := by
    simp [Endpoint.check, hexpired]
  have hmore : (0 : ℤ) ≤ (missed + 1) * setup.keepAliveMaxLifetime := by positivity
  obtain ⟨deadline, hexpects, hdeadline⟩ := h.fresh
  rw [hendpoint]
  refine ⟨by simpa using h.timers, by simpa using h.soon, by simpa using h.punctual, deadline,
    ?_, ?_⟩
  · cases hexpects with
    | ping hwritten => exact .ping hwritten
    | comes hwritten => exact .comes hwritten
    | next =>
      have hnext :=
        @Expects.next timing (keepAlive.update side { keepAlive.endpoint side with pongAt :=
        (keepAlive.endpoint side).pongAt + (missed + 1) * setup.keepAliveMaxLifetime }) side
      simpa using hnext
  · simp only [endpoint_update_self]
    omega

/-- What a side makes of a frame: it takes a KEEPALIVE frame, it starts its timers, or nothing
changes. -/
theorem handle_cases (setup : KeepAliveSetup) (now : ℤ) (signal : Signal) (endpoint : Endpoint) :
    (∃ respond, signal = .keepAlive respond ∧ endpoint.handle setup now signal =
      ({ endpoint with keepAliveTimer := endpoint.keepAliveTimer.pong now },
        if respond then [(now, .keepAlive false)] else [])) ∨
    (∃ interval lifetime, signal = .setup interval lifetime ∧ endpoint.activated = false ∧
      endpoint.handle setup now signal = (endpoint.activate now interval lifetime, [])) ∨
    (endpoint.sending = true → ∀ respond, signal ≠ .keepAlive respond) ∧
      ∃ answers : List (ℤ × Signal), endpoint.handle setup now signal = (endpoint, answers) ∧
        ∀ answer ∈ answers, answer = (now, .other) := by
  by_cases hsend : endpoint.sending = true
  · cases signal with
    | keepAlive respond => exact .inl ⟨respond, rfl, by simp [Endpoint.handle, hsend]⟩
    | setup interval lifetime =>
      by_cases hidle : (!endpoint.accepting || endpoint.activated) = true
      · exact .inr (.inr ⟨by simp, [], by simp only [Endpoint.handle, hsend, hidle]; rfl, by simp⟩)
      · have hact : endpoint.activated = false := by simp_all
        by_cases hacc : setup.accepted = true
        · exact .inr (.inl ⟨interval, lifetime, rfl, hact,
            by simp only [Endpoint.handle, hsend, hidle, hacc]; rfl⟩)
        · exact .inr (.inr ⟨by simp, [(now, .other)],
            by simp only [Endpoint.handle, hsend, hidle, hacc]; rfl, by simp⟩)
    | other => exact .inr (.inr ⟨by simp, [], by simp [Endpoint.handle, hsend], by simp⟩)
  · exact .inr (.inr ⟨fun h => absurd h hsend, [], by simp [Endpoint.handle, hsend], by simp⟩)

/-- A side reads a frame. -/
theorem Alive.deliver {time : ℤ} {signal : Signal} {rest : List (ℤ × Signal)}
    (h : Alive setup timing keepAlive)
    (hfits : setup.keepAliveInterval + timing.late + 2 * timing.delay <
    setup.keepAliveMaxLifetime) (hwritten : keepAlive.written side.peer = (time, signal) :: rest) :
    Alive setup timing (((keepAlive.take side rest).update side
      ((keepAlive.endpoint side).handle setup keepAlive.now signal).1).write side
        ((keepAlive.endpoint side).handle setup keepAlive.now signal).2) := by
  obtain ⟨hexpiries, hacc, hsend⟩ := h.calm side
  have hrest : ∀ frame ∈ rest, frame ∈ keepAlive.written side.peer := by
    intro frame hframe
    rw [hwritten]
    exact List.mem_cons_of_mem _ hframe
  have hcases := handle_cases setup keepAlive.now signal (keepAlive.endpoint side)
  have hanswers : ∀ frame ∈ ((keepAlive.endpoint side).handle setup keepAlive.now signal).2,
      frame.1 = keepAlive.now ∧ ∀ interval lifetime : ℕ, frame.2 = .setup interval lifetime →
        interval = setup.keepAliveInterval ∧ lifetime = setup.keepAliveMaxLifetime := by
    intro frame hframe
    rcases hcases with ⟨respond, -, hhandle⟩ | ⟨interval, lifetime, -, -, hhandle⟩ |
      ⟨-, answers, hhandle, hother⟩ <;> rw [hhandle] at hframe
    · cases respond with
      | true =>
        obtain rfl := List.mem_singleton.mp hframe
        exact ⟨rfl, nofun⟩
      | false => cases hframe
    · cases hframe
    · rw [hother frame hframe]
      exact ⟨rfl, nofun⟩
  have htaken : ∀ other, ∀ frame ∈ (keepAlive.take side rest).written other,
      frame ∈ keepAlive.written other := by
    refine forall_side side ?_ ?_
    · intro frame hframe
      simpa using hframe
    · intro frame hframe
      exact hrest frame (by simpa using hframe)
  refine ⟨forall_side side ?_ ?_, h.frames.write rfl htaken hanswers, forall_side side ?_ ?_⟩
  · rcases hcases with ⟨respond, -, hhandle⟩ | ⟨interval, lifetime, -, -, hhandle⟩ |
      ⟨-, answers, hhandle, -⟩ <;> rw [hhandle] <;>
      simp [Endpoint.activate, hexpiries, hacc, hsend]
  · simpa using h.calm side.peer
  · intro hstarted
    rcases hcases with ⟨respond, -, hhandle⟩ | ⟨interval, lifetime, rfl, -, hhandle⟩ |
      ⟨hkind, answers, hhandle, -⟩ <;> rw [hhandle] at hstarted ⊢
    · have hold : (keepAlive.endpoint side).keepAliveTimer.started ≠ none := by
        simpa [pong] using hstarted
      exact (h.running side hold).pong hfits rfl (by simp)
    · obtain ⟨rfl, rfl⟩ := h.frames.setups side.peer (time, .setup interval lifetime)
        (by simp [hwritten]) interval lifetime rfl
      exact running_activate (keepAlive.endpoint side) hfits (by simp)
    · have hold : (keepAlive.endpoint side).keepAliveTimer.started ≠ none := by simpa using hstarted
      refine (h.running side hold).frame ?_ ?_ ?_ ?_
      · rfl
      · simp
      · intro time' hping
        exact .inl (by simp [hping])
      · intro time' respond hcomes
        rw [hwritten, List.mem_cons] at hcomes
        rcases hcomes with hhead | htail
        · exact absurd (congrArg Prod.snd hhead).symm (hkind hsend respond)
        · simpa using htail
  · intro hstarted
    have hold : (keepAlive.endpoint side.peer).keepAliveTimer.started ≠ none := by
      simpa using hstarted
    refine (h.running side.peer hold).frame ?_ ?_ ?_ ?_
    · rfl
    · simp
    · intro time' hping
      rw [hwritten, List.mem_cons] at hping
      rcases hping with hhead | htail
      · obtain ⟨rfl, rfl⟩ := Prod.mk.inj hhead
        have harrives := h.frames.arrives side.peer (time', .keepAlive true) (by simp [hwritten])
        refine .inr ⟨?_, harrives⟩
        simp [Endpoint.handle, hsend]
      · exact .inl (by simpa using htail)
    · intro time' respond hcomes
      rw [peer_peer] at hcomes ⊢
      simp [hcomes]

theorem Alive.step (h : Alive setup timing keepAlive)
    (hfits : setup.keepAliveInterval + timing.late + 2 * timing.delay < setup.keepAliveMaxLifetime)
    (hwritten : setup.keepAliveMaxLifetime < 2 ^ 32) (htimely : Timely timing keepAlive action)
    (hstep : keepAlive.step setup action = some next) : Alive setup timing next := by
  have hframe {side : Side} {changed : KeepAlive} (hnow : changed.now = keepAlive.now)
      (hendpoint : changed.endpoint side = keepAlive.endpoint side)
      (hwritten : ∀ other, ∀ frame ∈ keepAlive.written other, frame ∈ changed.written other)
      (hstarted : (changed.endpoint side).keepAliveTimer.started ≠ none) :
      Running setup timing changed side :=
    (h.running side (hendpoint ▸ hstarted)).frame hnow hendpoint
      (fun _ hping => .inl (hwritten side _ hping)) fun _ _ hcomes => hwritten side.peer _ hcomes
  cases step_move hstep with
  | advance elapsed =>
    refine ⟨h.calm, ⟨htimely.2, h.frames.setups⟩, fun side hstarted => ?_⟩
    have hrunning := h.running side hstarted
    have hpunctual := htimely.1 side hstarted
    obtain ⟨deadline, hexpects, hdeadline⟩ := hrunning.fresh
    refine ⟨hrunning.timers, ?_, hpunctual, deadline, ?_, hdeadline⟩
    · have hsoon := hrunning.soon
      simp only
      omega
    · cases hexpects with
      | ping hwritten => exact .ping hwritten
      | comes hwritten => exact .comes hwritten
      | next => exact .next
  | @make side hmade =>
    refine ⟨forall_side side (by simp [Endpoint.make, Endpoint.none])
      (by simpa using h.calm side.peer), ⟨h.frames.arrives, h.frames.setups⟩,
      forall_side side ?_ ?_⟩
    · intro hstarted
      simp [Endpoint.make] at hstarted
    · exact hframe rfl (by simp) fun _ _ hmem => hmem
  | connect =>
    refine ⟨forall_side .client ?_ (by simpa using h.calm Side.client.peer),
      h.frames.write rfl (fun _ _ hmem => hmem) fun frame hframe => ?_,
      forall_side .client (fun _ => ?_) (hframe rfl (by simp) fun _ _ hmem => mem_write _ hmem)⟩
    · simpa [Endpoint.activate] using h.calm .client
    · obtain rfl := List.mem_singleton.mp hframe
      refine ⟨rfl, fun interval lifetime hsetup => ?_⟩
      obtain ⟨rfl, rfl⟩ := Signal.setup.inj hsetup
      exact ⟨Nat.mod_eq_of_lt (by omega), Nat.mod_eq_of_lt hwritten⟩
    · exact running_activate (keepAlive.endpoint .client) hfits (by simp)
  | @ping side missed interval lifetime hstarted hdue =>
    have hrunning := h.running side (by simp [hstarted])
    obtain ⟨rfl, rfl⟩ : interval = setup.keepAliveInterval ∧
        lifetime = setup.keepAliveMaxLifetime := by
      simpa [hstarted] using hrunning.timers
    refine ⟨forall_side side (by simpa using h.calm side) (by simpa using h.calm side.peer),
      h.frames.write rfl (fun _ _ hmem => hmem) fun frame hframe => ?_,
      forall_side side (fun _ => hrunning.ping hdue)
        (hframe rfl (by simp) fun _ _ hmem => mem_write _ hmem)⟩
    obtain rfl := List.mem_singleton.mp hframe
    exact ⟨rfl, nofun⟩
  | @check side missed interval lifetime hstarted hdue =>
    have hrunning := h.running side (by simp [hstarted])
    obtain ⟨rfl, rfl⟩ : interval = setup.keepAliveInterval ∧
        lifetime = setup.keepAliveMaxLifetime := by
      simpa [hstarted] using hrunning.timers
    have hexpired := hrunning.not_expired h.frames.arrives hdue
    refine ⟨forall_side side ?_ (by simpa using h.calm side.peer),
      ⟨h.frames.arrives, h.frames.setups⟩,
      forall_side side (fun _ => hrunning.check hexpired)
        (hframe rfl (by simp) fun _ _ hmem => hmem)⟩
    simpa [Endpoint.check, hexpired] using h.calm side
  | deliver hwritten hmade => exact h.deliver hfits hwritten
  | lose hwritten => exact htimely.elim
  | write side =>
    refine ⟨h.calm, h.frames.write rfl (fun _ _ hmem => hmem) fun frame hframe => ?_,
      fun other => hframe rfl rfl fun _ _ hmem => mem_write _ hmem⟩
    obtain rfl := List.mem_singleton.mp hframe
    exact ⟨rfl, nofun⟩
  | close hmade => exact htimely.elim
  | @closed side hacc hsend =>
    rw [(h.calm side).2.1] at hacc
    cases hacc

/-- Where the interval, the lateness of a timer and twice the time that a frame is under way are
shorter than the lifetime together, and the lifetime fits into the SETUP frame, neither side ever
closes the connection. -/
theorem alive_of_run (setup : KeepAliveSetup) (timing : Timing) (now : ℤ)
    (hfits : setup.keepAliveInterval + timing.late + 2 * timing.delay < setup.keepAliveMaxLifetime)
    (hwritten : setup.keepAliveMaxLifetime < 2 ^ 32) (actions : List KeepAliveAction)
    (last : KeepAlive) (halong : Along (step setup) (Timely timing) (start now) actions)
    (hrun : run (step setup) (start now) actions = some last) (side : Side) :
    (last.endpoint side).expiries = 0 ∧ (last.endpoint side).accepting = true ∧
      (last.endpoint side).sending = true := by
  have halive : Alive setup timing last := run_induction (fun _ => Alive setup timing)
    (fun _ _ _ _ h htimely hstep => h.step hfits hwritten htimely hstep)
      (alive_start setup timing now)
    halong hrun
  exact halive.calm side

/-- The defaults, with timers that are a second late and frames that take two seconds. -/
theorem alive_of_run_defaults : ∃ last, run (step ⟨20000, 90000, true⟩) (start 0)
    [.make .client, .connect, .make .server, .advance 2000, .deliver .server, .advance 18500,
      .ping .client 0, .advance 1800, .deliver .server, .ping .server 0, .advance 2000,
      .deliver .client, .deliver .client, .deliver .server] = some last ∧
      (last.endpoint .client).expiries = 0 ∧ (last.endpoint .client).accepting = true ∧
        (last.endpoint .client).sending = true := by
  refine ⟨?last, ?run, alive_of_run ⟨20000, 90000, true⟩ ⟨1000, 2000⟩ 0 (by decide) (by decide) _
    ?last ?_ ?run .client⟩
  case run => rfl
  decide

end KeepAlive

end FengShui.Reactive
