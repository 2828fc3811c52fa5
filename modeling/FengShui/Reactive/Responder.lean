import FengShui.Lib.Effect
import FengShui.Reactive.FrameCodec

/-!
# The responder (`reactive/responder.dart`)

`readNext` is the body of the loop of `handle` up to the call of the broker: it reads a frame and
tells which call follows, or that the frame is ignored, unknown or cut short. `turn` is one round of
the loop and `handle` the loop itself. The broker is a parameter: what the responder asks of it
and the calls it makes are in `Broker`, and `ReactiveBroker` is one. The tracer, which only sees
frames, is left out.

Every round that goes on has taken at least a header (`turn_next_cursor`), so the loop ends:
`loop_cursor` is its equation, in which the bound on the number of rounds no longer occurs.
-/

namespace FengShui.Reactive

open ReactiveReadBuffer ReactiveReader

/-- The calls of the responder; `pong` goes to the keep-alive timer. -/
inductive BrokerCall where
  | setup (dataMimeType metadataMimeType : DartString)
      (keepAliveInterval keepAliveMaxLifetime : ℕ) (lease : Bool)
  | lease (timeToLive requests : ℕ)
  | pong (respond : Bool)
  | request (remoteStreamId count : ℕ)
  | initiate (remoteStreamId initialRequestCount : ℕ) (initialPayload : ReactivePayload)
  | receive (remoteStreamId : ℕ) (payload : ReactivePayload) (completed follow : Bool)
  | cancel (streamId : ℕ)
  | handle (remoteStreamId code : ℕ) (message : DartString)
  deriving DecidableEq, Repr

/-- A broker that accepts or not and is activated or not may get the call. -/
def BrokerCall.Open (accepting activated : Bool) : BrokerCall → Prop
  | .setup .. => accepting = true ∧ activated = false
  | .initiate .. | .receive .. => accepting = true
  | _ => True

/-- What the responder uses of a broker whose state is a `σ`. A call may throw. -/
structure Broker (σ : Type) where
  accepting : σ → Bool
  sending : σ → Bool
  activated : σ → Bool
  call : BrokerCall → σ → EStateM.Result DartException σ Unit

/-- A broker that accepts everything and does nothing. -/
def idleBroker : Broker Unit where
  accepting _ := true
  sending _ := true
  activated _ := false
  call _ state := .ok () state

/-- What the loop finds at the reader. -/
inductive NextFrame where
  /-- A frame that leads to a call. -/
  | frame (call : BrokerCall)
  /-- A frame of an unknown type. -/
  | unknown
  /-- A frame that the broker is not to see: the loop goes on with `continue`. -/
  | ignored
  /-- A frame that is cut short: the loop returns to the checkpoint and waits for more bytes. -/
  | incomplete
  deriving DecidableEq, Repr

namespace ReactiveResponder

/-- The rest of a frame with the given header, for a broker that accepts or not and is activated or
not: the `switch` of `handle`. -/
def readBody (accepting activated : Bool) (header : FrameHeader) : Reading NextFrame := do
  match header.type with
  | reactiveFrameSetup =>
    if !accepting || activated then return .ignored
    let frame ← readSetupFrame header
    return .frame (.setup frame.dataMimeType frame.metadataMimeType frame.keepAliveInterval
      frame.keepAliveMaxLifetime frame.leaseEnable)
  | reactiveFrameLease =>
    let some frame ← readLeaseFrame header | return .incomplete
    return .frame (.lease frame.timeToLive frame.requests)
  | reactiveFrameKeepalive =>
    let some frame ← readKeepAliveFrame header | return .incomplete
    return .frame (.pong frame.respond)
  | reactiveFrameRequestN =>
    let some frame ← readRequestNFrame header | return .incomplete
    return .frame (.request frame.header.streamId frame.count)
  | reactiveFrameRequestChannel =>
    if !accepting then return .ignored
    let some frame ← readRequestChannelFrame header | return .incomplete
    -- `frame.payload!`.
    let some payload := frame.payload | throw .typeError
    return .frame (.initiate frame.header.streamId frame.initialRequestCount payload)
  | reactiveFramePayload =>
    if !accepting then return .ignored
    let some frame ← readPayloadFrame header | return .incomplete
    return .frame (.receive frame.header.streamId frame.payload frame.completed frame.follow)
  | reactiveFrameCancel => return .frame (.cancel header.streamId)
  | reactiveFrameError =>
    let some frame ← readErrorFrame header | return .incomplete
    return .frame (.handle frame.header.streamId frame.code frame.message)
  | _ =>
    if header.frameLength > reactiveFrameHeaderSize then
      let some _ ← readBytes (header.frameLength - reactiveFrameHeaderSize) | return .incomplete
      return .unknown
    return .unknown

/-- The frame at the reader. -/
def readNext (accepting activated : Bool) : Reading NextFrame := do
  let some header ← readFrameHeader | return .incomplete
  readBody accepting activated header

/-- How a round of the loop ends: it goes on, returns at the checkpoint, or throws, in a reader or
in the broker. -/
inductive Turn (σ : Type) where
  | next (buffer : ReactiveReadBuffer) (state : σ)
  | wait (buffer : ReactiveReadBuffer)
  | readThrew (e : DartException) (buffer : ReactiveReadBuffer)
  | callThrew (e : DartException) (buffer : ReactiveReadBuffer) (state : σ)

/-- The buffer behind a round. -/
def Turn.buffer {σ : Type} : Turn σ → ReactiveReadBuffer
  | .next buffer _ => buffer
  | .wait buffer => buffer
  | .readThrew _ buffer => buffer
  | .callThrew _ buffer _ => buffer

/-- How a call of `handle` ends. -/
inductive Handled (σ : Type) where
  | returned (buffer : ReactiveReadBuffer) (state : σ)
  | threw (e : DartException) (buffer : ReactiveReadBuffer) (state : σ)

/-- The broker behind a call of `handle`. -/
def Handled.state {σ : Type} : Handled σ → σ
  | .returned _ state => state
  | .threw _ _ state => state

/-- The buffer behind a call of `handle`. -/
def Handled.buffer {σ : Type} : Handled σ → ReactiveReadBuffer
  | .returned buffer _ => buffer
  | .threw _ buffer _ => buffer

section Handle

variable {σ : Type} (broker : Broker σ)

def turn (buffer : ReactiveReadBuffer) (state : σ) : Turn σ :=
  match readNext (broker.accepting state) (broker.activated state) buffer.save with
  | .error e buffer => .readThrew e buffer
  | .ok .incomplete buffer => .wait buffer.restore
  | .ok .ignored buffer => .next buffer state
  | .ok .unknown buffer => .next buffer.shrink state
  | .ok (.frame call) buffer =>
    match broker.call call state with
    | .ok _ state => .next buffer.shrink state
    | .error e state => .callThrew e buffer state

/-- The loop, with a bound on the number of rounds. -/
def handleLoop : ℕ → ReactiveReadBuffer → σ → Handled σ
  | 0, buffer, state => .returned buffer state
  | rounds + 1, buffer, state =>
    if buffer.isReadable && broker.sending state then
      match turn broker buffer state with
      | .next buffer state => handleLoop rounds buffer state
      | .wait buffer => .returned buffer state
      | .readThrew e buffer => .threw e buffer state
      | .callThrew e buffer state => .threw e buffer state
    else .returned buffer.reset state

/-- The loop, with as many rounds as there can be. -/
def loop (buffer : ReactiveReadBuffer) (state : σ) : Handled σ :=
  handleLoop broker (buffer.unread.length + 1) buffer state

def handle (payload : Uint8List) (buffer : ReactiveReadBuffer) (state : σ) : Handled σ :=
  if broker.sending state then loop broker (buffer.extend payload) state
  else .returned buffer state

end Handle

/-! ## The end of the loop -/

theorem consumes_readBody (accepting activated : Bool) (header : FrameHeader) :
    Consumes (readBody accepting activated header) := by
  unfold readBody
  split
  · split
    · exact consumes_pure _
    · exact (consumes_readSetupFrame header).bind fun _ => consumes_pure _
  · exact (consumes_readLeaseFrame header).bind fun
      | none => consumes_pure _
      | some _ => consumes_pure _
  · exact (consumes_readKeepAliveFrame header).bind fun
      | none => consumes_pure _
      | some _ => consumes_pure _
  · exact (consumes_readRequestNFrame header).bind fun
      | none => consumes_pure _
      | some _ => consumes_pure _
  · split
    · exact consumes_pure _
    · refine (consumes_readRequestChannelFrame header).bind fun
        | none => consumes_pure _
        | some frame => ?_
      simp only
      cases frame.payload with
      | none => exact consumes_throw _
      | some payload => exact consumes_pure _
  · split
    · exact consumes_pure _
    · exact (consumes_readPayloadFrame header).bind fun
        | none => consumes_pure _
        | some _ => consumes_pure _
  · exact consumes_pure _
  · exact (consumes_readErrorFrame header).bind fun
      | none => consumes_pure _
      | some _ => consumes_pure _
  · split
    · exact (consumes_readBytes _).bind fun
        | none => consumes_pure _
        | some _ => consumes_pure _
    · exact consumes_pure _

/-- A round takes at least a header, unless the frame is cut short. -/
theorem readNext_cursor (accepting activated : Bool) (pre rest : Uint8List) (checkpoint : ℕ) :
    ∃ taken left, rest = taken ++ left ∧
      ((∃ next, readNext accepting activated (cursor pre rest checkpoint) =
          .ok next (cursor (pre ++ taken) left checkpoint) ∧
          (next ≠ .incomplete → reactiveFrameHeaderSize ≤ taken.length)) ∨
        ∃ e, readNext accepting activated (cursor pre rest checkpoint) =
          .error e (cursor (pre ++ taken) left checkpoint)) := by
  rcases lt_or_ge rest.length reactiveFrameHeaderSize with hshort | hlong
  · obtain ⟨taken, left, rfl, h⟩ := readFrameHeader_cursor_short pre rest checkpoint hshort
    refine ⟨taken, left, rfl, .inl ⟨.incomplete, ?_, absurd rfl⟩⟩
    rw [readNext, bind_ok h]
    rfl
  · obtain ⟨front, rest, rfl, hfront, header, h⟩ :=
      readFrameHeader_cursor_long pre rest checkpoint hlong
    obtain ⟨taken, left, rfl, ⟨next, hbody⟩ | ⟨e, hbody⟩⟩ :=
      consumes_readBody accepting activated header (pre ++ front) rest checkpoint
    · refine ⟨front ++ taken, left, (List.append_assoc ..).symm, .inl ⟨next, ?_, fun _ => ?_⟩⟩
      · rw [readNext, bind_ok h, ← List.append_assoc]
        exact hbody
      · rw [List.length_append, hfront]
        omega
    · refine ⟨front ++ taken, left, (List.append_assoc ..).symm, .inr ⟨e, ?_⟩⟩
      rw [readNext, bind_ok h, ← List.append_assoc]
      exact hbody

section Handle

variable {σ : Type} (broker : Broker σ)

variable {state state' : σ} {buffer buffer' : ReactiveReadBuffer}

/-- A round that goes on leaves a buffer with fewer bytes to read. -/
theorem turn_next_cursor {pre rest : Uint8List} {checkpoint : ℕ}
    (h : turn broker (cursor pre rest checkpoint) state = .next buffer state') :
    ∃ pre' rest' checkpoint', buffer = cursor pre' rest' checkpoint' ∧
      rest'.length < rest.length := by
  obtain ⟨taken, left, rfl, ⟨next, hread, htaken⟩ | ⟨e, hread⟩⟩ :=
    readNext_cursor (broker.accepting state) (broker.activated state) pre rest pre.length
  · have hlen (hnext : next ≠ .incomplete) : left.length < (taken ++ left).length := by
      have htaken := htaken hnext
      rw [reactiveFrameHeaderSize] at htaken
      rw [List.length_append]
      omega
    rw [turn, save_cursor, hread] at h
    cases next with
    | frame call =>
      simp only at h
      split at h
      · cases h
        exact ⟨[], left, _, shrink_cursor .., hlen (by simp)⟩
      · cases h
    | unknown =>
      cases h
      exact ⟨[], left, _, shrink_cursor .., hlen (by simp)⟩
    | ignored =>
      cases h
      exact ⟨_, left, _, rfl, hlen (by simp)⟩
    | incomplete => cases h
  · rw [turn, save_cursor, hread] at h
    cases h

/-- Bounds above the number of bytes to read all give the same. -/
theorem handleLoop_congr {m n : ℕ} {pre rest : Uint8List} {checkpoint : ℕ} (hm : rest.length < m)
    (hn : rest.length < n) :
    handleLoop broker m (cursor pre rest checkpoint) state =
      handleLoop broker n (cursor pre rest checkpoint) state := by
  induction m generalizing n pre rest checkpoint state with
  | zero => omega
  | succ m ih =>
    obtain ⟨n, rfl⟩ : ∃ k, n = k + 1 := ⟨n - 1, by omega⟩
    rw [handleLoop, handleLoop]
    split
    · cases hturn : turn broker (cursor pre rest checkpoint) state with
      | next buffer state' =>
        obtain ⟨pre', rest', checkpoint', rfl, hlt⟩ := turn_next_cursor broker hturn
        exact ih (by omega) (by omega)
      | wait => rfl
      | readThrew => rfl
      | callThrew => rfl
    · rfl

/-- The equation of the loop. -/
theorem loop_cursor (pre rest : Uint8List) (checkpoint : ℕ) (state : σ) :
    loop broker (cursor pre rest checkpoint) state =
      if (cursor pre rest checkpoint).isReadable && broker.sending state then
        match turn broker (cursor pre rest checkpoint) state with
        | .next buffer state => loop broker buffer state
        | .wait buffer => .returned buffer state
        | .readThrew e buffer => .threw e buffer state
        | .callThrew e buffer state => .threw e buffer state
      else .returned (cursor pre rest checkpoint).reset state := by
  rw [loop, unread_cursor, handleLoop]
  split
  · cases hturn : turn broker (cursor pre rest checkpoint) state with
    | next buffer state' =>
      obtain ⟨pre', rest', checkpoint', rfl, hlt⟩ := turn_next_cursor broker hturn
      simp only [loop, unread_cursor]
      exact handleLoop_congr broker hlt (Nat.lt_succ_self _)
    | wait => rfl
    | readThrew => rfl
    | callThrew => rfl
  · rfl

/-! ## What the broker sees -/

/-- The calls that a reader of frames leads to are open. -/
def LeadsToOpen (accepting activated : Bool) (reading : Reading NextFrame) : Prop :=
  ∀ buffer call buffer', reading buffer = .ok (.frame call) buffer' → call.Open accepting activated

/-- A frame leads to its call only in front of a broker that the call is open for. -/
theorem leadsToOpen_readBody (accepting activated : Bool) (header : FrameHeader) :
    LeadsToOpen accepting activated (readBody accepting activated header) := by
  unfold readBody
  split
  · split
    · exact nofun
    · rename_i hopen
      intro _ _ _ h
      obtain ⟨frame, buffer, -, h⟩ := bind_eq_ok h
      cases h
      simpa [BrokerCall.Open] using hopen
  iterate 3
    · intro _ _ _ h
      obtain ⟨_ | frame, buffer, -, h⟩ := bind_eq_ok h <;> cases h
      trivial
  · split
    · exact nofun
    · rename_i hopen
      intro _ _ _ h
      obtain ⟨_ | ⟨header, count, _ | payload⟩, buffer, -, h⟩ := bind_eq_ok h <;> cases h
      simpa [BrokerCall.Open] using hopen
  · split
    · exact nofun
    · rename_i hopen
      intro _ _ _ h
      obtain ⟨_ | frame, buffer, -, h⟩ := bind_eq_ok h <;> cases h
      simpa [BrokerCall.Open] using hopen
  · intro _ _ _ h
    cases h
    trivial
  · intro _ _ _ h
    obtain ⟨_ | frame, buffer, -, h⟩ := bind_eq_ok h <;> cases h
    trivial
  · split
    · intro _ _ _ h
      obtain ⟨_ | frame, buffer, -, h⟩ := bind_eq_ok h <;> cases h
    · exact nofun

theorem open_of_readNext {accepting activated : Bool} {call : BrokerCall}
    (h : readNext accepting activated buffer = .ok (.frame call) buffer') :
    call.Open accepting activated := by
  obtain ⟨_ | header, buffer, -, h⟩ := bind_eq_ok h
  · cases h
  · exact leadsToOpen_readBody accepting activated header buffer call buffer' h

variable {broker}

/-- What a round does to the broker is one call at most. -/
theorem turn_next (h : turn broker buffer state = .next buffer' state') :
    state' = state ∨ ∃ call, call.Open (broker.accepting state) (broker.activated state) ∧
      broker.call call state = .ok () state' := by
  unfold turn at h
  split at h
  · cases h
  · cases h
  · cases h
    exact .inl rfl
  · cases h
    exact .inl rfl
  · rename_i call _ hread
    split at h
    · rename_i hcall
      cases h
      exact .inr ⟨call, open_of_readNext hread, hcall⟩
    · cases h

theorem turn_callThrew {e : DartException}
    (h : turn broker buffer state = .callThrew e buffer' state') :
    ∃ call, call.Open (broker.accepting state) (broker.activated state) ∧
      broker.call call state = .error e state' := by
  unfold turn at h
  split at h
  · cases h
  · cases h
  · cases h
  · cases h
  · rename_i call _ hread
    split at h
    · cases h
    · rename_i hcall
      cases h
      exact ⟨call, open_of_readNext hread, hcall⟩

variable (broker)

/-- What every call keeps is kept by the loop. -/
theorem handleLoop_invariant (Inv : σ → Prop)
    (hcall : ∀ call state, call.Open (broker.accepting state) (broker.activated state) → Inv state →
      Inv (Effect.stateOf (broker.call call state))) (rounds : ℕ) (h : Inv state) :
    Inv (handleLoop broker rounds buffer state).state := by
  induction rounds generalizing buffer state with
  | zero => exact h
  | succ rounds ih =>
    rw [handleLoop]
    split
    · cases hturn : turn broker buffer state with
      | next buffer' state' =>
        refine ih ?_
        rcases turn_next hturn with rfl | ⟨call, hopen, hres⟩
        · exact h
        · have h := hcall call state hopen h
          rwa [hres] at h
      | wait => exact h
      | readThrew => exact h
      | callThrew e buffer' state' =>
        obtain ⟨call, hopen, hres⟩ := turn_callThrew hturn
        have h := hcall call state hopen h
        rwa [hres] at h
    · exact h

/-- What every call keeps is kept by `handle`. -/
theorem handle_invariant (Inv : σ → Prop)
    (hcall : ∀ call state, call.Open (broker.accepting state) (broker.activated state) → Inv state →
      Inv (Effect.stateOf (broker.call call state))) {payload : Uint8List} (h : Inv state) :
    Inv (handle broker payload buffer state).state := by
  unfold handle
  split
  · exact handleLoop_invariant broker Inv hcall _ h
  · exact h

end Handle

end ReactiveResponder

end FengShui.Reactive
