import FengShui.Reactive.Receiving

/-!
# From a requester to the channel of the peer (`reactive/requester.dart`, `reactive/responder.dart`)

Two brokers are joined by byte streams that keep their order. `Link` is the one from the broker of a
requester to its peer: the frames of the requester and whatever else its broker writes go out in any
order, and the bytes arrive at the responder of the peer in parts of any length, while payloads are
scheduled, grants come, writes are done, and anything happens to the peer.

What the frames of the requester make is a part of what was scheduled (`Delivers`). While the
channel of the peer is open the frames that the responder took are a part of those that were sent,
and the channel got what these make (`Hearing`); once it is not, it gets nothing more (`Over`). So
the channel gets a part of what was scheduled (`delivered_prefix`), unless a part of the bytes ends
inside the payload of a REQUEST_CHANNEL frame: the responder throws then and takes the payload for
frames (`not_delivered_prefix`).
-/

namespace FengShui.Reactive

open Effect ReactiveReadBuffer ReactiveResponder FengShui.Transition List

variable {Value : Type}

instance : DecidablePred ReactiveRequester.Sends
  | .schedulePayload bytes _ => inferInstanceAs (Decidable (bytes.length ≤ 2 ^ 53))
  | .scheduleError _ | .scheduleCancel => .isFalse id
  | .request _ | .resume _ | .close _ | .timeout | .closed | .deliver | .done _ => .isTrue trivial

/-- A frame that a broker writes once a stream is open, besides those of the requester of the
stream: `connect` has written the SETUP frame, and no two streams have the same id. -/
def ReactiveFrame.Besides (streamId : ℤ) : ReactiveFrame → Prop
  | .setup .. => False
  | .payload otherId _ _ _ => int32Field otherId ≠ int32Field streamId
  | _ => True

theorem ReactiveFrame.Besides.type_ne_setup {streamId : ℤ} {frame : ReactiveFrame}
    (h : frame.Besides streamId) : frame.type ≠ reactiveFrameSetup := by
  cases frame with
  | setup => exact h.elim
  | _ => rw [type]; decide

instance (streamId : ℤ) : DecidablePred (ReactiveFrame.Besides streamId) := fun frame => by
  unfold ReactiveFrame.Besides
  cases frame <;> infer_instance

/-- A frame on the connection: one of the requester, or another one of its broker. -/
inductive LinkFrame where
  | own (frame : OutFrame)
  | other (frame : ReactiveFrame)

namespace LinkFrame

def bytes (streamId : ℤ) : LinkFrame → Uint8List
  | own frame => frame.bytes streamId
  | other frame => frame.write

def own? : LinkFrame → Option OutFrame
  | own frame => some frame
  | other _ => none

/-- The responder notices that bytes are missing behind the cut: PAYLOAD and REQUEST_N frames can be
cut anywhere. -/
def CutSafe : LinkFrame → ℕ → Prop
  | own _, _ => True
  | other frame, cut => frame.CutSafe cut

/-- The bytes end in no frame where the responder does not notice it. -/
def EndsSafely (streamId : ℤ) : List LinkFrame → ℕ → Prop
  | [], _ => True
  | frame :: frames, cut =>
    frame.CutSafe cut ∧ EndsSafely streamId frames (cut - (frame.bytes streamId).length)

instance (frame : LinkFrame) (cut : ℕ) : Decidable (frame.CutSafe cut) :=
  match frame with
  | own _ => .isTrue trivial
  | other frame => by
    unfold CutSafe ReactiveFrame.CutSafe
    cases frame <;> infer_instance

instance decidableEndsSafely (streamId : ℤ) :
    ∀ (frames : List LinkFrame) (cut : ℕ), Decidable (EndsSafely streamId frames cut)
  | [], _ => .isTrue trivial
  | frame :: frames, cut =>
    have := decidableEndsSafely streamId frames (cut - (frame.bytes streamId).length)
    inferInstanceAs (Decidable (_ ∧ _))

theorem endsSafely_append {streamId : ℤ} {front back : List LinkFrame} {cut : ℕ}
    (h : EndsSafely streamId (front ++ back) cut) :
    EndsSafely streamId back (cut - (front.flatMap (bytes streamId)).length) := by
  induction front generalizing cut with
  | nil => exact h
  | cons frame front ih =>
    rw [flatMap_cons, length_append, ← Nat.sub_sub]
    exact ih h.2

end LinkFrame

/-- A requester, the bytes on their way, and the peer. -/
structure Link (Value : Type) where
  requester : ReactiveRequester
  /-- The frames sent so far. -/
  sent : List LinkFrame
  wire : Uint8List
  /-- The number of bytes that have arrived. -/
  arrived : ℕ
  /-- The buffer of the responder of the peer. -/
  buffer : ReactiveReadBuffer
  broker : ReactiveBroker Value
  /-- The payloads scheduled so far, but for the empty ones. -/
  scheduled : List Uint8List

inductive LinkAction (Value : Type) where
  /-- Something happens to the requester. -/
  | requester (action : RequesterAction)
  /-- The broker of the requester writes another frame. -/
  | write (frame : ReactiveFrame)
  /-- So many bytes arrive at once. -/
  | arrive (count : ℕ)
  /-- Something else happens to the peer. -/
  | peer (action : BrokerAction Value)

namespace Link

section Code

variable (application : Application Value) (streamId : ℤ)
  (configuration : ReactiveChannelConfiguration)

/-- The stream is open on both sides. Frames that are on their way are written first. -/
def create (requester : ReactiveRequester) (broker : ReactiveBroker Value) : Link Value :=
  ⟨requester, [], [], 0, new, broker, []⟩

/-- A step. No machine has a list of more than `2 ^ 53` bytes. -/
def step (link : Link Value) : LinkAction Value → Option (Link Value)
  | .requester action =>
    if ReactiveRequester.Sends action then
      (ReactiveRequester.step streamId configuration link.requester action).map fun next =>
        { link with
          requester := next
          sent := link.sent ++ (next.handed.drop link.requester.handed.length).map .own
          wire := link.wire ++
            (next.written.drop link.requester.written.length).flatMap ConnectionWrite.bytes
          scheduled := link.scheduled ++ ReactiveRequester.scheduledBy action }
    else none
  | .write frame =>
    if frame.Besides streamId then
      some { link with sent := link.sent ++ [.other frame], wire := link.wire ++ frame.write }
    else none
  | .arrive count =>
    if 0 < count ∧ count ≤ link.wire.length then
      let handled := handle (ReactiveBroker.toBroker application) (link.wire.take count) link.buffer
        link.broker
      some { link with
        wire := link.wire.drop count
        arrived := link.arrived + count
        buffer := handled.buffer
        broker := handled.state }
    else none
  | .peer action =>
    -- The calls of the responder are those of the bytes that arrive.
    if ReactiveBroker.isCall action then none
    else
      (ReactiveBroker.step application link.broker action).map fun next =>
        { link with broker := next }

/-- What the channel got, on top of what it had, is a part of what was scheduled. -/
def Delivered (codec : Value ≃ Uint8List) (index : ℕ) (had : List Value)
    (link : Link Value) : Prop :=
  ∃ delivered, payloadsOf index link.broker.calls = had ++ delivered ∧
    delivered <+: link.scheduled.map codec.symm

/-- The condition on a step: a frame fits its length, and a part that arrives does not end where the
responder does not notice it. -/
def Noticed (link : Link Value) : LinkAction Value → Prop
  | .write frame => frame.Fits
  | .arrive count => LinkFrame.EndsSafely streamId link.sent (link.arrived + count)
  | _ => True

instance (link : Link Value) (action : LinkAction Value) :
    Decidable (Noticed streamId link action) :=
  match action with
  | .write frame => inferInstanceAs (Decidable frame.Fits)
  | .arrive count =>
    inferInstanceAs (Decidable (LinkFrame.EndsSafely streamId link.sent (link.arrived + count)))
  | .requester _ | .peer _ => .isTrue trivial

end Code

end Link

/-! ## What a requester writes -/

namespace ReactiveRequester

variable {streamId : ℤ} {configuration : ReactiveChannelConfiguration}
  {requester next : ReactiveRequester} {action : RequesterAction}

/-- What is written stays written. -/
theorem grows_move (h : Move streamId configuration requester action next) :
    (∃ writes, next.written = requester.written ++ writes) ∧
      ∃ frames, next.handed = requester.handed ++ frames := by
  cases h with
  | request | cutBehind | last | flush => exact ⟨⟨_, rfl⟩, _, rfl⟩
  | cut | round =>
    rw [fragmentate_eq]
    exact ⟨⟨_, rfl⟩, _, rfl⟩
  | _ => exact ⟨⟨[], (append_nil _).symm⟩, [], (append_nil _).symm⟩

/-- The bytes of the writes of a step are those of its frames. -/
theorem exists_frames (hsound : Sound streamId requester)
    (hstep : step streamId configuration requester action = some next) :
    ∃ frames, next.handed = requester.handed ++ frames ∧
      (next.written.drop requester.written.length).flatMap ConnectionWrite.bytes =
        frames.flatMap (OutFrame.bytes streamId) := by
  obtain ⟨⟨writes, hwrites⟩, frames, hframes⟩ :=
    grows_move (step_move hsound.lifecycle.closing hstep)
  have hbefore := hsound.recorded.written
  have hafter := (sound_step hsound hstep).recorded.written
  rw [hwrites, hframes, flatMap_append, flatMap_append, hbefore] at hafter
  refine ⟨frames, hframes, ?_⟩
  rw [hwrites, drop_left]
  exact append_cancel_left hafter

end ReactiveRequester

/-! ## What the peer makes of it -/

/-- The channel of the stream is open, and has got what the frames make on top of what it had. -/
structure Hearing (codec : Value ≃ Uint8List) (streamId : ℤ) (index : ℕ) (had : List Value)
    (frames : List OutFrame) (broker : ReactiveBroker Value) : Prop where
  accepting : broker.accepting = true
  sending : broker.sending = true
  dataCodec : broker.dataCodec = some (.ofEquiv codec)
  objects : index < broker.objects.length
  mapped : broker.streams.get? (int32Field streamId) = some index
  only : ∀ id, broker.streams.get? id = some index → id = int32Field streamId
  payloads : payloadsOf index broker.calls =
    had ++ (Reassembly.ofFrames frames).payloads.map codec.symm
  fragments : ReactiveBroker.fragmentsOf index broker = (Reassembly.ofFrames frames).fragments

/-- The channel gets nothing more, and has got a part of what the frames make. -/
structure Over (codec : Value ≃ Uint8List) (index : ℕ) (had : List Value) (frames : List OutFrame)
    (broker : ReactiveBroker Value) : Prop where
  dataCodec : broker.dataCodec = some (.ofEquiv codec)
  objects : index < broker.objects.length
  deaf : ReactiveBroker.Deaf index broker
  delivered : ∃ delivered, payloadsOf index broker.calls = had ++ delivered ∧
    delivered <+: (Reassembly.ofFrames frames).payloads.map codec.symm

section Hearing

variable {application : Application Value} {codec : Value ≃ Uint8List} {streamId : ℤ} {index : ℕ}
  {had : List Value} {frames : List OutFrame} {broker next : ReactiveBroker Value} {limit : ℕ}

/-- More frames make more payloads. -/
theorem Over.append (h : Over codec index had frames broker) (more : List OutFrame) :
    Over codec index had (frames ++ more) broker := by
  obtain ⟨delivered, hdelivered, hprefix⟩ := h.delivered
  refine { h with delivered := ⟨delivered, hdelivered, hprefix.trans ?_⟩ }
  rw [Reassembly.ofFrames_append]
  exact (Reassembly.prefix_takeAll (Reassembly.ofFrames frames) more).map _

theorem Over.unheard (h : Over codec index had frames broker)
    (hunheard : ReactiveBroker.Unheard index broker next) : Over codec index had frames next := by
  obtain ⟨delivered, hdelivered, hprefix⟩ := h.delivered
  refine ⟨hunheard.dataCodec.trans h.dataCodec, h.objects.trans_le hunheard.objects,
    h.deaf.unheard hunheard, delivered, ?_, hprefix⟩
  rw [hunheard.payloads, append_nil, hdelivered]

/-- A call that the responder makes gives the channel nothing. -/
theorem Over.call (h : Over codec index had frames broker) {brokerCall : BrokerCall}
    {activated : Bool} (hopen : brokerCall.Open broker.accepting activated) :
    Over codec index had frames (stateOf (ReactiveBroker.call application brokerCall broker)) := by
  refine h.unheard (ReactiveBroker.unheard_call application h.objects
    (Option.isSome_iff_exists.mpr ⟨_, h.dataCodec⟩) ?_)
  rintro id payload completed follow rfl
  rcases h.deaf with hclosed | hnone
  · have hacc : broker.accepting = true := hopen
    rw [hclosed] at hacc
    cases hacc
  · exact hnone id

/-- The channel goes on hearing, unless its stream has left the map. -/
theorem Hearing.heard (h : Hearing codec streamId index had frames broker) {values : List Value}
    {fragments : List Uint8List}
    (hheard : ReactiveBroker.Heard index values fragments broker next) {frames' : List OutFrame}
    (hvals : (Reassembly.ofFrames frames').payloads.map codec.symm =
      (Reassembly.ofFrames frames).payloads.map codec.symm ++ values)
    (hfrags : fragments = (Reassembly.ofFrames frames').fragments) :
    Hearing codec streamId index had frames' next ∨ Over codec index had frames' next := by
  have hpayloads : payloadsOf index next.calls =
      had ++ (Reassembly.ofFrames frames').payloads.map codec.symm := by
    rw [hheard.payloads, h.payloads, hvals, append_assoc]
  have honly (id : ℤ) (hid : next.streams.get? id = some index) : id = int32Field streamId :=
    h.only id (hheard.streams id hid)
  have hcodec := hheard.dataCodec.trans h.dataCodec
  have hobjs := h.objects.trans_le hheard.objects
  by_cases hmap : next.streams.get? (int32Field streamId) = some index
  · exact .inl ⟨hheard.accepting.trans h.accepting, hheard.sending.trans h.sending, hcodec, hobjs,
      hmap, honly, hpayloads, hheard.fragments.trans hfrags⟩
  · exact .inr ⟨hcodec, hobjs, .inr fun id hid => hmap (honly id hid ▸ hid), _, hpayloads,
      prefix_refl _⟩

theorem Hearing.unheard (h : Hearing codec streamId index had frames broker)
    (hunheard : ReactiveBroker.Unheard index broker next) :
    Hearing codec streamId index had frames next ∨ Over codec index had frames next :=
  h.heard hunheard (append_nil _).symm h.fragments

/-- A frame of the stream is received. -/
theorem Hearing.receive (h : Hearing codec streamId index had frames broker) {data : Uint8List}
    {completed follow : Bool} (starts : Bool) (hfollow : follow = true → completed = false) :
    Hearing codec streamId index had (frames ++ [.payload data completed follow starts])
        (stateOf (ReactiveBroker.receive application (int32Field streamId) (.ofData data) completed
          (!completed && follow) broker)) ∨
      Over codec index had (frames ++ [.payload data completed follow starts])
        (stateOf (ReactiveBroker.receive application (int32Field streamId) (.ofData data) completed
          (!completed && follow) broker)) := by
  have hflags : (!completed && follow) = follow := by
    cases follow with
    | false => exact Bool.and_false _
    | true => rw [hfollow rfl]; rfl
  rw [hflags]
  -- What the frames mean goes on by one frame.
  have hmade : Reassembly.ofFrames (frames ++ [.payload data completed follow starts]) =
      (Reassembly.ofFrames frames).take (.payload data completed follow starts) := by
    rw [Reassembly.ofFrames_append]
    rfl
  refine h.heard (ReactiveBroker.heard_receive application h.dataCodec h.objects h.mapped data
    hfollow) ?_ ?_
  all_goals
    rw [hmade, h.fragments]
    unfold Reassembly.take
    by_cases hdata : data = []
    · simp [hdata]
    · cases follow <;> simp [hdata]

theorem fits_payload (hlimit : limit + 6 < 2 ^ 24) {data : Uint8List} (hdata : data.length ≤ limit)
    (streamId : ℤ) (completed follow : Bool) :
    (ReactiveFrame.payload streamId completed follow (some (.ofData data))).Fits := by
  have hbody : (ReactiveFrame.payload streamId completed follow (some (.ofData data))).body.length =
      data.length := by
    simp [ReactiveFrame.body, encodePayload, ReactivePayload.ofData]
  unfold ReactiveFrame.Fits
  omega

theorem fits_requestN (streamId count : ℤ) : (ReactiveFrame.requestN streamId count).Fits := by
  have hbody : (ReactiveFrame.requestN streamId count).body.length = 4 := by
    simp [ReactiveFrame.body]
  unfold ReactiveFrame.Fits
  omega

/-- A frame that is sent while the condition on the steps holds. -/
def LinkFrame.Proper (limit : ℕ) (streamId : ℤ) : LinkFrame → Prop
  | .own frame => ReactiveRequester.Plain limit frame
  | .other frame => frame.Besides streamId ∧ frame.Fits

/-- A frame, as the responder knows it, and the call that is made of it: this gives the channel what
the frame makes. -/
theorem exists_call_of_proper (application : Application Value) (codec : Value ≃ Uint8List)
    (index : ℕ) (had : List Value) (hlimit : limit + 6 < 2 ^ 24) {frame : LinkFrame}
    (hproper : frame.Proper limit streamId) :
    ∃ (sent : ReactiveFrame) (call : BrokerCall), frame.bytes streamId = sent.write ∧
      sent.call = some call ∧ sent.Fits ∧ sent.type ≠ reactiveFrameSetup ∧
      (∀ cut, frame.CutSafe cut → sent.CutSafe cut) ∧
      ∀ frames broker, Hearing codec streamId index had frames broker →
        Hearing codec streamId index had (frames ++ frame.own?.toList)
            (stateOf (ReactiveBroker.call application call broker)) ∨
          Over codec index had (frames ++ frame.own?.toList)
            (stateOf (ReactiveBroker.call application call broker)) := by
  cases frame with
  | own frame =>
    cases frame with
    | payload data completed follow starts =>
      obtain ⟨hdata, hfollow⟩ := hproper
      have htype : reactiveFramePayload ≠ reactiveFrameSetup := by decide
      exact ⟨.payload streamId completed follow (some (.ofData data)),
        .receive (int32Field streamId) (.ofData data) completed (!completed && follow), rfl, rfl,
        fits_payload hlimit hdata streamId completed follow, htype, fun _ _ => trivial,
        fun _ _ h => h.receive starts hfollow⟩
    | other bytes =>
      obtain ⟨otherId, count, hbytes⟩ := hproper
      have htype : reactiveFrameRequestN ≠ reactiveFrameSetup := by decide
      refine ⟨.requestN otherId count, .request (int32Field otherId) (int32Field count),
        hbytes, rfl,
        fits_requestN otherId count, htype, fun _ _ => trivial, fun frames broker h => ?_⟩
      -- The peer makes no payload of a REQUEST_N frame.
      have hmade : Reassembly.ofFrames (frames ++ [.other bytes]) = Reassembly.ofFrames frames := by
        rw [Reassembly.ofFrames_append]
        rfl
      refine h.heard (ReactiveBroker.unheard_request application index _ _ broker) ?_ ?_
      · exact hmade.symm ▸ (append_nil _).symm
      · exact hmade.symm ▸ h.fragments
  | other frame =>
    obtain ⟨hbesides, hfits⟩ := hproper
    obtain ⟨call, hcall⟩ : ∃ call, frame.call = some call := by
      cases frame with
      | setup => exact hbesides.elim
      | _ => exact ⟨_, rfl⟩
    refine ⟨frame, call, rfl, hcall, hfits, hbesides.type_ne_setup, fun _ => id,
      fun frames broker h => ?_⟩
    rw [show LinkFrame.own? (.other frame) = none from rfl, Option.toList_none, append_nil]
    refine h.unheard (ReactiveBroker.unheard_call application h.objects
      (Option.isSome_iff_exists.mpr ⟨_, h.dataCodec⟩) ?_)
    -- A PAYLOAD frame is one of another stream.
    rintro id payload completed follow rfl hid
    cases frame with
    | payload otherId =>
      cases hcall
      exact hbesides (Int.ofNat.inj (h.only _ hid))
    | setup => exact hbesides.elim
    | _ => cases hcall

/-- How a call of `handle` ends: it took some of the frames, and left the rest in the buffer and on
the wire, or the channel gets nothing more. -/
def Taken (codec : Value ≃ Uint8List) (streamId : ℤ) (index : ℕ) (had : List Value)
    (frames : List OutFrame) (left : List LinkFrame) (part rest : Uint8List)
    (handled : Handled (ReactiveBroker Value)) : Prop :=
  ∃ taken left', left = taken ++ left' ∧
    (Over codec index had (frames ++ taken.filterMap LinkFrame.own?) handled.state ∨
      ∃ pre' part' checkpoint', handled.buffer = cursor pre' part' checkpoint' ∧
        part' ++ rest = left'.flatMap (LinkFrame.bytes streamId) ∧
        (taken.flatMap (LinkFrame.bytes streamId)).length + part'.length = part.length ∧
        Hearing codec streamId index had (frames ++ taken.filterMap LinkFrame.own?) handled.state)

variable {left : List LinkFrame} {part rest : Uint8List} {handled : Handled (ReactiveBroker Value)}

/-- The call ends, and takes no frame. -/
theorem Hearing.stay (h : Hearing codec streamId index had frames broker) {pre : Uint8List}
    {checkpoint : ℕ} (hbytes : part ++ rest = left.flatMap (LinkFrame.bytes streamId))
    (hbuf : handled.buffer = cursor pre part checkpoint) (hstate : handled.state = broker) :
    Taken codec streamId index had frames left part rest handled := by
  refine ⟨[], left, rfl, .inr ⟨pre, part, checkpoint, hbuf, hbytes, Nat.zero_add _, ?_⟩⟩
  rw [hstate, filterMap_nil, append_nil]
  exact h

/-- A call that takes the first frame, and goes on. -/
theorem Taken.cons {frame : LinkFrame}
    (h : Taken codec streamId index had (frames ++ frame.own?.toList) left part rest handled) :
    Taken codec streamId index had frames (frame :: left) (frame.bytes streamId ++ part) rest
      handled := by
  obtain ⟨taken, left', rfl, hends⟩ := h
  have hframes : frames ++ (frame :: taken).filterMap LinkFrame.own? =
      frames ++ frame.own?.toList ++ taken.filterMap LinkFrame.own? := by
    cases frame with
    | own frame => rw [filterMap_cons, append_assoc]; rfl
    | other frame => rw [filterMap_cons_none rfl, append_assoc]; rfl
  refine ⟨frame :: taken, left', rfl, ?_⟩
  rw [hframes]
  refine hends.imp_right ?_
  rintro ⟨pre', part', checkpoint', hbuf, hbytes, hlen, hhearing⟩
  refine ⟨pre', part', checkpoint', hbuf, hbytes, ?_, hhearing⟩
  rw [flatMap_cons, length_append, length_append]
  omega

/-- The loop takes the frames one by one, up to one that is cut short. -/
theorem Hearing.handleLoop (application : Application Value) (hlimit : limit + 6 < 2 ^ 24)
    (rounds : ℕ) (hleft : ∀ frame ∈ left, frame.Proper limit streamId)
    (hbytes : part ++ rest = left.flatMap (LinkFrame.bytes streamId))
    (hsafe : LinkFrame.EndsSafely streamId left part.length)
    (h : Hearing codec streamId index had frames broker) (pre : Uint8List) (checkpoint : ℕ) :
    Taken codec streamId index had frames left part rest
      (ReactiveResponder.handleLoop (ReactiveBroker.toBroker application) rounds
        (cursor pre part checkpoint) broker) := by
  induction rounds generalizing left part frames broker pre checkpoint with
  | zero => exact h.stay hbytes rfl rfl
  | succ rounds ih =>
    rw [ReactiveResponder.handleLoop, isReadable_cursor]
    by_cases hpart : part = []
    · subst hpart
      exact h.stay hbytes (reset_cursor pre [] checkpoint) rfl
    have hreadable : (!part.isEmpty && (ReactiveBroker.toBroker application).sending broker) =
        true := by
      have hsend : (ReactiveBroker.toBroker application).sending broker = true := h.sending
      rw [hsend]
      simp [hpart]
    rw [if_pos hreadable]
    cases left with
    | nil => exact absurd (append_eq_nil_iff.mp hbytes).1 hpart
    | cons frame left =>
      obtain ⟨sent, call, hsent, hcall, hfits, hother, hcut, hmakes⟩ :=
        exists_call_of_proper application codec index had hlimit (hleft frame mem_cons_self)
      have hact (hsetup : sent.type = reactiveFrameSetup) :
          (ReactiveBroker.toBroker application).activated broker = false := absurd hsetup hother
      have hbytes' := hbytes
      rw [flatMap_cons, hsent] at hbytes
      rcases le_or_gt sent.write.length part.length with hcomplete | hshort
      · -- The frame is complete, and its call is made: it has come, even if the call throws.
        obtain ⟨part, rfl, hrest⟩ := exists_append_of_length_le hbytes.symm hcomplete
        have hmade := hmakes frames broker h
        have hsafe := hsafe.2
        rw [hsent, length_append, Nat.add_sub_cancel_left] at hsafe
        rw [← hsent]
        refine Taken.cons ?_
        cases hcalled : (ReactiveBroker.toBroker application).call call broker with
        | ok _ next =>
          rw [show ReactiveBroker.call application call broker = .ok _ next from hcalled,
            stateOf_ok] at hmade
          rw [hsent, ReactiveFrame.turn_of_returns pre checkpoint hcall hfits h.accepting hact
            hcalled]
          rcases hmade with hhearing | hover
          · exact ih (fun frame hmem => hleft frame (mem_cons_of_mem _ hmem)) hrest.symm hsafe
              hhearing [] pre.length
          · refine ⟨[], left, rfl, .inl ?_⟩
            rw [filterMap_nil, append_nil]
            exact handleLoop_invariant (ReactiveBroker.toBroker application)
              (Over codec index had (frames ++ frame.own?.toList)) (fun _ _ hopen h => h.call hopen)
              rounds hover
        | error e next =>
          rw [show ReactiveBroker.call application call broker = .error e next from hcalled,
            stateOf_error] at hmade
          rw [hsent, ReactiveFrame.turn_of_call_throws pre checkpoint hcall hfits h.accepting
            hact hcalled]
          rcases hmade with hhearing | hover
          · exact hhearing.stay hrest.symm rfl rfl
          · refine ⟨[], left, rfl, .inl ?_⟩
            rw [filterMap_nil, append_nil]
            exact hover
      · -- The responder waits for the rest of the frame.
        obtain ⟨missing, hframe, -⟩ := exists_append_of_length_le hbytes hshort.le
        have hmissing : missing ≠ [] := by
          rintro rfl
          rw [hframe, append_nil] at hshort
          exact hshort.false
        rw [ReactiveFrame.turn_of_safe _ _ hfits h.accepting hframe hmissing (hcut _ hsafe.1)]
        exact h.stay hbytes' rfl rfl

/-- A call of `handle`: the bytes that arrive stand behind those that the buffer keeps. -/
theorem Hearing.handle (application : Application Value) (hlimit : limit + 6 < 2 ^ 24)
    (hleft : ∀ frame ∈ left, frame.Proper limit streamId) {arrived : Uint8List}
    (hbytes : part ++ (arrived ++ rest) = left.flatMap (LinkFrame.bytes streamId))
    (hsafe : LinkFrame.EndsSafely streamId left (part.length + arrived.length))
    (h : Hearing codec streamId index had frames broker) (pre : Uint8List) (checkpoint : ℕ) :
    Taken codec streamId index had frames left (part ++ arrived) rest
      (ReactiveResponder.handle (ReactiveBroker.toBroker application) arrived
        (cursor pre part checkpoint) broker) := by
  have hsend : (ReactiveBroker.toBroker application).sending broker = true := h.sending
  rw [ReactiveResponder.handle, if_pos hsend, extend_cursor, loop]
  rw [← append_assoc] at hbytes
  rw [← length_append] at hsafe
  exact h.handleLoop application hlimit _ hleft hbytes hsafe pre checkpoint

end Hearing

/-! ## Runs -/

/-- An application with one channel, whose payloads are bytes. -/
def Application.bytes : Application Uint8List where
  codecs _ := some (.ofEquiv (.refl _))
  leaseConfiguration := none
  staticBuffersCapacity := 4
  routing _ := []
  method _ := .ok []
  callback _ := ([], none)
  onError _ _ := none
  describe _ := []

namespace ReactiveBroker

/-- The stream is in the map, and none of its payloads is half received. -/
structure Established (codec : Value ≃ Uint8List) (streamId : ℤ) (index : ℕ)
    (broker : ReactiveBroker Value) : Prop where
  accepting : broker.accepting = true
  sending : broker.sending = true
  dataCodec : broker.dataCodec = some (.ofEquiv codec)
  objects : index < broker.objects.length
  mapped : broker.streams.get? (int32Field streamId) = some index
  only : ∀ id, broker.streams.get? id = some index → id = int32Field streamId
  fragments : fragmentsOf index broker = []

/-- A peer with an open stream 1. -/
def listening : ReactiveBroker Uint8List :=
  (run (step .bytes) (new .server 2 0) [.consume [] ⟨1, 4, 2, 2⟩,
    .call (.setup [] [] 0 0 false), .call (.initiate 1 1 .empty)]).getD (new .server 2 0)

theorem established_listening : listening.Established (.refl Uint8List) 1 0 := by
  refine ⟨rfl, rfl, rfl, by decide, rfl, fun id hid => ?_, rfl⟩
  have hmem : (id, 0) ∈ [((1 : ℤ), 0)] := (DartMap.get?_eq_some _ _).mp hid
  exact (Prod.mk.inj (mem_singleton.mp hmem)).1

theorem Established.hearing {codec : Value ≃ Uint8List} {streamId : ℤ} {index : ℕ}
    {broker : ReactiveBroker Value} (h : Established codec streamId index broker) :
    Hearing codec streamId index (payloadsOf index broker.calls) [] broker :=
  ⟨h.accepting, h.sending, h.dataCodec, h.objects, h.mapped, h.only, (append_nil _).symm,
    h.fragments⟩

end ReactiveBroker

namespace Link

variable {application : Application Value} {codec : Value ≃ Uint8List} {streamId : ℤ} {index : ℕ}
  {configuration : ReactiveChannelConfiguration} {had : List Value} {link next : Link Value}

/-- What was scheduled is on its way: the frames that were sent are those that the peer took and
those whose bytes are in its buffer and on the wire, unless its channel gets nothing more. -/
structure Delivering (codec : Value ≃ Uint8List) (streamId : ℤ) (index : ℕ)
    (configuration : ReactiveChannelConfiguration) (had : List Value) (link : Link Value) :
      Prop where
  sound : ReactiveRequester.Sound streamId link.requester
  delivers : ReactiveRequester.Delivers link.scheduled link.requester
  plain : ReactiveRequester.PlainFrames configuration.frameMaxSize link.requester
  handed : link.sent.filterMap LinkFrame.own? = link.requester.handed
  others : ∀ frame, .other frame ∈ link.sent → frame.Besides streamId ∧ frame.Fits
  transit : Over codec index had link.requester.handed link.broker ∨
    ∃ taken left pre part checkpoint, link.sent = taken ++ left ∧
      link.buffer = cursor pre part checkpoint ∧
      part ++ link.wire = left.flatMap (LinkFrame.bytes streamId) ∧
      (taken.flatMap (LinkFrame.bytes streamId)).length + part.length = link.arrived ∧
      Hearing codec streamId index had (taken.filterMap LinkFrame.own?) link.broker

variable {broker : ReactiveBroker Value}

theorem delivering_create (configuration : ReactiveChannelConfiguration) (chunkSize : ℕ)
    (h : broker.Established codec streamId index) :
    Delivering codec streamId index configuration (payloadsOf index broker.calls)
      (create (ReactiveRequester.new chunkSize) broker) where
  sound := ReactiveRequester.sound_new chunkSize
  delivers := ReactiveRequester.delivers_new chunkSize
  plain := ⟨nofun, nofun⟩
  handed := rfl
  others := nofun
  transit := .inr ⟨[], [], [], [], 0, rfl, new_eq_cursor, rfl, rfl, h.hearing⟩

theorem Delivering.proper (h : Delivering codec streamId index configuration had link)
    (frame : LinkFrame) (hmem : frame ∈ link.sent) :
    frame.Proper configuration.frameMaxSize streamId := by
  cases frame with
  | own frame =>
    refine h.plain.frames frame (mem_append_left _ ?_)
    rw [← h.handed]
    exact mem_filterMap.mpr ⟨_, hmem, rfl⟩
  | other frame => exact h.others frame hmem

/-- More is sent. -/
theorem Delivering.transit_send (h : Delivering codec streamId index configuration had link)
    (frames : List LinkFrame) :
    Over codec index had (link.requester.handed ++ frames.filterMap LinkFrame.own?) link.broker ∨
      ∃ taken left pre part checkpoint, link.sent ++ frames = taken ++ left ∧
        link.buffer = cursor pre part checkpoint ∧
        part ++ (link.wire ++ frames.flatMap (LinkFrame.bytes streamId)) =
          left.flatMap (LinkFrame.bytes streamId) ∧
        (taken.flatMap (LinkFrame.bytes streamId)).length + part.length = link.arrived ∧
        Hearing codec streamId index had (taken.filterMap LinkFrame.own?) link.broker := by
  refine h.transit.imp (fun hover => hover.append _) ?_
  rintro ⟨taken, left, pre, part, checkpoint, hsent, hbuf, hbytes, harrived, hhearing⟩
  refine ⟨taken, left ++ frames, pre, part, checkpoint, ?_, hbuf, ?_, harrived, hhearing⟩
  · rw [hsent, append_assoc]
  · rw [← append_assoc, hbytes, flatMap_append]

/-- A step of the requester. -/
theorem delivering_requester (hsize : configuration.fragmentSize ≤ configuration.frameMaxSize)
    (h : Delivering codec streamId index configuration had link) {action : RequesterAction}
    (hstep : step application streamId configuration link (.requester action) = some next) :
    Delivering codec streamId index configuration had next := by
  obtain ⟨hsends, hstep⟩ := Option.ite_none_right_eq_some.mp hstep
  obtain ⟨requester, hreq, rfl⟩ := Option.map_eq_some_iff.mp hstep
  obtain ⟨frames, hhand, hwritten⟩ := ReactiveRequester.exists_frames h.sound hreq
  have hown : (frames.map LinkFrame.own).filterMap LinkFrame.own? = frames := by
    rw [filterMap_map]
    exact filterMap_some
  have hframes : (frames.map LinkFrame.own).flatMap (LinkFrame.bytes streamId) =
      frames.flatMap (OutFrame.bytes streamId) := flatMap_map ..
  have htransit := h.transit_send (frames.map .own)
  rw [hown, ← hhand, hframes, ← hwritten] at htransit
  have hdrop : requester.handed.drop link.requester.handed.length = frames := by
    rw [hhand, drop_left]
  refine ⟨ReactiveRequester.sound_step h.sound hreq,
    ReactiveRequester.delivers_step h.sound h.delivers hsends hreq,
    ReactiveRequester.plainFrames_step h.sound h.delivers hsize h.plain hsends hreq, ?_, ?_, ?_⟩
  · rw [hdrop, filterMap_append, h.handed, hown, ← hhand]
  · rw [hdrop]
    intro frame hmem
    rcases mem_append.mp hmem with hmem | hmem
    · exact h.others frame hmem
    · obtain ⟨_, -, hother⟩ := mem_map.mp hmem
      cases hother
  · rw [hdrop]
    exact htransit

/-- Another frame is written. -/
theorem delivering_write (h : Delivering codec streamId index configuration had link)
    {frame : ReactiveFrame} (hfits : frame.Fits)
    (hstep : step application streamId configuration link (.write frame) = some next) :
    Delivering codec streamId index configuration had next := by
  obtain ⟨hbesides, hstep⟩ := Option.ite_none_right_eq_some.mp hstep
  cases hstep
  have htransit := h.transit_send [.other frame]
  rw [show [LinkFrame.other frame].filterMap LinkFrame.own? = [] from rfl, append_nil,
    flatMap_cons, flatMap_nil, append_nil] at htransit
  refine ⟨h.sound, h.delivers, h.plain, ?_, fun other hmem => ?_, htransit⟩
  · rw [filterMap_append, h.handed]
    exact append_nil _
  · rcases mem_append.mp hmem with hmem | hmem
    · exact h.others other hmem
    · cases mem_singleton.mp hmem
      exact ⟨hbesides, hfits⟩

/-- Bytes arrive. -/
theorem delivering_arrive (hlimit : configuration.frameMaxSize + 6 < 2 ^ 24)
    (h : Delivering codec streamId index configuration had link) {count : ℕ}
    (hnoticed : LinkFrame.EndsSafely streamId link.sent (link.arrived + count))
    (hstep : step application streamId configuration link (.arrive count) = some next) :
    Delivering codec streamId index configuration had next := by
  obtain ⟨⟨-, hcount⟩, hstep⟩ := Option.ite_none_right_eq_some.mp hstep
  cases hstep
  refine ⟨h.sound, h.delivers, h.plain, h.handed, h.others, ?_⟩
  rcases h.transit with hover | ⟨taken, left, pre, part, checkpoint, hsent, hbuf, hbytes,
    harrived, hhearing⟩
  · exact .inl (handle_invariant (ReactiveBroker.toBroker application)
      (Over codec index had link.requester.handed) (fun _ _ hopen h => h.call hopen) hover)
  have hproper (frame : LinkFrame) (hmem : frame ∈ left) :
      frame.Proper configuration.frameMaxSize streamId :=
    h.proper frame (hsent ▸ mem_append_right _ hmem)
  have hlen : (link.wire.take count).length = count := length_take_of_le hcount
  have hsafe :
      LinkFrame.EndsSafely streamId left (part.length + (link.wire.take count).length) := by
    rw [hsent] at hnoticed
    have hleft := LinkFrame.endsSafely_append hnoticed
    rw [← harrived, Nat.add_assoc, Nat.add_sub_cancel_left] at hleft
    rwa [hlen]
  rw [← take_append_drop count link.wire] at hbytes
  obtain ⟨more, left', rfl, hends⟩ :=
    hhearing.handle application hlimit hproper hbytes hsafe pre checkpoint
  rw [← filterMap_append, ← hbuf] at hends
  rcases hends with hover | ⟨pre', part', checkpoint', hbuf', hbytes', hpart, hhearing⟩
  · refine .inl ?_
    have hall := hover.append (left'.filterMap LinkFrame.own?)
    rwa [← filterMap_append, append_assoc, ← hsent, h.handed] at hall
  · refine .inr ⟨taken ++ more, left', pre', part', checkpoint', ?_, hbuf', hbytes', ?_, hhearing⟩
    · dsimp only
      rw [hsent, append_assoc]
    · dsimp only
      rw [length_append, hlen] at hpart
      rw [flatMap_append, length_append]
      omega

/-- Something else happens to the peer. -/
theorem delivering_peer (h : Delivering codec streamId index configuration had link)
    {action : BrokerAction Value} (hown : ReactiveBroker.isCall action = false)
    (hstep : ReactiveBroker.step application link.broker action = some broker) :
    Delivering codec streamId index configuration had { link with broker := broker } := by
  refine ⟨h.sound, h.delivers, h.plain, h.handed, h.others, ?_⟩
  rcases h.transit with hover | ⟨taken, left, pre, part, checkpoint, hsent, hbuf, hbytes,
    harrived, hhearing⟩
  · left
    rcases ReactiveBroker.unheard_or_deaf_of_step index
      (Option.isSome_iff_exists.mpr ⟨_, hover.dataCodec⟩) hown hstep with
      hunheard | ⟨hdeaf, hcodec, hobjs, hpayloads⟩
    · exact hover.unheard hunheard
    · exact ⟨hcodec.trans hover.dataCodec, hover.objects.trans_le hobjs, hdeaf,
        hpayloads ▸ hover.delivered⟩
  · have hall : taken.filterMap LinkFrame.own? ++ left.filterMap LinkFrame.own? =
        link.requester.handed := by rw [← filterMap_append, ← hsent, h.handed]
    have hends : Hearing codec streamId index had (taken.filterMap LinkFrame.own?) broker ∨
        Over codec index had (taken.filterMap LinkFrame.own?) broker := by
      rcases ReactiveBroker.unheard_or_deaf_of_step index
        (Option.isSome_iff_exists.mpr ⟨_, hhearing.dataCodec⟩) hown hstep with
        hunheard | ⟨hdeaf, hcodec, hobjs, hpayloads⟩
      · exact hhearing.unheard hunheard
      · exact .inr ⟨hcodec.trans hhearing.dataCodec, hhearing.objects.trans_le hobjs, hdeaf, _,
          hpayloads.trans hhearing.payloads, prefix_refl _⟩
    rcases hends with hhearing | hover
    · exact .inr ⟨taken, left, pre, part, checkpoint, hsent, hbuf, hbytes, harrived, hhearing⟩
    · exact .inl (hall ▸ hover.append _)

theorem delivering_step (hlimit : configuration.frameMaxSize + 6 < 2 ^ 24)
    (hsize : configuration.fragmentSize ≤ configuration.frameMaxSize)
    (h : Delivering codec streamId index configuration had link) {action : LinkAction Value}
    (hnoticed : Noticed streamId link action)
    (hstep : step application streamId configuration link action = some next) :
    Delivering codec streamId index configuration had next := by
  cases action with
  | requester action => exact delivering_requester hsize h hstep
  | write frame => exact delivering_write h hnoticed hstep
  | arrive count => exact delivering_arrive hlimit h hnoticed hstep
  | peer action =>
    obtain ⟨hown, hstep⟩ := Option.ite_none_left_eq_some.mp hstep
    obtain ⟨broker, hbroker, rfl⟩ := Option.map_eq_some_iff.mp hstep
    exact delivering_peer h (Bool.eq_false_iff.mpr hown) hbroker

theorem Delivering.delivered (h : Delivering codec streamId index configuration had link) :
    Delivered codec index had link := by
  have hmade : (Reassembly.ofFrames link.requester.handed).payloads.map codec.symm <+:
      link.scheduled.map codec.symm :=
    (((prefix_append _ _).trans (prefix_append _ _)).trans h.delivers.made).map _
  rcases h.transit with hover | ⟨taken, left, pre, part, checkpoint, hsent, -, -, -, hhearing⟩
  · obtain ⟨delivered, hdelivered, hprefix⟩ := hover.delivered
    exact ⟨delivered, hdelivered, hprefix.trans hmade⟩
  · refine ⟨_, hhearing.payloads, .trans ?_ hmade⟩
    rw [← h.handed, hsent, filterMap_append, Reassembly.ofFrames_append]
    exact (Reassembly.prefix_takeAll _ _).map _

/-- **The channel of the peer gets a part of the payloads that were scheduled**, in their order and
without a change, at every moment: whatever else is on the connection and happens to the peer, the
grants, the order in which writes are done, and the parts in which the bytes arrive, if none of them
ends inside the payload of a REQUEST_CHANNEL frame. -/
theorem delivered_prefix (hlimit : configuration.frameMaxSize + 6 < 2 ^ 24)
    (hsize : configuration.fragmentSize ≤ configuration.frameMaxSize) (chunkSize : ℕ)
    {broker : ReactiveBroker Value} (hbroker : broker.Established codec streamId index)
    {actions : List (LinkAction Value)}
    (hnoticed : Along (step application streamId configuration) (Noticed streamId)
      (create (ReactiveRequester.new chunkSize) broker) actions)
    (hrun : run (step application streamId configuration)
      (create (ReactiveRequester.new chunkSize) broker) actions = some link) :
    Delivered codec index (payloadsOf index broker.calls) link := by
  have hdelivering : Delivering codec streamId index configuration (payloadsOf index broker.calls)
      link :=
    run_induction
      (fun _ => Delivering codec streamId index configuration (payloadsOf index broker.calls))
      (fun _ _ _ _ h hnoticed hstep => delivering_step hlimit hsize h hnoticed hstep)
      (delivering_create configuration chunkSize hbroker) hnoticed hrun
  exact hdelivering.delivered

/-- A payload of six bytes is cut into three frames behind a REQUEST_CHANNEL frame of stream 3, and
these arrive in two parts. -/
theorem delivered_prefix_cut : ∃ link,
    run (step .bytes 1 ⟨1, 4, 2, 2⟩) (create (.new 4) .listening)
      [.requester (.schedulePayload [1, 2, 3, 4, 5, 6] false), .requester (.resume 1),
        .write (.requestChannel 3 1 ⟨[9], []⟩), .requester .deliver, .arrive 20, .peer (.tick 1),
        .requester (.done 0), .arrive 30] = some link ∧
    payloadsOf 0 link.broker.calls = [[1, 2, 3, 4, 5, 6]] ∧
    Delivered (.refl Uint8List) 0 (payloadsOf 0 ReactiveBroker.listening.calls) link := by
  have hpayloads : (run (step .bytes 1 ⟨1, 4, 2, 2⟩) (create (.new 4) .listening)
      [.requester (.schedulePayload [1, 2, 3, 4, 5, 6] false), .requester (.resume 1),
        .write (.requestChannel 3 1 ⟨[9], []⟩), .requester .deliver, .arrive 20, .peer (.tick 1),
        .requester (.done 0), .arrive 30]).map (fun link => payloadsOf 0 link.broker.calls) =
      some [[1, 2, 3, 4, 5, 6]] := by
    decide +kernel
  obtain ⟨link, hrun, hpayloads⟩ := Option.map_eq_some_iff.mp hpayloads
  exact ⟨link, hrun, hpayloads, delivered_prefix (by decide) (by decide) 4
    ReactiveBroker.established_listening (by decide +kernel) hrun⟩

/-- The metadata of a REQUEST_CHANNEL frame of stream 3 are the bytes of a PAYLOAD frame of stream
1, and a part ends in front of their last six: what is left is taken for that frame, and the channel
of stream 1 gets a payload that nobody scheduled. -/
theorem not_delivered_prefix : ReactiveBroker.listening.Established (.refl Uint8List) 1 0 ∧ ∃ link,
    run (step .bytes 1 ⟨1, 4, 2, 2⟩) (create (.new 4) .listening)
      [.write (.requestChannel 3 1 ⟨[0, 0, 7, 0, 0, 0, 1, 40, 0, 9], []⟩), .arrive 20, .arrive 6] =
        some link ∧
    ¬Delivered (.refl Uint8List) 0 (payloadsOf 0 ReactiveBroker.listening.calls) link := by
  have hpayloads : (run (step .bytes 1 ⟨1, 4, 2, 2⟩) (create (.new 4) .listening)
      [.write (.requestChannel 3 1 ⟨[0, 0, 7, 0, 0, 0, 1, 40, 0, 9], []⟩), .arrive 20,
        .arrive 6]).map (fun link => (payloadsOf 0 link.broker.calls, link.scheduled)) =
      some ([[9]], []) := by
    decide +kernel
  obtain ⟨link, hrun, hlink⟩ := Option.map_eq_some_iff.mp hpayloads
  obtain ⟨hpayloads, hsched⟩ := Prod.mk.inj hlink
  refine ⟨ReactiveBroker.established_listening, link, hrun, ?_⟩
  rintro ⟨delivered, hdelivered, hprefix⟩
  rw [hsched, map_nil, prefix_nil] at hprefix
  rw [hpayloads, hprefix, append_nil] at hdelivered
  have hnone : payloadsOf 0 ReactiveBroker.listening.calls = [] := rfl
  rw [hnone] at hdelivered
  cases hdelivered

end Link

end FengShui.Reactive
