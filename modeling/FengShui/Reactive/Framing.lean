import FengShui.Reactive.WriterFrame

/-!
# The framing law of the responder

A round of the loop that handles a complete frame should leave the reader behind that frame, for
every state of the broker and whatever follows. `framingLaw_iff` says for which frames and states it
does. Three kinds of frames break the law. A frame of an unknown type is skipped by its length
without the whole header, though the length field is not part of the length, so three bytes of it
are left (`readNext_unknownFrame`). A frame that the broker is not to see is skipped by its header
only (`readBody_ignored`). A SETUP frame whose mime types are announced with a length other than
that of their bytes, or are empty, is misread or refused (`readSetup`).
-/

namespace FengShui.Reactive

open ByteString ReactiveReadBuffer ReactiveWriteBuffer ReactiveReader ReactiveResponder List

/-- The types that the responder handles. -/
def knownTypes : List ℕ :=
  [reactiveFrameSetup, reactiveFrameLease, reactiveFrameKeepalive, reactiveFrameRequestN,
    reactiveFrameRequestChannel, reactiveFramePayload, reactiveFrameCancel, reactiveFrameError]

/-- A frame of another type, with any body. -/
structure UnknownFrame where
  streamId : ℤ
  typeByte : UInt8
  flags : UInt8
  body : Uint8List
  type_not_known : typeByte.toNat >>> 2 ∉ knownTypes
  fits : body.length + 6 < 2 ^ 24

def UnknownFrame.bytes (frame : UnknownFrame) : Uint8List :=
  toBytesBE 3 (frame.body.length + 6) ++ int32ToBytes frame.streamId ++
    [frame.typeByte, frame.flags] ++ frame.body

/-- A frame that is complete: its length field is the length of what follows it. -/
inductive CompleteFrame where
  | written (frame : ReactiveFrame) (fits : frame.Fits)
  | unknown (frame : UnknownFrame)

def CompleteFrame.bytes : CompleteFrame → Uint8List
  | .written frame _ => frame.write
  | .unknown frame => frame.bytes

/-- The buffer that a round leaves for the next one, none when the round waits or its reader
throws. -/
def ReactiveResponder.Turn.advanced? {σ : Type} : Turn σ → Option ReactiveReadBuffer
  | .next buffer _ => some buffer
  | .callThrew _ buffer _ => some buffer
  | .wait _ => none
  | .readThrew _ _ => none

/-- A round in front of the frame leaves exactly what follows the frame. -/
def FramingLaw {σ : Type} (broker : Broker σ) (state : σ) (frame : CompleteFrame) : Prop :=
  ∀ pre rest checkpoint,
    (turn broker (cursor pre (frame.bytes ++ rest) checkpoint) state).advanced?.map unread =
      some rest

/-- What the responder needs of a frame to keep in step: a SETUP or REQUEST_CHANNEL frame, or a
PAYLOAD frame with a payload, is not one to be ignored, a SETUP frame has readable mime types, and a
frame of an unknown type has no body. -/
def CompleteFrame.Framed (accepting activated : Bool) : CompleteFrame → Prop
  | .written (.setup _ _ metadataMimeType dataMimeType _ content) _ =>
    accepting ∧ activated = false ∧
      (readSetup (metadataBit content == 1)
        (setupVariable metadataMimeType dataMimeType content)).isSome
  | .written (.requestChannel ..) _ => accepting
  | .written (.payload _ _ _ content) _ => accepting ∨ encodePayload (content.getD .empty) = []
  | .written (.lease ..) _ | .written (.keepAlive ..) _ | .written (.requestN ..) _
  | .written (.cancel ..) _ | .written (.error ..) _ => True
  | .unknown frame => frame.body = []

section Round

variable {σ : Type} {broker : Broker σ} {state : σ}

/-- The law is about what `readNext` takes: the rest of a round does not move the reader. -/
theorem framingLaw_iff_readNext {frame : CompleteFrame} :
    FramingLaw broker state frame ↔ ∀ pre rest, ∃ next,
      readNext (broker.accepting state) (broker.activated state)
          (cursor pre (frame.bytes ++ rest) pre.length) =
        .ok next (cursor (pre ++ frame.bytes) rest pre.length) ∧ next ≠ .incomplete := by
  constructor
  · intro h pre rest
    have h := h pre rest pre.length
    obtain ⟨taken, left, hsplit, ⟨next, hread, -⟩ | ⟨e, hread⟩⟩ := readNext_cursor
      (broker.accepting state) (broker.activated state) pre (frame.bytes ++ rest) pre.length
    · rw [turn, save_cursor, hread] at h
      -- The turn advances behind the frame, whatever the call does.
      have hleft : left = rest ∧ next ≠ .incomplete := by
        cases next with
        | frame call =>
          simp only at h
          cases hcall : broker.call call state with
          | ok => simpa [hcall, Turn.advanced?] using h
          | error => simpa [hcall, Turn.advanced?] using h
        | unknown => simpa [Turn.advanced?] using h
        | ignored => simpa [Turn.advanced?] using h
        | incomplete => cases h
      obtain ⟨rfl, hnext⟩ := hleft
      rw [append_cancel_right hsplit] at hread ⊢
      exact ⟨next, hread, hnext⟩
    · rw [turn, save_cursor, hread] at h
      cases h
  · intro h pre rest checkpoint
    obtain ⟨next, hread, hnext⟩ := h pre rest
    rw [turn, save_cursor, hread]
    cases next with
    | frame call =>
      simp only
      cases broker.call call state with
      | ok => simp [Turn.advanced?]
      | error => simp [Turn.advanced?]
    | unknown => simp [Turn.advanced?]
    | ignored => simp [Turn.advanced?]
    | incomplete => exact absurd rfl hnext

variable {frame : ReactiveFrame}

/-- For a frame of the writer, the law is about its body. -/
theorem framingLaw_written {fits : frame.Fits} :
    FramingLaw broker state (.written frame fits) ↔ ∀ pre rest, ∃ next,
      readBody (broker.accepting state) (broker.activated state) frame.header
          (cursor (pre ++ frame.head) (frame.body ++ rest) pre.length) =
        .ok next (cursor (pre ++ frame.head ++ frame.body) rest pre.length) ∧
      next ≠ .incomplete := by
  rw [framingLaw_iff_readNext]
  simp only [CompleteFrame.bytes, ReactiveFrame.readNext_write fits]
  simp only [frame.write_eq, append_assoc]

/-- A frame whose call is made keeps the responder in step. -/
theorem framingLaw_of_call {fits : frame.Fits} {call : BrokerCall}
    (hcall : frame.call = some call)
    (hbody : readBody (broker.accepting state) (broker.activated state) frame.header =
      readBody true (broker.activated state) frame.header)
    (hact : frame.type = reactiveFrameSetup → broker.activated state = false) :
    FramingLaw broker state (.written frame fits) := by
  rw [framingLaw_written]
  intro pre rest
  rw [hbody]
  exact ⟨.frame call, ReactiveFrame.readBody_call _ _ _ hcall fits hact, by simp⟩

/-- A frame that is ignored keeps the responder in step only when it has no body. -/
theorem framingLaw_ignored (fits : frame.Fits)
    (hbody : readBody (broker.accepting state) (broker.activated state) frame.header =
      pure .ignored) : FramingLaw broker state (.written frame fits) ↔ frame.body = [] := by
  rw [framingLaw_written, hbody]
  constructor
  · intro h
    obtain ⟨next, hok, -⟩ := h [] []
    change EStateM.Result.ok _ _ = _ at hok
    injection hok with _ hbuf
    simpa using congrArg unread hbuf
  · intro hnil pre rest
    refine ⟨.ignored, ?_, by simp⟩
    rw [hnil, append_nil]
    rfl

end Round

/-! ## SETUP -/

section Setup

variable {σ : Type} {broker : Broker σ} {state : σ}

theorem setupBody_ne_nil (keepAliveInterval keepAliveMaxLifetime : ℤ)
    (metadataMimeType dataMimeType : DartString) (content : ReactivePayload) :
    setupBody keepAliveInterval keepAliveMaxLifetime metadataMimeType dataMimeType content ≠
      [] := by
  rw [ReactiveFrame.setupBody_eq, setupVariable]
  simp

/-- A SETUP frame that is read whatever follows it has readable mime types. -/
theorem readable_of_framingLaw {keepAliveInterval keepAliveMaxLifetime : ℤ}
    {metadataMimeType dataMimeType : DartString} {leaseEnable : Bool} {content : ReactivePayload}
    {fits : (ReactiveFrame.setup keepAliveInterval keepAliveMaxLifetime metadataMimeType
      dataMimeType leaseEnable content).Fits} (hacc : broker.accepting state = true)
    (hact : broker.activated state = false) (h : FramingLaw broker state (.written _ fits)) :
    (readSetup (metadataBit content == 1)
      (setupVariable metadataMimeType dataMimeType content)).isSome := by
  rw [framingLaw_written, hacc, hact] at h
  have hhdr : (ReactiveFrame.header (.setup keepAliveInterval keepAliveMaxLifetime
      metadataMimeType dataMimeType leaseEnable content)).frameLength =
      (setupFixed keepAliveInterval keepAliveMaxLifetime ++
        setupVariable metadataMimeType dataMimeType content).length + 6 := by
    rw [← ReactiveFrame.setupBody_eq]
    rfl
  have hread (rest : Uint8List) : ∃ frame buffer, readSetupVariable
      (ReactiveFrame.header (.setup keepAliveInterval keepAliveMaxLifetime metadataMimeType
        dataMimeType leaseEnable content))
      (ReactiveFrame.head (.setup keepAliveInterval keepAliveMaxLifetime metadataMimeType
        dataMimeType leaseEnable content)).length
      (int32Field keepAliveInterval) (int32Field keepAliveMaxLifetime)
      (cursor (ReactiveFrame.head (.setup keepAliveInterval keepAliveMaxLifetime metadataMimeType
        dataMimeType leaseEnable content) ++ setupFixed keepAliveInterval keepAliveMaxLifetime)
        (setupVariable metadataMimeType dataMimeType content ++ rest) 0) = .ok frame buffer := by
    obtain ⟨next, hok, -⟩ := h [] rest
    obtain ⟨frame, buffer, hframe, -⟩ := bind_eq_ok (m := readSetupFrame _) hok
    rw [nil_append, ReactiveFrame.body, ReactiveFrame.setupBody_eq, append_assoc,
      ReactiveFrame.readSetupFrame_setupFixed] at hframe
    exact ⟨frame, buffer, hframe⟩
  have hreadable := readable_of_readSetupVariable _ _ _ _ hhdr hread
  rwa [ReactiveFrame.header, headerOf] at hreadable

end Setup

/-! ## Frames of an unknown type -/

section Unknown

variable {σ : Type} {broker : Broker σ} {state : σ}

theorem readBody_unknown_long (accepting activated : Bool) (header : FrameHeader)
    (h : header.type ∉ knownTypes) (hlong : header.frameLength > reactiveFrameHeaderSize) :
    readBody accepting activated header = do
      let some _ ← readBytes (header.frameLength - reactiveFrameHeaderSize) | return .incomplete
      return .unknown := by
  unfold readBody
  split
  all_goals first
    | exact if_pos hlong
    | (next htype => rw [htype] at h; exact absurd (by decide) h)

theorem readBody_unknown_short (accepting activated : Bool) (header : FrameHeader)
    (h : header.type ∉ knownTypes) (hshort : ¬header.frameLength > reactiveFrameHeaderSize) :
    readBody accepting activated header = pure .unknown := by
  unfold readBody
  split
  all_goals first
    | exact if_neg hshort
    | (next htype => rw [htype] at h; exact absurd (by decide) h)

/-- The responder takes three bytes less than the body of a frame of an unknown type, or nothing of
it at all. -/
theorem readNext_unknownFrame (frame : UnknownFrame) (accepting activated : Bool)
    (pre rest : Uint8List) (checkpoint : ℕ) :
    ∃ taken, taken.length = frame.body.length - 3 ∧
      readNext accepting activated (cursor pre (frame.bytes ++ rest) checkpoint) =
        .ok .unknown (cursor (pre ++ (toBytesBE 3 (frame.body.length + 6) ++
            int32ToBytes frame.streamId ++ [frame.typeByte, frame.flags]) ++ taken)
          (frame.body.drop taken.length ++ rest) checkpoint) := by
  have hfits := frame.fits
  have h0 := readFrameHeader_cursor pre (frame.body ++ rest) checkpoint frame.typeByte frame.flags
    (length_toBytesBE 3 (frame.body.length + 6)) (length_int32ToBytes frame.streamId)
  rw [ofBytesBE_toBytesBE_of_lt (by omega)] at h0
  rw [readNext, UnknownFrame.bytes, append_assoc _ frame.body rest, bind_ok h0]
  by_cases hlong : frame.body.length + 6 > reactiveFrameHeaderSize
  · have h1 := readBytes_cursor (pre ++ (toBytesBE 3 (frame.body.length + 6) ++
        int32ToBytes frame.streamId ++ [frame.typeByte, frame.flags]))
      (frame.body.drop (frame.body.length - 3) ++ rest) checkpoint
      (frame.body.take (frame.body.length - 3))
      (show ((frame.body.length + 6 : ℕ) : ℤ) - reactiveFrameHeaderSize = _ by
        rw [length_take]; rw [reactiveFrameHeaderSize] at hlong ⊢; omega)
    rw [← append_assoc (frame.body.take _), take_append_drop] at h1
    refine ⟨frame.body.take (frame.body.length - 3), by rw [length_take]; omega, ?_⟩
    simp only [readBody_unknown_long accepting activated ⟨_, _, _, _, _⟩ frame.type_not_known hlong]
    rw [bind_ok h1, length_take, Nat.min_eq_left (Nat.sub_le _ _)]
    rfl
  · simp only [readBody_unknown_short accepting activated ⟨_, _, _, _,
      _⟩ frame.type_not_known hlong]
    rw [reactiveFrameHeaderSize] at hlong
    refine ⟨[], by simp only [length_nil]; omega, ?_⟩
    rw [append_nil]
    rfl

theorem framingLaw_unknown {frame : UnknownFrame} :
    FramingLaw broker state (.unknown frame) ↔ frame.body = [] := by
  rw [framingLaw_iff_readNext]
  constructor
  · intro h
    obtain ⟨next, hok, -⟩ := h [] []
    obtain ⟨taken, htaken, hread⟩ := readNext_unknownFrame frame (broker.accepting state)
      (broker.activated state) [] [] 0
    rw [CompleteFrame.bytes, length_nil, hread] at hok
    injection hok with _ hbuf
    have hunread : frame.body.drop taken.length = [] := by
      simpa using congrArg unread hbuf
    rw [drop_eq_nil_iff, htaken] at hunread
    exact eq_nil_of_length_eq_zero (by omega)
  · intro hnil pre rest
    obtain ⟨taken, htaken, hread⟩ := readNext_unknownFrame frame (broker.accepting state)
      (broker.activated state) pre rest pre.length
    rw [hnil, length_nil, Nat.zero_sub] at htaken
    obtain rfl := eq_nil_of_length_eq_zero htaken
    refine ⟨.unknown, ?_, by simp⟩
    rw [CompleteFrame.bytes, hread, UnknownFrame.bytes, hnil]
    simp

end Unknown

/-! ## The law -/

section Law

variable {σ : Type} {broker : Broker σ} {state : σ}

variable {content : ReactivePayload}

/-- A SETUP frame is ignored, body and all, by a broker that does not accept or is activated. -/
theorem framingLaw_setup {keepAliveInterval keepAliveMaxLifetime : ℤ}
    {metadataMimeType dataMimeType : DartString} {leaseEnable : Bool}
    {fits : (ReactiveFrame.setup keepAliveInterval keepAliveMaxLifetime metadataMimeType
      dataMimeType leaseEnable content).Fits} :
    FramingLaw broker state (.written _ fits) ↔
      broker.accepting state = true ∧ broker.activated state = false ∧
        (readSetup (metadataBit content == 1)
          (setupVariable metadataMimeType dataMimeType content)).isSome := by
  constructor
  · intro h
    by_cases hread : broker.accepting state = true ∧ broker.activated state = false
    · exact ⟨hread.1, hread.2, readable_of_framingLaw hread.1 hread.2 h⟩
    · -- The body, which is not empty, would have to be empty.
      have hignore : (!broker.accepting state || broker.activated state) = true := by
        cases ha : broker.accepting state <;> cases hb : broker.activated state <;> simp_all
      have hbody : readBody (broker.accepting state) (broker.activated state)
          (ReactiveFrame.header (.setup keepAliveInterval keepAliveMaxLifetime metadataMimeType
            dataMimeType leaseEnable content)) = pure .ignored := if_pos hignore
      exact (setupBody_ne_nil _ _ _ _ _ ((framingLaw_ignored fits hbody).mp h)).elim
  · rintro ⟨hacc, hact, hreadable⟩
    obtain ⟨mimeTypes, hread⟩ := Option.isSome_iff_exists.mp hreadable
    exact framingLaw_of_call (Option.map_eq_some_iff.mpr ⟨mimeTypes, hread, rfl⟩)
      (by rw [hacc]) fun _ => hact

/-- A REQUEST_CHANNEL frame is ignored by a broker that does not accept. -/
theorem framingLaw_requestChannel {streamId count : ℤ}
    {fits : (ReactiveFrame.requestChannel streamId count content).Fits} :
    FramingLaw broker state (.written _ fits) ↔ broker.accepting state = true := by
  constructor
  · intro h
    by_contra hacc
    have hbody : readBody (broker.accepting state) (broker.activated state)
        (ReactiveFrame.header (.requestChannel streamId count content)) = pure .ignored := by
      rw [eq_false_of_ne_true hacc]
      rfl
    have hnil : int32ToBytes count ++ encodePayload content = [] :=
      (framingLaw_ignored fits hbody).mp h
    have hlen := congrArg List.length hnil
    rw [length_append, length_int32ToBytes, length_nil] at hlen
    omega
  · intro hacc
    exact framingLaw_of_call rfl (by rw [hacc]) nofun

/-- A PAYLOAD frame is ignored by a broker that does not accept, which does no harm to a frame
without a payload. -/
theorem framingLaw_payload {streamId : ℤ} {completed follow : Bool}
    {content : Option ReactivePayload}
    {fits : (ReactiveFrame.payload streamId completed follow content).Fits} :
    FramingLaw broker state (.written _ fits) ↔
      broker.accepting state = true ∨ encodePayload (content.getD .empty) = [] := by
  by_cases hacc : broker.accepting state = true
  · exact iff_of_true (framingLaw_of_call rfl (by rw [hacc]) nofun)
      (.inl hacc)
  · have hbody : readBody (broker.accepting state) (broker.activated state)
        (ReactiveFrame.header (.payload streamId completed follow content)) = pure .ignored := by
      rw [eq_false_of_ne_true hacc]
      rfl
    rw [framingLaw_ignored fits hbody, ReactiveFrame.body]
    exact ⟨.inr, fun h => h.resolve_left hacc⟩

end Law

/-- **The responder keeps in step with the frames exactly when none is misread or ignored with a
body left behind.** -/
theorem framingLaw_iff {σ : Type} (broker : Broker σ) (state : σ) (frame : CompleteFrame) :
    FramingLaw broker state frame ↔
      frame.Framed (broker.accepting state) (broker.activated state) := by
  cases frame with
  | unknown frame => exact framingLaw_unknown
  | written frame fits =>
    cases frame with
    | setup => exact framingLaw_setup
    | requestChannel => exact framingLaw_requestChannel
    | payload => exact framingLaw_payload
    | lease | keepAlive | requestN | cancel | error =>
      exact iff_of_true (framingLaw_of_call rfl rfl nofun) trivial

/-- One byte behind the header of a frame of an unknown type is enough to lose step. -/
theorem not_framingLaw_unknown :
    ¬FramingLaw idleBroker () (.unknown ⟨1, 0xFC, 0, [7], by decide, by decide⟩) := by
  rw [framingLaw_unknown]
  exact List.cons_ne_nil 7 []

end FengShui.Reactive
