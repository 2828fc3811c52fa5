import FengShui.Reactive.Chunking
import FengShui.Reactive.Throws
import FengShui.Reactive.WriterFrame

/-!
# Failures of the application in the loop of the responder (`broker.dart` and `responder.dart`)

Only the payload that does not end its stream is received within `Future.sync`. What any other
callback or decoder throws leaves `handle` in the middle of its loop, with the rest of the buffer
unread; and what the last payload of a stream throws keeps the stream from being completed.
`isolated_iff` says exactly when neither happens.
-/

namespace FengShui.Reactive

open Effect ReactiveReadBuffer ReactiveResponder

/-- The bytes are a complete frame: the reader reads them whole, whatever stands around them. -/
def Reads (accepting activated : Bool) (frame : Uint8List) (next : NextFrame) : Prop :=
  next ≠ .incomplete ∧ ∀ pre rest,
    readNext accepting activated (cursor pre (frame ++ rest) pre.length) =
      .ok next (cursor (pre ++ frame) rest pre.length)

/-- The call that a frame leads to. -/
def NextFrame.call? : NextFrame → Option BrokerCall
  | .frame brokerCall => some brokerCall
  | _ => none

namespace ReactiveBroker

variable {Value : Type} (application : Application Value)

/-- The broker behind a frame. -/
def behind (next : NextFrame) (broker : ReactiveBroker Value) : ReactiveBroker Value :=
  match next with
  | .frame brokerCall => stateOf (call application brokerCall broker)
  | _ => broker

/-- Complete frames, one behind the other. -/
def Holds : ReactiveBroker Value → List (Uint8List × NextFrame) → Prop
  | _, [] => True
  | broker, (frame, next) :: frames =>
    Reads broker.accepting broker.activated frame next ∧
      Holds (behind application next broker) frames

/-- A completed PAYLOAD frame takes its stream from the map and completes it. -/
def CompletesStream (broker : ReactiveBroker Value) : NextFrame → Prop
  | .frame (.receive remoteStreamId payload true follow) =>
    ∀ index, broker.streams.get? remoteStreamId = some index →
      let next := stateOf (receive application remoteStreamId payload true follow broker)
      next.streams.get? remoteStreamId = none ∧
        (index, .onComplete) ∈ next.calls.drop broker.calls.length
  | _ => True

def AllCompleted : ReactiveBroker Value → List (Uint8List × NextFrame) → Prop
  | _, [] => True
  | broker, (_, next) :: frames =>
    CompletesStream application broker next ∧ AllCompleted (behind application next broker) frames

/-- `handle` dispatches every frame and ends with the reader at a frame boundary, and completed
PAYLOAD frames complete their streams. -/
structure Isolated (broker : ReactiveBroker Value) (frames : List (Uint8List × NextFrame))
    (payload : Uint8List) (buffer : ReactiveReadBuffer) : Prop where
  dispatched : (ReactiveResponder.handle (toBroker application).logged payload buffer
    (broker, [])).state.2 = frames.filterMap fun frame => frame.2.call?
  boundary : (ReactiveResponder.handle (toBroker application).logged payload buffer
    (broker, [])).buffer.unread = []
  ended : AllCompleted application broker frames

/-- The payload of a completed PAYLOAD frame can be decoded and is received. -/
def Received (broker : ReactiveBroker Value) : NextFrame → Prop
  | .frame (.receive remoteStreamId payload true follow) =>
    ∀ index, broker.streams.get? remoteStreamId = some index →
      PayloadReturns application index payload.data follow broker []
  | _ => True

/-- The call of a frame returns. -/
def FrameReturns (broker : ReactiveBroker Value) (next : NextFrame) : Prop :=
  ∀ brokerCall, next = .frame brokerCall → CallReturns application broker brokerCall

/-- Nothing is thrown, except perhaps by the last frame, and there not by a payload. -/
def Contained : ReactiveBroker Value → List (Uint8List × NextFrame) → Prop
  | _, [] => True
  | broker, (_, next) :: frames =>
    (frames ≠ [] → FrameReturns application broker next) ∧ Received application broker next ∧
      Contained (behind application next broker) frames

section CompletesStream

variable {application : Application Value} {broker : ReactiveBroker Value}

theorem talking_true : Talking fun _ (_ : ReactiveBroker Value) => True := fun _ _ _ _ => Iff.rfl

/-- The stream is completed just when its last payload is received. -/
theorem completesStream_iff (next : NextFrame) :
    CompletesStream application broker next ↔ Received application broker next := by
  unfold CompletesStream Received
  split
  · rename_i remoteStreamId payload follow
    refine forall₂_congr fun index hmap => ?_
    have hreturns : Returns broker (receiveLast application index payload.data follow)
        (fun _ _ => True) ↔ PayloadReturns application index payload.data follow broker [] := by
      rw [returns_receiveLast talking_true]
      unfold PayloadReturns
      simp only [and_true, List.append_nil]
    obtain ⟨⟨-, hstreams, -⟩, callbacks, -, hcalls⟩ :=
      keeps_receiveLast application index payload.data follow broker
    have hreceive : receive application remoteStreamId payload true follow broker =
        (receiveLast application index payload.data follow >>= fun _ =>
          complete application remoteStreamId) broker := by
      unfold receive
      rw [get_bind_apply, hmap]
      rfl
    rw [← hreturns, hreceive]
    change (let next := stateOf (EStateM.bind _ _ broker)
      next.streams.get? remoteStreamId = none ∧
        (index, .onComplete) ∈ next.calls.drop broker.calls.length) ↔ _
    unfold EStateM.bind Returns
    -- Where the payload returns the stream is ended, and elsewhere it stays in the map.
    cases hlast : receiveLast application index payload.data follow broker with
    | ok a middle =>
      rw [hlast, stateOf_ok] at hstreams hcalls
      refine iff_of_true ?_ trivial
      have hmid : middle.streams.get? remoteStreamId = some index := by rw [hstreams, hmap]
      obtain ⟨hends, hlog⟩ := ends_endStream hmid application .onComplete
      refine ⟨?_, ?_⟩
      · change (stateOf (endStream application .onComplete remoteStreamId middle)).streams.get?
          remoteStreamId = none
        rw [hends.streams]
        exact DartMap.get?_remove_self _ _
      · change (index, .onComplete) ∈
          (stateOf (endStream application .onComplete remoteStreamId middle)).calls.drop _
        rw [hlog, hcalls, List.append_assoc, List.drop_left]
        exact List.mem_append_right _ List.mem_cons_self
    | error e middle =>
      rw [hlast, stateOf_error] at hstreams
      refine iff_of_false (fun h => ?_) id
      have hnone : middle.streams.get? remoteStreamId = none := h.1
      rw [hstreams, hmap] at hnone
      cases hnone
  · rfl

end CompletesStream

section Loop

variable {application : Application Value}

/-- A complete frame has bytes. -/
theorem reads_ne_nil {accepting activated : Bool} {frame : Uint8List} {next : NextFrame}
    (h : Reads accepting activated frame next) : frame ≠ [] := by
  rintro rfl
  have hread := h.2 [] []
  obtain ⟨taken, left, hsplit, ⟨found, hfound, hlen⟩ | ⟨e, herror⟩⟩ :=
    readNext_cursor accepting activated [] [] 0
  · have hsame : found = next := by
      have heq := hfound.symm.trans hread
      injection heq
    have htaken := hlen (hsame ▸ h.1)
    obtain ⟨rfl, -⟩ := List.append_eq_nil_iff.mp hsplit.symm
    cases htaken
  · cases herror.symm.trans hread

theorem bytes_ne_nil {broker : ReactiveBroker Value} {frames : List (Uint8List × NextFrame)}
    (h : Holds application broker frames) (hframes : frames ≠ []) :
    frames.flatMap Prod.fst ≠ [] := by
  match frames, hframes with
  | (frame, next) :: frames, _ =>
    rw [List.flatMap_cons]
    exact List.append_ne_nil_of_left_ne_nil (reads_ne_nil h.1) _

/-- No frame but the last throws. -/
def FrontReturns (application : Application Value) :
    ReactiveBroker Value → List (Uint8List × NextFrame) → Prop
  | _, [] => True
  | broker, (_, next) :: frames =>
    (frames ≠ [] → FrameReturns application broker next) ∧
      FrontReturns application (behind application next broker) frames

/-- The loop reaches the end of the frames, and dispatches them, just when no frame but the last
throws. -/
theorem loop_iff (frames : List (Uint8List × NextFrame)) (broker : ReactiveBroker Value)
    (log : List BrokerCall) (pre : Uint8List) (checkpoint : ℕ) (hsend : broker.sending = true)
    (h : Holds application broker frames) :
    (loop (toBroker application).logged (cursor pre (frames.flatMap Prod.fst) checkpoint)
          (broker, log)).state.2 = log ++ frames.filterMap (fun frame => frame.2.call?) ∧
        (loop (toBroker application).logged (cursor pre (frames.flatMap Prod.fst) checkpoint)
          (broker, log)).buffer.unread = [] ↔
      FrontReturns application broker frames := by
  induction frames generalizing broker log pre checkpoint with
  | nil =>
    rw [loop_cursor, isReadable_cursor]
    exact iff_of_true ⟨(List.append_nil log).symm, rfl⟩ trivial
  | cons frame frames ih =>
    obtain ⟨frame, next⟩ := frame
    obtain ⟨hreads, hrest⟩ := h
    have hread := hreads.2 pre (frames.flatMap Prod.fst)
    have hreadable : (cursor pre (frame ++ frames.flatMap Prod.fst) checkpoint).isReadable =
        true := by
      rw [isReadable_cursor]
      have hne := List.append_ne_nil_of_left_ne_nil (reads_ne_nil hreads) (frames.flatMap Prod.fst)
      rw [List.isEmpty_eq_false_iff.mpr hne]
      rfl
    have hlogged : (toBroker application).logged.sending (broker, log) = true := hsend
    rw [List.flatMap_cons, loop_cursor, hreadable, hlogged]
    simp only [Bool.and_self, if_true]
    unfold turn
    rw [save_cursor]
    rw [show readNext ((toBroker application).logged.accepting (broker, log))
        ((toBroker application).logged.activated (broker, log))
        (cursor pre (frame ++ frames.flatMap Prod.fst) pre.length) = _ from hread]
    cases next with
    | incomplete => exact absurd rfl hreads.1
    | ignored =>
      have ih := ih broker log (pre ++ frame) pre.length hsend hrest
      refine ih.trans (and_iff_right fun _ _ hcall => ?_).symm
      cases hcall
    | unknown =>
      dsimp only
      rw [shrink_cursor]
      have ih := ih broker log [] pre.length hsend hrest
      refine ih.trans (and_iff_right fun _ _ hcall => ?_).symm
      cases hcall
    | frame brokerCall =>
      have hreturns := call_returns application broker brokerCall
      have hframe : FrameReturns application broker (.frame brokerCall) ↔
          CallReturns application broker brokerCall := by
        unfold FrameReturns
        simp
      unfold FrontReturns
      rw [hframe, ← hreturns]
      dsimp only [Broker.logged, toBroker]
      unfold Returns
      have hbehind : behind application (.frame brokerCall) broker =
          stateOf (call application brokerCall broker) := rfl
      obtain ⟨-, hopen⟩ := (persistent_open application broker.accepting broker.sending).call
        brokerCall broker ⟨rfl, rfl⟩
      cases hcall : call application brokerCall broker with
      | ok a after =>
        rw [hcall, stateOf_ok] at hbehind hopen
        rw [hbehind] at hrest ⊢
        rw [shrink_cursor]
        have ih := ih after (log ++ [brokerCall]) [] pre.length (hopen.trans hsend) hrest
        rw [List.append_assoc] at ih
        exact ih.trans (and_iff_right fun _ => trivial).symm
      | error e after =>
        rw [hcall, stateOf_error] at hbehind
        rw [hbehind] at hrest ⊢
        dsimp only [Handled.state, Handled.buffer]
        rw [unread_cursor]
        constructor
        · rintro ⟨-, hunread⟩
          -- What was not read is empty only when nothing follows the frame that threw.
          have hnone : frames = [] := by
            by_contra hframes
            exact bytes_ne_nil hrest hframes hunread
          subst hnone
          exact ⟨fun hframes => absurd rfl hframes, trivial⟩
        · rintro ⟨hfront, -⟩
          have hnone : frames = [] := by
            by_contra hframes
            exact hfront hframes
          subst hnone
          exact ⟨rfl, rfl⟩

theorem contained_iff (frames : List (Uint8List × NextFrame)) (broker : ReactiveBroker Value) :
    Contained application broker frames ↔
      FrontReturns application broker frames ∧ AllCompleted application broker frames := by
  induction frames generalizing broker with
  | nil => exact (and_self_iff).symm
  | cons frame frames ih =>
    unfold Contained FrontReturns AllCompleted
    rw [ih, completesStream_iff]
    tauto

end Loop

/-- `handle` is not disturbed by the application just when nothing is thrown, except perhaps by the
last frame, and there not by a payload. -/
theorem isolated_iff (application : Application Value) (broker : ReactiveBroker Value)
    (frames : List (Uint8List × NextFrame)) (pre front payload : Uint8List) (checkpoint : ℕ)
    (hsending : broker.sending = true) (hholds : Holds application broker frames)
    (hbytes : front ++ payload = frames.flatMap Prod.fst) :
    Isolated application broker frames payload (cursor pre front checkpoint) ↔
      Contained application broker frames := by
  have hhandle : (ReactiveResponder.handle (toBroker application).logged payload
        (cursor pre front checkpoint) (broker, [])).state.2 =
          frames.filterMap (fun frame => frame.2.call?) ∧
      (ReactiveResponder.handle (toBroker application).logged payload (cursor pre front checkpoint)
        (broker, [])).buffer.unread = [] ↔ FrontReturns application broker frames := by
    cases frames with
    | nil =>
      -- No frame, and no bytes.
      obtain ⟨rfl, rfl⟩ := List.append_eq_nil_iff.mp hbytes
      unfold ReactiveResponder.handle
      split
      · rw [extend_cursor]
        exact loop_iff [] broker [] pre checkpoint hsending trivial
      · exact iff_of_true ⟨rfl, unread_cursor pre [] checkpoint⟩ trivial
    | cons frame frames =>
      have hlogged : (toBroker application).logged.sending (broker, []) = true := hsending
      unfold ReactiveResponder.handle
      rw [hlogged, if_pos rfl, extend_cursor, hbytes]
      exact loop_iff (frame :: frames) broker [] pre checkpoint hsending hholds
  rw [contained_iff, ← hhandle]
  exact ⟨fun h => ⟨⟨h.dispatched, h.boundary⟩, h.ended⟩, fun h => ⟨h.1.1, h.1.2, h.2⟩⟩

/-- A frame of the writer is complete. -/
theorem reads_write {frame : ReactiveFrame} {brokerCall : BrokerCall} {activated : Bool}
    (hcall : frame.call = some brokerCall) (hfits : frame.Fits)
    (hact : frame.type = reactiveFrameSetup → activated = false) :
    Reads true activated frame.write (.frame brokerCall) := by
  refine ⟨by simp, fun pre rest => ?_⟩
  rw [ReactiveFrame.readNext_write hfits, ReactiveFrame.readBody_call _ _ _ hcall hfits hact,
    List.append_assoc, ← ReactiveFrame.write_eq]

/-- Two CANCEL frames, of a stream that there is and of one that there is not. -/
def cancels : List (Uint8List × NextFrame) :=
  [((ReactiveFrame.cancel 1).write, .frame (.cancel 1)),
    ((ReactiveFrame.cancel 3).write, .frame (.cancel 3))]

/-- An application that throws when a stream is cancelled. -/
def throwsOnCancel : Application Unit :=
  { Application.idle with
    callback := fun calls =>
      match calls.getLast? with
      | some (_, .onCancel) => ([], some .typeError)
      | _ => ([], none) }

theorem isolated_iff_cancels : ∃ broker,
    Transition.run (step .idle) (new .server 2 0) opening = some broker ∧
      Isolated .idle broker cancels (cancels.flatMap Prod.fst) .new := by
  refine ⟨_, rfl, (isolated_iff .idle _ cancels [] [] _ 0 rfl ?_ rfl).mpr ?_⟩
  · exact ⟨reads_write rfl (by decide) nofun,
      reads_write rfl (by decide) nofun, trivial⟩
  · refine ⟨fun _ brokerCall hcall => ?_, trivial, fun h => absurd rfl h, trivial, trivial⟩
    cases hcall
    exact fun index _ => ⟨rfl, trivial⟩

/-- A channel that throws in `onCancel` keeps the responder from the frame behind. -/
theorem isolated_false : ∃ broker,
    Transition.run (step throwsOnCancel) (new .server 2 0) opening = some broker ∧
      ¬Isolated throwsOnCancel broker cancels (cancels.flatMap Prod.fst) .new := by
  refine ⟨_, rfl, fun h => ?_⟩
  have hdispatched := h.dispatched
  revert hdispatched
  decide

end ReactiveBroker

end FengShui.Reactive
