import FengShui.Reactive.BrokerInvariants
import FengShui.Reactive.RequesterInvariants

/-!
# The size of a write

A chunk that the requester hands to the connection is copied into a static buffer, so it must not be
larger than one. A frame alone is not (`Sized`), and the chunks of the buffer grow up to its chunk
size. For that the broker takes the number of static buffers, not their size: it goes well when the
number is not above the size, or so small that no two frames go together (`writesFit_iff`).
-/

namespace FengShui.Reactive

open List

namespace ReactiveRequester

/-- No byte list of `writeMany` is above the size. -/
def WritesFit (size : ℕ) (requester : ReactiveRequester) : Prop :=
  ∀ bytes linked, .writeMany bytes linked ∈ requester.written → ∀ chunk ∈ bytes, chunk.length ≤ size

/-- A frame, or frames put together, of at most the size. -/
def Chunk (size : ℕ) (bytes : Uint8List) : Prop :=
  reactiveFrameHeaderSize ≤ bytes.length ∧ bytes.length ≤ size

/-- What is sent and what is to be sent fits. -/
structure Sized (capacity size : ℕ) (configuration : ReactiveChannelConfiguration)
    (requester : ReactiveRequester) : Prop where
  chunkSize : requester.buffer.chunkSize = capacity
  chunks : ∀ chunk ∈ requester.buffer.chunks, Chunk size chunk
  fragments : ∀ fragment ∈ requester.currentFragments, fragment.length ≤ configuration.fragmentSize
  /-- A frame that is scheduled as it is has a header. -/
  events : ∀ payload ∈ requester.subscription.events, payload.frame = true →
    reactiveFrameHeaderSize ≤ payload.bytes.length
  written : WritesFit size requester

/-- Two frames go together only where the size allows it. -/
def Roomy (capacity size : ℕ) : Prop := capacity ≤ size ∨ capacity < 2 * reactiveFrameHeaderSize

variable {capacity size : ℕ} {configuration : ReactiveChannelConfiguration} {streamId : ℤ}
  {requester next : ReactiveRequester} {action : RequesterAction}

theorem length_payload (data : Uint8List) (completed follow starts : Bool) :
    ((OutFrame.payload data completed follow starts).bytes streamId).length =
      data.length + reactiveFrameHeaderSize := by
  rw [OutFrame.bytes, writePayloadFrame_eq, length_encodeFrame]
  simp [encodePayload, ReactivePayload.ofData, reactiveFrameHeaderSize]

variable {payload : ReactivePendingPayload} {buffer : ReactiveRequesterBuffer}

/-- The frame of a payload that is sent whole. -/
theorem chunk_wholeFrame (streamId : ℤ)
    (hlimit : configuration.frameMaxSize + reactiveFrameHeaderSize ≤ size)
    (hsize : payload.bytes.length ≤ configuration.frameMaxSize)
    (hframe : payload.frame = true → reactiveFrameHeaderSize ≤ payload.bytes.length) :
    Chunk size ((wholeFrame payload).bytes streamId) := by
  unfold wholeFrame
  split
  · rename_i h
    exact ⟨hframe h, by show payload.bytes.length ≤ size; omega⟩
  · unfold Chunk
    rw [length_payload]
    omega

/-- The frames of a round of fragments. -/
theorem chunk_roundFrames (streamId : ℤ)
    (hlimit : configuration.fragmentSize + reactiveFrameHeaderSize ≤ size)
    (hfrags : ∀ fragment ∈ requester.currentFragments,
      fragment.length ≤ configuration.fragmentSize) :
    ∀ frame ∈ requester.roundFrames configuration, Chunk size (frame.bytes streamId) := by
  have hframes (more lastFragments starts : Bool) (chunks index : ℕ) (fragments : List Uint8List)
      (hfrags : ∀ fragment ∈ fragments, fragment.length ≤ configuration.fragmentSize) :
      ∀ frame ∈ fragmentFrames more lastFragments chunks starts index fragments,
        Chunk size (frame.bytes streamId) := by
    induction fragments generalizing starts index with
    | nil => exact nofun
    | cons fragment fragments ih =>
      intro frame hmem
      rcases mem_cons.mp hmem with rfl | hmem
      · have hfragment := hfrags fragment mem_cons_self
        unfold Chunk
        rw [length_payload]
        omega
      · exact ih _ _ (fun fragment hmem => hfrags fragment (mem_cons_of_mem _ hmem)) frame hmem
  exact hframes _ _ _ _ _ _ fun fragment hmem => hfrags fragment (mem_of_mem_take hmem)

theorem chunk_add (hroomy : Roomy capacity size) (hchunkSize : buffer.chunkSize = capacity)
    (hchunks : ∀ chunk ∈ buffer.chunks, Chunk size chunk) {frame : Uint8List}
    (hframe : Chunk size frame) : ∀ chunk ∈ (buffer.add frame).chunks, Chunk size chunk := by
  intro chunk hmem
  rcases buffer.mem_chunks_of_add frame hmem with hmem | rfl | ⟨before, hbefore, rfl, hfits⟩
  · exact hchunks chunk hmem
  · exact hframe
  · obtain ⟨hlow, -⟩ := hchunks before hbefore
    obtain ⟨hlow', -⟩ := hframe
    rw [hchunkSize] at hfits
    unfold Chunk
    rw [length_append]
    rcases hroomy with hroomy | hroomy <;> omega

theorem chunk_foldl_add (hroomy : Roomy capacity size) (hchunkSize : buffer.chunkSize = capacity)
    (hchunks : ∀ chunk ∈ buffer.chunks, Chunk size chunk) {frames : List OutFrame}
    (hframes : ∀ frame ∈ frames, Chunk size (frame.bytes streamId)) :
    ∀ chunk ∈ (frames.foldl (fun buffer frame => buffer.add (frame.bytes streamId)) buffer).chunks,
      Chunk size chunk := by
  induction frames generalizing buffer with
  | nil => exact hchunks
  | cons frame frames ih =>
    have hframe := hframes frame mem_cons_self
    exact ih (by rw [ReactiveRequesterBuffer.chunkSize_add, hchunkSize])
      (chunk_add hroomy hchunkSize hchunks hframe)
      fun frame hmem => hframes frame (mem_cons_of_mem _ hmem)

/-- A further write. -/
theorem WritesFit.writeMany (h : WritesFit size requester) {bytes : List Uint8List} {linked : Bool}
    (hbytes : ∀ chunk ∈ bytes, Chunk size chunk) (hwritten : next.written =
      requester.written ++ [.writeMany bytes linked]) : WritesFit size next := by
  intro bytes' linked' hmem chunk hchunk
  rw [hwritten] at hmem
  rcases mem_append.mp hmem with hmem | hmem
  · exact h bytes' linked' hmem chunk hchunk
  · cases mem_singleton.mp hmem
    exact (hbytes chunk hchunk).2

/-- A frame that is scheduled as it is has a header. -/
theorem header_of_scheduledPayload (h : scheduledPayload streamId action = some payload)
    (hframe : payload.frame = true) : reactiveFrameHeaderSize ≤ payload.bytes.length := by
  unfold scheduledPayload at h
  split at h
  · cases h
    cases hframe
  · obtain rfl := Option.some.inj h
    rw [writeErrorFrame_eq, length_encodeFrame, reactiveFrameHeaderSize]
    exact Nat.le_add_left ..
  · obtain rfl := Option.some.inj h
    rw [writeCancelFrame_eq, length_encodeFrame, reactiveFrameHeaderSize]
    exact Nat.le_add_left ..
  · cases h

theorem sized_finishClose (h : Sized capacity size configuration requester) :
    Sized capacity size configuration (finishClose requester) :=
  ⟨h.chunkSize, nofun, h.fragments, nofun, h.written⟩

section Step

variable (hroomy : Roomy capacity size)
  (hframe : configuration.frameMaxSize + reactiveFrameHeaderSize ≤ size)
  (hfragment : configuration.fragmentSize + reactiveFrameHeaderSize ≤ size)
include hroomy hfragment

theorem sized_fragmentate (h : Sized capacity size configuration requester) :
    Sized capacity size configuration (fragmentate streamId configuration requester) := by
  have hround := chunk_foldl_add hroomy h.chunkSize h.chunks
    (chunk_roundFrames streamId hfragment h.fragments)
  rw [fragmentate_eq]
  exact {
    chunkSize := h.chunkSize
    chunks := nofun
    fragments := fun fragment hmem => h.fragments fragment (mem_of_mem_drop hmem)
    events := h.events
    written := h.written.writeMany hround rfl }

include hframe

theorem sized_move (h : Sized capacity size configuration requester)
    (hmove : Move streamId configuration requester action next) :
    Sized capacity size configuration next := by
  have hev {payload : ReactivePendingPayload} {rest : Subscription ReactivePendingPayload}
      (hnext : requester.subscription.next? = some (payload, rest)) :
      (payload.frame = true → reactiveFrameHeaderSize ≤ payload.bytes.length) ∧
        ∀ payload ∈ rest.events, payload.frame = true →
          reactiveFrameHeaderSize ≤ payload.bytes.length := by
    obtain ⟨-, -, hqueue, -⟩ := Subscription.next?_eq_some.mp hnext
    have hall := h.events
    rw [hqueue] at hall
    exact ⟨hall payload mem_cons_self, fun payload hmem => hall payload (mem_cons_of_mem _ hmem)⟩
  have hadd {payload : ReactivePendingPayload}
      (hsize : payload.bytes.length ≤ configuration.frameMaxSize)
      (hpay : payload.frame = true → reactiveFrameHeaderSize ≤ payload.bytes.length) :=
    chunk_add hroomy h.chunkSize h.chunks (chunk_wholeFrame streamId hframe hsize hpay)
  have hreq {bytes : Uint8List} (written : List ConnectionWrite)
      (hwritten : written = requester.written ++ [.writeSingle bytes]) :
      ∀ chunks linked, .writeMany chunks linked ∈ written →
          ∀ chunk ∈ chunks, chunk.length ≤ size := by
    intro chunks linked hmem
    rw [hwritten] at hmem
    rcases mem_append.mp hmem with hmem | hmem
    · exact h.written chunks linked hmem
    · cases mem_singleton.mp hmem
  cases hmove with
  | refused | ignored => exact h
  | request => exact ⟨h.chunkSize, h.chunks, h.fragments, h.events, hreq _ rfl⟩
  | @schedule _ scheduled hacc hpay =>
    refine ⟨h.chunkSize, h.chunks, h.fragments, fun payload hmem => ?_, h.written⟩
    -- A resume leaves the events.
    have hmem : payload ∈ (requester.subscription.add scheduled).events := by
      dsimp only at hmem
      split at hmem
      · rwa [Subscription.events_resume] at hmem
      · exact hmem
    rcases Subscription.mem_events_of_add hmem with hmem | rfl
    · exact h.events payload hmem
    · exact header_of_scheduledPayload hpay
  | resume => exact ⟨h.chunkSize, h.chunks, h.fragments, by simpa using h.events, h.written⟩
  | wait | timeout => exact ⟨h.chunkSize, h.chunks, h.fragments, h.events, h.written⟩
  | close | closed | finish =>
    exact sized_finishClose ⟨h.chunkSize, h.chunks, h.fragments, h.events, h.written⟩
  | drop hnext => exact ⟨h.chunkSize, h.chunks, h.fragments, (hev hnext).2, h.written⟩
  | stuck hnext =>
    exact ⟨h.chunkSize, h.chunks, h.fragments, by simpa using (hev hnext).2, h.written⟩
  | cut hnext hsend hsize hfrags =>
    refine sized_fragmentate hroomy hfragment ⟨h.chunkSize, h.chunks,
      fun fragment hmem => length_le_of_disassemble hfrags hmem,
      by simpa using (hev hnext).2, h.written⟩
  | cutBehind hnext hsend hsize hfrags =>
    exact ⟨h.chunkSize, nofun,
      fun fragment hmem => length_le_of_disassemble hfrags hmem,
      by simpa using (hev hnext).2, h.written.writeMany h.chunks rfl⟩
  | last hnext hsend hsize =>
    exact sized_finishClose ⟨h.chunkSize, h.chunks, h.fragments, (hev hnext).2,
      h.written.writeMany (hadd hsize (hev hnext).1) rfl⟩
  | hold hnext hsend hsize =>
    exact ⟨(ReactiveRequesterBuffer.chunkSize_add ..).trans h.chunkSize, hadd hsize (hev hnext).1,
      h.fragments, (hev hnext).2, h.written⟩
  | flush hnext hsend hsize =>
    refine ⟨h.chunkSize, nofun, h.fragments, fun payload hmem => ?_,
      h.written.writeMany (hadd hsize (hev hnext).1) rfl⟩
    refine (hev hnext).2 payload ?_
    dsimp only at hmem
    split at hmem
    · rwa [Subscription.events_pause] at hmem
    · exact hmem
  | round =>
    exact sized_fragmentate hroomy hfragment ⟨h.chunkSize, h.chunks, h.fragments,
      h.events, h.written⟩
  | proceed =>
    refine ⟨h.chunkSize, h.chunks, h.fragments, fun payload hmem => h.events payload ?_, h.written⟩
    dsimp only at hmem
    split at hmem
    · rwa [Subscription.events_resume] at hmem
    · exact hmem

end Step

theorem sized_new : Sized capacity size configuration (new capacity) :=
  ⟨rfl, nofun, nofun, nofun,
    nofun⟩

/-- Where two frames go together only up to the size, every write of every run fits. -/
theorem writesFit_of_roomy (hroomy : Roomy capacity size)
    (hframe : configuration.frameMaxSize + reactiveFrameHeaderSize ≤ size)
    (hfragment : configuration.fragmentSize + reactiveFrameHeaderSize ≤ size)
    (h : Transition.Reachable (step streamId configuration) (new capacity) requester) :
    WritesFit size requester := by
  have hinv := h.invariant
    (fun requester => Sound streamId requester ∧ Sized capacity size configuration requester)
    ⟨sound_new capacity, sized_new⟩ fun _ _ _ ⟨hsound, hsized⟩ hstep =>
      ⟨sound_step hsound hstep,
        sized_move hroomy hframe hfragment hsized (step_move hsound.lifecycle.closing hstep)⟩
  exact hinv.2.written

/-- Two payloads that are written together: their frames have one byte more than the size, or the
least that two frames have. -/
def overrun (size : ℕ) : List RequesterAction :=
  [.schedulePayload (List.replicate (size + 1 - 2 * reactiveFrameHeaderSize) 0) false,
    .schedulePayload [] false, .resume 2, .deliver, .deliver]

theorem add_of_fits {first second : Uint8List} (hfits : second.length + first.length ≤ capacity) :
    (⟨capacity, 1, [first], 0, rfl⟩ : ReactiveRequesterBuffer).add second =
      ⟨capacity, 2, [first ++ second], 0, rfl⟩ := by
  rw [ReactiveRequesterBuffer.add, dif_neg (cons_ne_nil _ _)]
  exact if_pos (Int.ofNat_le.mpr hfits)

theorem exists_overrun (streamId : ℤ) (hsize : reactiveFrameHeaderSize ≤ size)
    (hroomy : ¬Roomy capacity size) : ∃ requester,
      Transition.run (step streamId ⟨0, size - reactiveFrameHeaderSize, 2, 0⟩) (new capacity)
        (overrun size) = some requester ∧ ¬WritesFit size requester := by
  simp only [Roomy, not_or, not_le, not_lt, reactiveFrameHeaderSize] at hroomy hsize
  obtain ⟨hcap, hframes⟩ := hroomy
  -- The two frames, of which the second goes behind the first.
  generalize hdata : List.replicate (size + 1 - 2 * reactiveFrameHeaderSize) (0 : UInt8) = data
  have hlen : data.length = size + 1 - 18 := by rw [← hdata, length_replicate]; rfl
  have hfirst : ¬data.length > size - reactiveFrameHeaderSize := by
    rw [hlen, reactiveFrameHeaderSize]
    omega
  have hsecond : ¬([] : Uint8List).length > size - reactiveFrameHeaderSize := by simp
  let first : Uint8List := (OutFrame.payload data false false true).bytes streamId
  let second : Uint8List := (OutFrame.payload [] false false true).bytes streamId
  have hfits : second.length + first.length ≤ capacity := by
    simp only [first, second, length_payload, length_nil, hlen, reactiveFrameHeaderSize]
    omega
  let queued : ReactiveRequester := { new capacity with
    pending := 2
    requested := 2
    subscription := ⟨[⟨data, false, false⟩, ⟨[], false, false⟩], 0, false⟩ }
  let waiting : ReactiveRequester := { queued with
    requested := 1
    subscription := ⟨[⟨[], false, false⟩], 0, false⟩
    buffer := ⟨capacity, 1, [first], 0, rfl⟩
    held := [.payload data false false true] }
  have hqueued : Transition.run (step streamId ⟨0, size - reactiveFrameHeaderSize, 2, 0⟩)
      (new capacity) [.schedulePayload data false, .schedulePayload [] false, .resume 2] =
        some queued := rfl
  have hwait : step streamId ⟨0, size - reactiveFrameHeaderSize, 2, 0⟩ queued .deliver =
      some waiting := by
    show some (send streamId _ ⟨data, false, false⟩ _) = _
    rw [send, if_neg (by simp [queued, new]), if_neg hfirst]
    rfl
  have hwritten : ∃ requester,
      step streamId ⟨0, size - reactiveFrameHeaderSize, 2, 0⟩ waiting .deliver = some requester ∧
        requester.written = [.writeMany [first ++ second] false] := by
    refine ⟨_, rfl, ?_⟩
    show (send streamId _ ⟨[], false, false⟩ _).written = _
    rw [send, if_neg (by simp [waiting, queued, new]), if_neg hsecond]
    show (sendWhole streamId _ ⟨[], false, false⟩ _).written = _
    have hflush : (sendWhole streamId ⟨0, size - reactiveFrameHeaderSize, 2, 0⟩ ⟨[], false, false⟩
        { waiting with subscription := ⟨[], 0, false⟩ }).written =
          [.writeMany ((⟨capacity, 1, [first], 0, rfl⟩ : ReactiveRequesterBuffer).add second).chunks
            false] := by
      simp [sendWhole, addFrame, wholeFrame, writeMany, clearBuffer, waiting, queued, new,
        reactiveInfinityRequestsCount, second]
    rw [add_of_fits hfits] at hflush
    exact hflush
  obtain ⟨requester, hlast, hwritten⟩ := hwritten
  refine ⟨requester, ?_, fun hfit => ?_⟩
  · rw [overrun, hdata]
    have h := Transition.run_append_of_run hqueued [.deliver, .deliver]
    refine h.trans ?_
    rw [Transition.run_cons, hwait, Option.bind_some, Transition.run_cons, hlast]
    rfl
  · have hchunk := hfit _ _ (hwritten ▸ mem_cons_self) _ mem_cons_self
    simp only [first, second, length_append, length_payload, length_nil, hlen,
      reactiveFrameHeaderSize] at hchunk
    omega

end ReactiveRequester

namespace ReactiveBroker

open ReactiveRequester

variable {Value : Type}

/-- Whatever the channel, the writes of the requester that the broker makes for it fit. -/
def StaticBuffersFit (application : Application Value) (staticBufferSize : ℕ) : Prop :=
  ∀ streamId key configuration codec initialRequestCount requester,
    configuration.frameMaxSize + reactiveFrameHeaderSize ≤ staticBufferSize →
    configuration.fragmentSize + reactiveFrameHeaderSize ≤ staticBufferSize →
    Transition.Reachable (ReactiveRequester.step streamId configuration)
      (newStream application streamId key configuration codec initialRequestCount).requester
        requester →
    requester.WritesFit staticBufferSize

/-- The writes of the requesters fit just when a chunk of the capacity does, or never holds two
frames, or when no frame fits and no channel has frames that small. -/
theorem staticBuffersFit_iff (application : Application Value) (staticBufferSize : ℕ) :
    StaticBuffersFit application staticBufferSize ↔
      application.staticBuffersCapacity ≤ staticBufferSize ∨
        application.staticBuffersCapacity < 2 * reactiveFrameHeaderSize ∨
        staticBufferSize < reactiveFrameHeaderSize := by
  constructor
  · intro h
    by_contra hcon
    simp only [not_or, not_le, not_lt] at hcon
    obtain ⟨hcapacity, hframes, hsize⟩ := hcon
    have hroomy : ¬Roomy application.staticBuffersCapacity staticBufferSize := by
      unfold Roomy
      omega
    obtain ⟨requester, hrun, hoverrun⟩ := exists_overrun 0 hsize hroomy
    refine hoverrun (h 0 [] _ ⟨fun _ => .ok [], fun _ => .error .typeError⟩ 0 requester ?_ ?_
      ⟨_, hrun⟩)
    · dsimp only
      omega
    · dsimp only
      omega
  · intro h streamId key configuration codec initialRequestCount requester hframe
      hfragment hreachable
    have hroomy : Roomy application.staticBuffersCapacity staticBufferSize := by
      unfold Roomy
      omega
    exact writesFit_of_roomy hroomy hframe hfragment hreachable

/-- A capacity of 64 and buffers of 32 bytes: two payloads of 15 and no bytes make one chunk of
33. -/
theorem staticBuffersFit_false :
    ¬StaticBuffersFit { Application.idle with staticBuffersCapacity := 64 } 32 := by
  intro h
  have hfits := h 1 [] ⟨0, 23, 2, 23⟩ ⟨fun _ => .ok [], fun _ => .ok ()⟩ 0 _ (by decide) (by decide)
    ⟨[.schedulePayload (List.replicate 15 0) false, .schedulePayload [] false, .resume 2, .deliver,
      .deliver], rfl⟩
  have hlength := hfits _ _ List.mem_cons_self _ List.mem_cons_self
  revert hlength
  decide

end ReactiveBroker

end FengShui.Reactive
