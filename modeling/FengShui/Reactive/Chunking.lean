import FengShui.Reactive.Framing
import FengShui.Reactive.Truncation

/-!
# Frames that arrive in chunks

`feed` gives the chunks of a byte stream to `handle` one by one. Between two chunks the buffer holds
a part of one frame, and nothing else has been lost (`feed_frames`): a call of `handle` takes the
frames that are complete (`loop_frames`) and leaves the part of the next one. That holds as long as
no chunk ends where the responder does not notice; when one does, `handle` throws.
`chunkingIndependent_iff` puts this together with what whole lists of frames it concerns.
-/

namespace FengShui.Reactive

open ReactiveReadBuffer ReactiveResponder List

/-! ## Brokers that work throughout -/

namespace Broker

variable {σ : Type}

/-- The state after a call. -/
def after (broker : Broker σ) (call : BrokerCall) (state : σ) : σ :=
  match broker.call call state with
  | .ok _ state => state
  | .error _ state => state

def afterAll (broker : Broker σ) (calls : List BrokerCall) (state : σ) : σ :=
  calls.foldl (fun state call => broker.after call state) state

/-- From such a state on, the broker accepts, sends and does not throw. -/
structure Steady (broker : Broker σ) (steady : σ → Prop) : Prop where
  accepting : ∀ state, steady state → broker.accepting state = true
  sending : ∀ state, steady state → broker.sending state = true
  call : ∀ state, steady state → ∀ call, broker.call call state = .ok () (broker.after call state)
  after : ∀ state, steady state → ∀ call, steady (broker.after call state)

/-- The broker with a record of its calls. -/
def logged (broker : Broker σ) : Broker (σ × List BrokerCall) where
  accepting state := broker.accepting state.1
  sending state := broker.sending state.1
  activated state := broker.activated state.1
  call call state :=
    match broker.call call state.1 with
    | .ok _ after => .ok () (after, state.2 ++ [call])
    | .error e after => .error e (after, state.2 ++ [call])

theorem after_logged (broker : Broker σ) (call : BrokerCall) (state : σ × List BrokerCall) :
    broker.logged.after call state = (broker.after call state.1, state.2 ++ [call]) := by
  simp only [after, logged]
  cases broker.call call state.1 <;> rfl

theorem afterAll_logged (broker : Broker σ) (calls : List BrokerCall)
    (state : σ × List BrokerCall) :
    broker.logged.afterAll calls state = (broker.afterAll calls state.1, state.2 ++ calls) := by
  induction calls generalizing state with
  | nil => simp [afterAll]
  | cons call calls ih =>
    have h := ih (broker.logged.after call state)
    rw [after_logged] at h
    simp only [afterAll, foldl_cons, after_logged] at h ⊢
    rw [h]
    simp

theorem Steady.logged {broker : Broker σ} {steady : σ → Prop} (h : broker.Steady steady) :
    broker.logged.Steady fun state => steady state.1 where
  accepting state := h.accepting state.1
  sending state := h.sending state.1
  call state hstate call := by
    rw [after_logged]
    simp only [Broker.logged, h.call state.1 hstate call]
  after state hstate call := by
    rw [after_logged]
    exact h.after state.1 hstate call

end Broker

/-! ## Chunks -/

section Feed

variable {σ : Type} (broker : Broker σ)

/-- The chunks, one by one, until `handle` throws. -/
def feed : List Uint8List → ReactiveReadBuffer → σ → Handled σ
  | [], buffer, state => .returned buffer state
  | chunk :: chunks, buffer, state =>
    match handle broker chunk buffer state with
    | .returned buffer state => feed chunks buffer state
    | .threw e buffer state => .threw e buffer state

end Feed

/-- The positions behind the chunks, from a position on. -/
def cuts : ℕ → List Uint8List → List ℕ
  | _, [] => []
  | position, chunk :: chunks => (position + chunk.length) :: cuts (position + chunk.length) chunks

/-- The bytes of a list of frames. -/
def bytes (frames : List ReactiveFrame) : Uint8List := frames.flatMap ReactiveFrame.write

/-- Every cut, counted from the start of a frame, has the property for that frame; positions in
front of a frame count as its start. -/
def AllCuts (holds : ReactiveFrame → ℕ → Prop) : List ReactiveFrame → List ℕ → Prop
  | [], _ => True
  | frame :: frames, positions =>
    (∀ position ∈ positions, holds frame position) ∧
      AllCuts holds frames (positions.map (· - frame.write.length))

/-- Every frame stands for a call, and a SETUP frame meets a broker that is not activated. -/
def Orderly {σ : Type} (broker : Broker σ) : σ → List ReactiveFrame → Prop
  | _, [] => True
  | state, frame :: frames =>
    ∃ call, frame.call = some call ∧
      (frame.type = reactiveFrameSetup → broker.activated state = false) ∧
      Orderly broker (broker.after call state) frames

/-- The calls of a list of frames. -/
def callsOf (frames : List ReactiveFrame) : List BrokerCall := frames.filterMap ReactiveFrame.call

/-- The frames in chunks lead to the same calls as the frames at once, neither throws, and the same
bytes are left to read. -/
def ChunkingLaw {σ : Type} (broker : Broker σ) (state : σ) (frames : List ReactiveFrame)
    (chunks : List Uint8List) : Prop :=
  ∃ whole parts after calls,
    handle broker.logged (bytes frames) new (state, []) = .returned whole (after, calls) ∧
      feed broker.logged chunks new (state, []) = .returned parts (after, calls) ∧
      whole.unread = parts.unread

section Loop

variable {σ : Type} {broker : Broker σ} {steady : σ → Prop} (hbroker : broker.Steady steady)
include hbroker

variable {state : σ}

/-- The frames that are complete are taken one after the other. -/
theorem loop_frames {frames : List ReactiveFrame} (hfits : ∀ frame ∈ frames, frame.Fits)
    (hsteady : steady state) (horderly : Orderly broker state frames) (pre rest : Uint8List)
    (checkpoint : ℕ) :
    ∃ pre' checkpoint', loop broker (cursor pre (bytes frames ++ rest) checkpoint) state =
        loop broker (cursor pre' rest checkpoint') (broker.afterAll (callsOf frames) state) ∧
      steady (broker.afterAll (callsOf frames) state) := by
  induction frames generalizing state pre checkpoint with
  | nil => exact ⟨pre, checkpoint, rfl, hsteady⟩
  | cons frame frames ih =>
    obtain ⟨call, hcall, hact, horderly⟩ := horderly
    -- One turn reads the frame and drops it from the buffer.
    have hturn : turn broker (cursor pre (frame.write ++ (bytes frames ++ rest)) checkpoint) state =
        .next (cursor [] (bytes frames ++ rest) pre.length) (broker.after call state) :=
      ReactiveFrame.turn_of_returns pre checkpoint hcall (hfits frame (by simp))
        (hbroker.accepting state hsteady) hact (hbroker.call state hsteady call) _
    have hreadable :
        (cursor pre (frame.write ++ (bytes frames ++ rest)) checkpoint).isReadable := by
      rw [isReadable_cursor, ReactiveFrame.write_eq, ReactiveFrame.head]
      simp [ReactiveWriteBuffer.int32ToBytes, ByteString.toBytesBE]
    obtain ⟨pre', checkpoint', h, hsteady'⟩ :=
      ih (fun frame hframe => hfits frame (by simp [hframe]))
      (hbroker.after state hsteady call) horderly [] pre.length
    refine ⟨pre', checkpoint', ?_, ?_⟩
    · rw [bytes, flatMap_cons, append_assoc, ← bytes, loop_cursor, hreadable,
        hbroker.sending state hsteady, Bool.true_and, if_pos rfl, hturn]
      simp only [callsOf, filterMap_cons, hcall]
      exact h
    · simp only [callsOf, filterMap_cons, hcall]
      exact hsteady'

/-- A part of a frame in front of a safe cut stays in the buffer. -/
theorem loop_part {frame : ReactiveFrame} (hfits : frame.Fits) (hsteady : steady state)
    {pre part left : Uint8List} {checkpoint : ℕ} (hframe : frame.write = part ++ left)
    (hleft : left ≠ []) (hsafe : frame.CutSafe part.length) :
    ∃ pre' checkpoint', loop broker (cursor pre part checkpoint) state =
      .returned (cursor pre' part checkpoint') state := by
  rw [loop_cursor, hbroker.sending state hsteady, isReadable_cursor]
  cases part with
  | nil => exact ⟨[], 0, rfl⟩
  | cons b part =>
    rw [ReactiveFrame.turn_of_safe _ _ hfits (hbroker.accepting state hsteady) hframe hleft hsafe]
    exact ⟨pre, pre.length, rfl⟩

/-- A part of a frame in front of a cut that the responder does not notice makes it throw. -/
theorem loop_part_throws {frame : ReactiveFrame} (hfits : frame.Fits) (hsteady : steady state)
    (hact : frame.type = reactiveFrameSetup → broker.activated state = false)
    (pre : Uint8List) {part left : Uint8List} (checkpoint : ℕ)
    (hframe : frame.write = part ++ left) (hthrows : frame.CutThrows part.length) :
    ∃ e buffer, loop broker (cursor pre part checkpoint) state = .threw e buffer state := by
  obtain ⟨e, buffer, hturn⟩ := ReactiveFrame.turn_of_throws pre checkpoint hfits
    (hbroker.accepting state hsteady) hact hframe hthrows
  have hne : part ≠ [] := by
    rintro rfl
    cases frame <;> simp [ReactiveFrame.CutThrows] at hthrows
  rw [loop_cursor, hbroker.sending state hsteady, isReadable_cursor, hturn]
  cases part with
  | nil => exact absurd rfl hne
  | cons b part => exact ⟨e, buffer, rfl⟩

end Loop

/-! ## Where the cuts fall -/

/-- A part of the first of the frames: what a chunk leaves. -/
def PartOf (part : Uint8List) : List ReactiveFrame → Prop
  | [] => part = []
  | frame :: _ => part.length < frame.write.length

@[simp]
theorem bytes_cons (frame : ReactiveFrame) (frames : List ReactiveFrame) :
    bytes (frame :: frames) = frame.write ++ bytes frames := rfl

@[simp]
theorem bytes_append (front back : List ReactiveFrame) :
    bytes (front ++ back) = bytes front ++ bytes back := flatMap_append

variable {frames : List ReactiveFrame} {σ : Type} {broker : Broker σ} {state : σ}

/-- The bytes that have arrived are complete frames and a part of the next one. -/
theorem exists_complete {arrived rest : Uint8List} (h : arrived ++ rest = bytes frames) :
    ∃ done left part, frames = done ++ left ∧ arrived = bytes done ++ part ∧
      part ++ rest = bytes left ∧ PartOf part left := by
  induction frames generalizing arrived with
  | nil =>
    obtain ⟨rfl, rfl⟩ := append_eq_nil_iff.mp h
    exact ⟨[], [], [], rfl, rfl, rfl, rfl⟩
  | cons frame frames ih =>
    rcases lt_or_ge arrived.length frame.write.length with hlt | hge
    · exact ⟨[], frame :: frames, arrived, rfl, rfl, h, hlt⟩
    · obtain ⟨arrived, rfl, hrest⟩ := exists_append_of_length_le h.symm hge
      obtain ⟨done, left, part, rfl, rfl, hpart, hpartOf⟩ := ih hrest.symm
      exact ⟨frame :: done, left, part, rfl, by simp, hpart, hpartOf⟩

theorem cuts_add (offset position : ℕ) (chunks : List Uint8List) :
    cuts (offset + position) chunks = (cuts position chunks).map (offset + ·) := by
  induction chunks generalizing position with
  | nil => rfl
  | cons chunk chunks ih => rw [cuts, cuts, map_cons, Nat.add_assoc, ih]

section AllCuts

variable {holds : ReactiveFrame → ℕ → Prop} (hzero : ∀ frame, holds frame 0)
  (hbehind : ∀ frame cut, frame.write.length ≤ cut → holds frame cut)

theorem allCuts_append (front back : List ReactiveFrame) (positions : List ℕ) :
    AllCuts holds (front ++ back) positions ↔ AllCuts holds front positions ∧
      AllCuts holds back (positions.map (· - (bytes front).length)) := by
  induction front generalizing positions with
  | nil => simp [AllCuts, bytes]
  | cons frame front ih =>
    rw [cons_append, AllCuts, AllCuts, ih, and_assoc, map_map, bytes_cons,
      length_append]
    simp only [Function.comp_def, Nat.sub_sub]

theorem AllCuts.imp {weaker : ReactiveFrame → ℕ → Prop} {frames : List ReactiveFrame}
    {positions : List ℕ} (h : AllCuts holds frames positions)
    (himp : ∀ frame cut, holds frame cut → weaker frame cut) : AllCuts weaker frames positions := by
  induction frames generalizing positions with
  | nil => trivial
  | cons frame frames ih => exact ⟨fun position hmem => himp _ _ (h.1 position hmem), ih h.2⟩

include hbehind in
/-- Cuts behind the frames are of no concern. -/
theorem allCuts_behind (frames : List ReactiveFrame) {positions : List ℕ}
    (h : ∀ position ∈ positions, (bytes frames).length ≤ position) :
    AllCuts holds frames positions := by
  induction frames generalizing positions with
  | nil => trivial
  | cons frame frames ih =>
    rw [bytes_cons, length_append] at h
    refine ⟨fun position hpos => hbehind _ _ ?_, ih fun position hpos => ?_⟩
    · have := h position hpos
      omega
    · obtain ⟨behind, hbehind, rfl⟩ := mem_map.mp hpos
      have := h behind hbehind
      omega

include hzero in
/-- A cut at the start is of no concern. -/
theorem allCuts_zero_cons (frames : List ReactiveFrame) (positions : List ℕ) :
    AllCuts holds frames (0 :: positions) ↔ AllCuts holds frames positions := by
  induction frames generalizing positions with
  | nil => rfl
  | cons frame frames ih =>
    rw [AllCuts, AllCuts, map_cons, Nat.zero_sub, ih]
    simp [hzero]

include hzero hbehind in
/-- The first cut concerns the frame it falls into, and the others the frames from there on. -/
theorem allCuts_cuts {done left : List ReactiveFrame} {part : Uint8List} (hpart : PartOf part left)
    {position : ℕ} {chunk : Uint8List} {chunks : List Uint8List}
    (hpos : position + chunk.length = (bytes done).length + part.length) :
    AllCuts holds (done ++ left) (cuts position (chunk :: chunks)) ↔
      (∀ frame ∈ left.head?, holds frame part.length) ∧
        AllCuts holds left (cuts part.length chunks) := by
  have hshift (positions : List ℕ) :
      (positions.map ((bytes done).length + ·)).map (· - (bytes done).length) = positions := by
    simp [Function.comp_def]
  rw [allCuts_append, cuts, hpos, cuts_add, map_cons, hshift, Nat.add_sub_cancel_left]
  -- The chunk ends behind every frame that is done, and so do those after it.
  have hdone : AllCuts holds done
      (((bytes done).length + part.length) ::
        (cuts part.length chunks).map ((bytes done).length + ·)) := by
    refine allCuts_behind hbehind done fun position hmem => ?_
    rcases mem_cons.mp hmem with rfl | hmem
    · omega
    · obtain ⟨behind, -, rfl⟩ := mem_map.mp hmem
      omega
  rw [and_iff_right hdone]
  cases left with
  | nil => simp [AllCuts]
  | cons frame left =>
    have hsub : part.length - frame.write.length = 0 := Nat.sub_eq_zero_of_le (Nat.le_of_lt hpart)
    rw [AllCuts, AllCuts, map_cons, hsub, allCuts_zero_cons hzero]
    simp [and_assoc]

end AllCuts

/-! ## The chunking law -/

theorem cutSafe_zero (frame : ReactiveFrame) : frame.CutSafe 0 := by
  cases frame <;> simp [ReactiveFrame.CutSafe]

theorem cutSafe_behind (frame : ReactiveFrame) (cut : ℕ) (h : frame.write.length ≤ cut) :
    frame.CutSafe cut := by
  cases frame <;> simp [ReactiveFrame.CutSafe, h]

/-- A cut that is safe or makes the responder throw: all but the ones inside the payload of a SETUP
frame. -/
def ReactiveFrame.CutDecided (frame : ReactiveFrame) (cut : ℕ) : Prop :=
  frame.CutSafe cut ∨ frame.CutThrows cut

section Feed

variable {σ : Type} {broker : Broker σ}

theorem orderly_append {state : σ} {front back : List ReactiveFrame} :
    Orderly broker state (front ++ back) ↔
      Orderly broker state front ∧
        Orderly broker (broker.afterAll (callsOf front) state) back := by
  induction front generalizing state with
  | nil => simp [Orderly, callsOf, Broker.afterAll]
  | cons frame front ih =>
    rw [cons_append, Orderly, Orderly]
    constructor
    · rintro ⟨call, hcall, hact, horderly⟩
      obtain ⟨hfront, hback⟩ := ih.mp horderly
      refine ⟨⟨call, hcall, hact, hfront⟩, ?_⟩
      rwa [callsOf, filterMap_cons, hcall]
    · rintro ⟨⟨call, hcall, hact, hfront⟩, hback⟩
      rw [callsOf, filterMap_cons, hcall] at hback
      exact ⟨call, hcall, hact, ih.mpr ⟨hfront, hback⟩⟩

theorem afterAll_append (front back : List BrokerCall) (state : σ) :
    broker.afterAll (front ++ back) state =
      broker.afterAll back (broker.afterAll front state) := foldl_append

variable {steady : σ → Prop} (hbroker : broker.Steady steady)
include hbroker

/-- Between two chunks nothing is lost: with safe cuts only, the rest of the frames is taken, and
with one that is not the responder throws. -/
theorem feed_frames {chunks : List Uint8List} {frames : List ReactiveFrame} {part : Uint8List}
    {state : σ} (hbytes : part ++ chunks.flatten = bytes frames) (hpart : PartOf part frames)
    (hfits : ∀ frame ∈ frames, frame.Fits) (hsteady : steady state)
    (horderly : Orderly broker state frames)
    (hcuts : AllCuts ReactiveFrame.CutDecided frames (cuts part.length chunks))
    (pre : Uint8List) (checkpoint : ℕ) :
    (AllCuts ReactiveFrame.CutSafe frames (cuts part.length chunks) ∧
      ∃ buffer, feed broker chunks (cursor pre part checkpoint) state =
        .returned buffer (broker.afterAll (callsOf frames) state) ∧ buffer.unread = []) ∨
    (¬AllCuts ReactiveFrame.CutSafe frames (cuts part.length chunks) ∧
      ∃ e buffer state', feed broker chunks (cursor pre part checkpoint) state =
        .threw e buffer state') := by
  induction chunks generalizing frames part state pre checkpoint with
  | nil =>
    rw [flatten_nil, append_nil] at hbytes
    cases frames with
    | nil =>
      obtain rfl : part = [] := hpart
      exact .inl ⟨trivial, _, rfl, unread_cursor ..⟩
    | cons frame frames =>
      rw [PartOf, hbytes, bytes_cons, length_append] at hpart
      omega
  | cons chunk chunks ih =>
    rw [flatten_cons, ← append_assoc] at hbytes
    -- A chunk completes the frames of `done`, and leaves a part of the next one.
    obtain ⟨done, left, part', rfl, harrived, hrest, hpart'⟩ := exists_complete hbytes
    have hpos : part.length + chunk.length = (bytes done).length + part'.length := by
      rw [← length_append, harrived, length_append]
    have hsafe0 : ∀ frame : ReactiveFrame, frame.CutDecided 0 := fun frame =>
      .inl (cutSafe_zero frame)
    obtain ⟨hhead, htail⟩ := (allCuts_cuts hsafe0
      (fun frame cut h => .inl (cutSafe_behind frame cut h)) hpart' hpos).mp hcuts
    obtain ⟨horderlyDone, horderlyLeft⟩ := orderly_append.mp horderly
    obtain ⟨pre', checkpoint', hloop, hsteady'⟩ := loop_frames hbroker
      (fun frame h => hfits frame (by simp [h])) hsteady horderlyDone pre part' checkpoint
    have hhandle : handle broker chunk (cursor pre part checkpoint) state =
        loop broker (cursor pre' part' checkpoint')
          (broker.afterAll (callsOf done) state) := by
      rw [handle, hbroker.sending state hsteady, if_pos rfl, extend_cursor, harrived, hloop]
    rw [allCuts_cuts cutSafe_zero cutSafe_behind hpart' hpos]
    by_cases hsafe : ∀ frame ∈ left.head?, frame.CutSafe part'.length
    · -- The chunk ends behind a frame, or at a cut that the responder notices.
      obtain ⟨pre'', checkpoint'', hreturned⟩ : ∃ pre'' checkpoint'',
          loop broker (cursor pre' part' checkpoint') (broker.afterAll (callsOf done) state) =
            .returned (cursor pre'' part' checkpoint'')
              (broker.afterAll (callsOf done) state) := by
        cases left with
        | nil =>
          obtain rfl : part' = [] := hpart'
          exact ⟨[], 0, by rw [loop_cursor, isReadable_cursor]; rfl⟩
        | cons frame left =>
          obtain ⟨missing, hframe, -⟩ := exists_append_of_length_le hrest (Nat.le_of_lt hpart')
          refine loop_part hbroker (hfits frame (by simp)) hsteady' hframe ?_ (hsafe frame rfl)
          rintro rfl
          rw [append_nil] at hframe
          rw [PartOf, hframe] at hpart'
          exact lt_irrefl _ hpart'
      have hnext := ih hrest hpart' (fun frame h => hfits frame (by simp [h])) hsteady'
        horderlyLeft htail pre'' checkpoint''
      have hcalls : callsOf (done ++ left) = callsOf done ++ callsOf left := filterMap_append
      rw [feed, hhandle, hreturned, hcalls, afterAll_append]
      simpa only [and_iff_right hsafe] using hnext
    · -- The chunk ends where it does not.
      rw [not_forall₂] at hsafe
      obtain ⟨frame, hframe, hlost⟩ := hsafe
      obtain ⟨left, rfl⟩ : ∃ tail, left = frame :: tail := by
        cases left with
        | nil => cases hframe
        | cons head tail => exact ⟨tail, by rw [Option.mem_some.mp hframe]⟩
      obtain ⟨missing, hwrite, -⟩ := exists_append_of_length_le hrest (Nat.le_of_lt hpart')
      obtain ⟨call, -, hact, -⟩ := horderlyLeft
      obtain ⟨e, buffer, hthrew⟩ := loop_part_throws hbroker (hfits frame (by simp)) hsteady'
        hact pre' checkpoint' hwrite
        ((hhead frame rfl).resolve_left hlost)
      refine .inr ⟨fun hall => hlost (hall.1 frame rfl), e, buffer,
        broker.afterAll (callsOf done) state, ?_⟩
      rw [feed, hhandle, hthrew]

end Feed

theorem orderly_logged (calls : List BrokerCall) :
    Orderly broker.logged (state, calls) frames ↔ Orderly broker state frames := by
  induction frames generalizing state calls with
  | nil => rfl
  | cons frame frames ih =>
    rw [Orderly, Orderly]
    simp only [Broker.after_logged, ih]
    rfl

/-- The frames at once, and the frames in chunks, from a fresh buffer. -/
theorem chunkingLaw_iff_safe {steady : σ → Prop} (hbroker : broker.Steady steady)
    (hsteady : steady state) (hfits : ∀ frame ∈ frames, frame.Fits)
    (horderly : Orderly broker state frames) {chunks : List Uint8List}
    (hchunks : chunks.flatten = bytes frames)
    (hcuts : AllCuts ReactiveFrame.CutDecided frames (cuts 0 chunks)) :
    ChunkingLaw broker state frames chunks ↔
      AllCuts ReactiveFrame.CutSafe frames (cuts 0 chunks) := by
  have hpart : PartOf [] frames := by
    cases frames with
    | nil => rfl
    | cons frame frames => rw [PartOf, ReactiveFrame.length_write, length_nil]; omega
  have horderly' := (orderly_logged []).mpr horderly
  -- All the bytes in one chunk: the only cut is behind every frame.
  have hwhole : AllCuts ReactiveFrame.CutSafe frames (cuts 0 [bytes frames]) :=
    allCuts_behind cutSafe_behind frames (by simp [cuts])
  have hwholeDec : AllCuts ReactiveFrame.CutDecided frames (cuts 0 [bytes frames]) :=
    allCuts_behind (fun frame cut h => .inl (cutSafe_behind frame cut h)) frames (by simp [cuts])
  have hbytes : [] ++ [bytes frames].flatten = bytes frames := by simp
  obtain ⟨-, whole, hreturned, hunread⟩ :=
    (feed_frames hbroker.logged hbytes hpart hfits hsteady horderly' hwholeDec [] 0).resolve_right
      fun h => h.1 hwhole
  rw [Broker.afterAll_logged] at hreturned
  have hhandle : handle broker.logged (bytes frames) new (state, []) =
      .returned whole (broker.afterAll (callsOf frames) state, callsOf frames) := by
    rw [feed] at hreturned
    cases h : handle broker.logged (bytes frames) (cursor [] [] 0) (state, []) with
    | returned buffer state' =>
      rw [h] at hreturned
      rw [new_eq_cursor, h]
      simpa [feed] using hreturned
    | threw e buffer state' => rw [h] at hreturned; cases hreturned
  rcases feed_frames hbroker.logged (show [] ++ chunks.flatten = _ from hchunks) hpart hfits hsteady
    horderly' hcuts [] 0 with ⟨hsafe, parts, hparts, hunread'⟩ | ⟨hlost, e, buffer, state', hthrew⟩
  · rw [Broker.afterAll_logged] at hparts
    exact iff_of_true ⟨whole, parts, _, _, hhandle, hparts, hunread.trans hunread'.symm⟩ hsafe
  · refine iff_of_false ?_ hlost
    rintro ⟨_, _, _, _, -, hparts, -⟩
    rw [new_eq_cursor, hthrew] at hparts
    cases hparts

/-- However the frames are split, for every broker that works throughout. -/
def ChunkingIndependent (frames : List ReactiveFrame) : Prop :=
  ∀ (σ : Type) (broker : Broker σ) (steady : σ → Prop), broker.Steady steady →
    ∀ state, steady state → ∀ chunks : List Uint8List, (∀ chunk ∈ chunks, chunk ≠ []) →
      chunks.flatten = bytes frames → ChunkingLaw broker state frames chunks

/-- Every cut into the frame is safe. -/
def ReactiveFrame.AlwaysSafe : ReactiveFrame → Prop
  | .setup .. => False
  | .requestChannel _ _ content => encodePayload content = []
  | _ => True

theorem cutSafe_of_alwaysSafe {frame : ReactiveFrame} (h : frame.AlwaysSafe) (cut : ℕ) :
    frame.CutSafe cut := by
  cases frame with
  | setup => exact h.elim
  | requestChannel streamId count content =>
    have hnil : encodePayload content = [] := h
    rw [ReactiveFrame.CutSafe, ReactiveFrame.length_write, ReactiveFrame.body, hnil]
    simp
    omega
  | lease | keepAlive | requestN | payload | cancel | error => trivial

/-- Some cut into any other frame makes the responder throw. -/
theorem exists_cutThrows {frame : ReactiveFrame} (h : ¬frame.AlwaysSafe) :
    ∃ cut, 0 < cut ∧ cut < frame.write.length ∧ frame.CutThrows cut := by
  cases frame with
  | setup interval lifetime metadataMimeType dataMimeType leaseEnable content =>
    have hpos := length_pos_iff.mpr (setupBody_ne_nil interval lifetime metadataMimeType
      dataMimeType content)
    refine ⟨9, by decide, ?_, le_refl 9, by omega⟩
    rw [ReactiveFrame.length_write, ReactiveFrame.body]
    omega
  | requestChannel streamId count content =>
    have hpos := length_pos_iff.mpr h
    have hlen : 13 < (ReactiveFrame.requestChannel streamId count content).write.length := by
      simp only [ReactiveFrame.length_write, ReactiveFrame.body, length_append,
        length_int32ToBytes]
      omega
    exact ⟨13, by decide, hlen, le_refl 13, hlen⟩
  | lease | keepAlive | requestN | payload | cancel | error => exact absurd trivial h

theorem orderly_of_alwaysSafe (h : ∀ frame ∈ frames, frame.AlwaysSafe) :
    Orderly broker state frames := by
  induction frames generalizing state with
  | nil => trivial
  | cons frame frames ih =>
    have hrest (call : BrokerCall) : Orderly broker (broker.after call state) frames :=
      ih fun frame hframe => h frame (by simp [hframe])
    cases frame with
    | setup => exact absurd (h _ mem_cons_self) id
    | lease | keepAlive | requestN | requestChannel | payload | cancel | error =>
      exact ⟨_, rfl, nofun, hrest _⟩

theorem allCuts_of_forall {holds : ReactiveFrame → ℕ → Prop}
    (h : ∀ frame ∈ frames, ∀ cut, holds frame cut) (positions : List ℕ) :
    AllCuts holds frames positions := by
  induction frames generalizing positions with
  | nil => trivial
  | cons frame frames ih =>
    exact ⟨fun position _ => h frame (by simp) position,
      ih (fun frame hframe => h frame (by simp [hframe])) _⟩

/-- The first frame without a property. -/
theorem exists_first_not {property : ReactiveFrame → Prop} (h : ¬∀ frame ∈ frames, property frame) :
    ∃ before frame after, frames = before ++ frame :: after ∧
      (∀ frame ∈ before, property frame) ∧ ¬property frame := by
  induction frames with
  | nil => exact absurd (by simp) h
  | cons frame frames ih =>
    by_cases hframe : property frame
    · obtain ⟨before, first, after, rfl, hbefore, hfirst⟩ := ih fun hall =>
        h (forall_mem_cons.mpr ⟨hframe, hall⟩)
      exact ⟨frame :: before, first, after, rfl, forall_mem_cons.mpr ⟨hframe, hbefore⟩, hfirst⟩
    · exact ⟨[], frame, frames, rfl, by simp, hframe⟩

theorem idleBroker_steady : idleBroker.Steady fun _ => True :=
  ⟨fun _ _ => rfl, fun _ _ => rfl, fun _ _ _ => rfl, fun _ _ _ => trivial⟩

/-- A frame that is not always safe can be split so that the responder throws, wherever it
stands. -/
theorem not_chunkingIndependent (hfits : ∀ frame ∈ frames, frame.Fits)
    (h : ¬∀ frame ∈ frames, frame.AlwaysSafe) : ¬ChunkingIndependent frames := by
  obtain ⟨before, frame, after, rfl, hbefore, hframe⟩ := exists_first_not h
  obtain ⟨cut, hpos, hcut, hthrows⟩ := exists_cutThrows hframe
  obtain ⟨part, left, hwrite, hpart⟩ : ∃ part left, frame.write = part ++ left ∧
      part.length = cut :=
    ⟨frame.write.take cut, frame.write.drop cut, (take_append_drop ..).symm, by
      rw [length_take]; omega⟩
  have hlen := congrArg List.length hwrite
  rw [length_append, hpart] at hlen
  have hsteady : idleBroker.logged.Steady fun _ => True := idleBroker_steady.logged
  intro hindependent
  -- Two chunks, with the cut in the first frame that is not always safe.
  obtain ⟨_, _, _, _, -, hparts, -⟩ := hindependent Unit idleBroker (fun _ => True)
    idleBroker_steady () trivial [bytes before ++ part, left ++ bytes after] (by
      have hpart' : part ≠ [] := length_pos_iff.mp (by omega)
      have hleft' : left ≠ [] := length_pos_iff.mp (by omega)
      simp [hpart', hleft']) (by simp [hwrite])
  have horderly : Orderly idleBroker.logged ((), []) before := orderly_of_alwaysSafe hbefore
  obtain ⟨pre, checkpoint, hloop, -⟩ := loop_frames hsteady
    (fun frame h => hfits frame (by simp [h])) trivial horderly [] part 0
  have hact : frame.type = reactiveFrameSetup → idleBroker.logged.activated
      (idleBroker.logged.afterAll (callsOf before) ((), [])) = false := fun _ => rfl
  obtain ⟨e, buffer, hthrew⟩ := loop_part_throws hsteady (hfits frame (by simp)) trivial hact
    pre checkpoint hwrite (hpart ▸ hthrows)
  have hhandle : handle idleBroker.logged (bytes before ++ part) new ((), []) =
      .threw e buffer (idleBroker.logged.afterAll (callsOf before) ((), [])) := by
    have hsend : idleBroker.logged.sending ((), []) = true := rfl
    rw [handle, if_pos hsend, new_eq_cursor, extend_cursor, nil_append, hloop, hthrew]
  rw [feed, hhandle] at hparts
  cases hparts

/-- **Frames may be split anywhere exactly when none is a SETUP frame or a REQUEST_CHANNEL frame
with a payload.** For the other lists it depends on the splitting: it does no harm when no chunk
ends inside the body of a SETUP frame or the payload of a REQUEST_CHANNEL frame; it makes the
responder throw when one does, but for the payload of a SETUP frame. -/
theorem chunkingIndependent_iff (frames : List ReactiveFrame)
    (hfits : ∀ frame ∈ frames, frame.Fits) :
    (ChunkingIndependent frames ↔ ∀ frame ∈ frames, frame.AlwaysSafe) ∧
    ∀ (σ : Type) (broker : Broker σ) (steady : σ → Prop), broker.Steady steady →
      ∀ state, steady state → ∀ chunks : List Uint8List, chunks.flatten = bytes frames →
        Orderly broker state frames →
          (AllCuts ReactiveFrame.CutSafe frames (cuts 0 chunks) →
            ChunkingLaw broker state frames chunks) ∧
          (AllCuts ReactiveFrame.CutDecided frames (cuts 0 chunks) →
            ¬AllCuts ReactiveFrame.CutSafe frames (cuts 0 chunks) →
              ¬ChunkingLaw broker state frames chunks) := by
  refine ⟨⟨fun h => not_not.mp fun hnot => not_chunkingIndependent hfits hnot h, ?_⟩, ?_⟩
  · intro h σ broker steady hbroker state hsteady chunks _ hchunks
    have hsafe := allCuts_of_forall (fun frame hframe => cutSafe_of_alwaysSafe (h frame hframe))
      (cuts 0 chunks)
    have hdecided : AllCuts ReactiveFrame.CutDecided frames (cuts 0 chunks) :=
      hsafe.imp fun _ _ => Or.inl
    exact (chunkingLaw_iff_safe hbroker hsteady hfits (orderly_of_alwaysSafe h) hchunks
      hdecided).mpr hsafe
  · intro σ broker steady hbroker state hsteady chunks hchunks horderly
    refine ⟨fun hsafe => ?_, fun hdecided hlost hlaw => hlost ?_⟩
    · have hdecided : AllCuts ReactiveFrame.CutDecided frames (cuts 0 chunks) :=
        hsafe.imp fun _ _ => Or.inl
      exact (chunkingLaw_iff_safe hbroker hsteady hfits horderly hchunks hdecided).mpr hsafe
    · exact (chunkingLaw_iff_safe hbroker hsteady hfits horderly hchunks hdecided).mp hlaw

/-- Two frames that may be split anywhere. -/
theorem chunkingIndependent_iff_cancel :
    (∀ frame ∈ [ReactiveFrame.cancel 1, .requestN 1 5], frame.Fits) ∧
      ChunkingIndependent [.cancel 1, .requestN 1 5] :=
  ⟨by decide, (chunkingIndependent_iff [.cancel 1, .requestN 1 5] (by decide)).1.mpr
    (List.forall_mem_cons.mpr ⟨trivial, List.forall_mem_cons.mpr ⟨trivial, by simp⟩⟩)⟩

/-- A REQUEST_CHANNEL frame with one byte of data may not. -/
theorem not_chunkingIndependent_requestChannel :
    ¬ChunkingIndependent [.requestChannel 1 1 ⟨[], [7]⟩] :=
  not_chunkingIndependent (by decide) fun h =>
    List.cons_ne_nil 7 [] (h (.requestChannel 1 1 ⟨[], [7]⟩) List.mem_cons_self)

end FengShui.Reactive
