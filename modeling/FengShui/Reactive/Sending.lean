import FengShui.Reactive.RequesterInvariants

/-!
# What the frames of a requester make

`Reassembly` is what the peer makes of PAYLOAD frames, without the peer: payloads, and the fragments
of one that is not complete. What the frames handed over make, the fragments that are still to be
sent, the frames in the buffer and the queue are always the payloads that were scheduled, in their
order (`Delivers`); from the step on that closes the requester, or stops it, they are a prefix.
-/

namespace FengShui.Reactive

open List

/-- A payload that the peer passes on, or none. -/
def content (bytes : Uint8List) : List Uint8List := if bytes = [] then [] else [bytes]

/-- The payloads that are complete, and the fragments of the next. -/
structure Reassembly where
  payloads : List Uint8List
  fragments : List Uint8List

namespace Reassembly

/-- A PAYLOAD frame. One without data is not passed on. -/
def take (reassembly : Reassembly) : OutFrame → Reassembly
  | .payload data _ follow _ =>
    if data = [] then reassembly
    else if follow then { reassembly with fragments := reassembly.fragments ++ [data] }
    else ⟨reassembly.payloads ++ [(reassembly.fragments ++ [data]).flatten], []⟩
  | .other _ => reassembly

def takeAll (reassembly : Reassembly) (frames : List OutFrame) : Reassembly :=
  frames.foldl take reassembly

/-- What frames make from the start. -/
def ofFrames : List OutFrame → Reassembly := takeAll ⟨[], []⟩

theorem ofFrames_append (front back : List OutFrame) :
    ofFrames (front ++ back) = (ofFrames front).takeAll back := foldl_append

/-- More frames make more payloads. -/
theorem prefix_takeAll (reassembly : Reassembly) (frames : List OutFrame) :
    reassembly.payloads <+: (reassembly.takeAll frames).payloads := by
  induction frames generalizing reassembly with
  | nil => exact prefix_refl _
  | cons frame frames ih =>
    have hframe : reassembly.payloads <+: (reassembly.take frame).payloads := by
      unfold take
      split
      · split_ifs
        · exact prefix_refl _
        · exact prefix_refl _
        · exact prefix_append _ _
      · exact prefix_refl _
    exact hframe.trans (ih _)

/-- The data of a frame that is a whole payload. -/
def whole : OutFrame → List Uint8List
  | .payload data _ _ _ => content data
  | .other _ => []

/-- A frame of a payload that is sent whole. -/
def IsWhole : OutFrame → Prop
  | .payload _ _ follow _ => follow = false
  | .other _ => False

theorem takeAll_whole {payloads : List Uint8List} {frames : List OutFrame}
    (h : ∀ frame ∈ frames, IsWhole frame) :
    takeAll ⟨payloads, []⟩ frames = ⟨payloads ++ frames.flatMap whole, []⟩ := by
  induction frames generalizing payloads with
  | nil => simp [takeAll]
  | cons frame frames ih =>
    have hrest := fun payloads => @ih payloads fun frame hmem =>
      h frame (mem_cons_of_mem _ hmem)
    have hframe : take ⟨payloads, []⟩ frame = ⟨payloads ++ whole frame, []⟩ := by
      have hwhole := h frame mem_cons_self
      cases frame with
      | other => exact hwhole.elim
      | payload data completed follow starts =>
        obtain rfl : follow = false := hwhole
        by_cases hdata : data = []
        · simp [take, whole, content, hdata]
        · simp [take, whole, content, hdata]
    rw [takeAll, foldl_cons, hframe, ← takeAll, hrest, flatMap_cons, append_assoc]

open ReactiveRequester

variable {fragments : List Uint8List}

/-- Fragments behind which more follow. -/
theorem takeAll_fragmentFrames_more (reassembly : Reassembly) (last starts : Bool)
    (chunks index : ℕ) (h : ∀ fragment ∈ fragments, fragment ≠ []) :
    reassembly.takeAll (fragmentFrames true last chunks starts index fragments) =
      { reassembly with fragments := reassembly.fragments ++ fragments } := by
  induction fragments generalizing reassembly starts with
  | nil => simp [fragmentFrames, takeAll]
  | cons fragment fragments ih =>
    have hne := h fragment mem_cons_self
    have hrest := fun reassembly starts => ih reassembly starts fun fragment hmem =>
      h fragment (mem_cons_of_mem _ hmem)
    rw [fragmentFrames, takeAll, foldl_cons, ← takeAll]
    simp only [if_true, Bool.true_or]
    rw [hrest, take, if_neg hne]
    simp

/-- The last fragments complete the payload. -/
theorem takeAll_fragmentFrames_last (reassembly : Reassembly) (last starts : Bool) {chunks : ℕ}
    {index : ℕ} (h : ∀ fragment ∈ fragments, fragment ≠ []) (hne : fragments ≠ [])
    (hchunks : index + fragments.length = chunks) :
    reassembly.takeAll (fragmentFrames false last chunks starts index fragments) =
      ⟨reassembly.payloads ++ [(reassembly.fragments ++ fragments).flatten], []⟩ := by
  induction fragments generalizing reassembly starts index with
  | nil => exact absurd rfl hne
  | cons fragment fragments ih =>
    have hfrag := h fragment mem_cons_self
    rw [fragmentFrames, takeAll, foldl_cons, ← takeAll]
    simp only [Bool.false_eq_true, if_false, Bool.false_or]
    -- FOLLOW stands on every fragment but the one that makes up the count.
    cases fragments with
    | nil =>
      rw [length_singleton] at hchunks
      have hlast : decide (index + 1 ≠ chunks) = false := by simpa using hchunks
      rw [hlast, take, if_neg hfrag]
      simp [fragmentFrames, takeAll]
    | cons next fragments =>
      rw [length_cons] at hchunks
      have hfollow : decide (index + 1 ≠ chunks) = true := by
        rw [length_cons] at hchunks
        simp
        omega
      rw [hfollow, take, if_neg hfrag]
      simp only [if_true]
      rw [ih _ _ (fun fragment hmem => h fragment (mem_cons_of_mem _ hmem))
        (cons_ne_nil _ _) (by omega)]
      simp

end Reassembly

/-- Up to `2 ^ 53` bytes, no fragment is empty. -/
theorem ne_nil_of_disassemble {payload : Uint8List} {size : ℕ} {fragments : List Uint8List}
    (h : ReactiveAssembler.disassemble payload size = .ok fragments)
    (hlen : payload.length ≤ 2 ^ 53)
    {fragment : Uint8List} (hmem : fragment ∈ fragments) : fragment ≠ [] := by
  obtain ⟨count, hcount, hfrags⟩ := disassemble_eq_ok h
  have hsize : 0 < size := by
    by_contra hzero
    rw [ReactiveAssembler.disassemble, if_pos (by omega)] at h
    cases h
  have hslots := fragmentSlots_of_dvd hsize ⟨count, by rw [hcount, Nat.mul_comm]⟩ hlen
  rw [hslots, hcount, Nat.mul_div_cancel count hsize, Nat.sub_self, replicate_zero,
    append_nil] at hfrags
  rw [hfrags] at hmem
  have hpiece := length_of_mem_pieces hcount hmem
  rintro rfl
  rw [length_nil] at hpiece
  omega

namespace ReactiveRequester

open Reassembly

/-- The fragments that are still to be sent. -/
def current (requester : ReactiveRequester) : List Uint8List :=
  if requester.callbacks = [] then [] else requester.currentFragments

/-- What the peer gets of the frames handed over, of the fragments that follow and of the frames in
the buffer. -/
def made (requester : ReactiveRequester) : List Uint8List :=
  (ofFrames requester.handed).payloads ++
    content ((ofFrames requester.handed).fragments ++ requester.current).flatten ++
      requester.held.flatMap whole

/-- What it gets of the queue. -/
def queuedPayloads (requester : ReactiveRequester) : List Uint8List :=
  requester.subscription.events.flatMap fun payload => content payload.bytes

/-- The requester goes on sending: it is not stopped, and it did not fail to cut a payload. -/
def Flowing (requester : ReactiveRequester) : Prop :=
  requester.sending = true ∧ (requester.fragmenting = true → requester.callbacks ≠ [])

/-- What was scheduled is on its way. -/
structure Delivers (scheduled : List Uint8List) (requester : ReactiveRequester) : Prop where
  held : ∀ frame ∈ requester.held, IsWhole frame
  events : ∀ payload ∈ requester.subscription.events,
    payload.frame = false ∧ payload.bytes.length ≤ 2 ^ 53
  nonempty : ∀ fragment ∈ requester.current, fragment ≠ []
  complete : requester.current = [] → (ofFrames requester.handed).fragments = []
  made : requester.made <+: scheduled
  flowing : Flowing requester → requester.made ++ requester.queuedPayloads <+: scheduled
  accepting : Flowing requester → requester.accepting = true →
    requester.made ++ requester.queuedPayloads = scheduled

variable {streamId : ℤ} {configuration : ReactiveChannelConfiguration} {scheduled : List Uint8List}
  {requester next : ReactiveRequester} {action : RequesterAction}

theorem delivers_new (chunkSize : ℕ) : Delivers [] (new chunkSize) where
  held _ hmem := by cases hmem
  events _ hmem := by cases hmem
  nonempty _ hmem := by cases hmem
  complete _ := rfl
  made := prefix_refl _
  flowing _ := prefix_refl _
  accepting _ _ := rfl

/-- A step that moves nothing between the queue and the rest. -/
theorem Delivers.of_made (h : Delivers scheduled requester) (hmade : next.made = requester.made)
    (hheld : ∀ frame ∈ next.held, IsWhole frame)
    (hnonempty : ∀ fragment ∈ next.current, fragment ≠ [])
    (hcomplete : next.current = [] → (ofFrames next.handed).fragments = [])
    (hev : next.subscription.events = requester.subscription.events)
    (hflowing : Flowing next → Flowing requester)
    (haccepting : next.accepting = true → requester.accepting = true) :
    Delivers scheduled next := by
  have hqueued : next.queuedPayloads = requester.queuedPayloads := by
    unfold queuedPayloads
    rw [hev]
  exact {
    held := hheld
    events := by rw [hev]; exact h.events
    nonempty := hnonempty
    complete := hcomplete
    made := by rw [hmade]; exact h.made
    flowing := by rw [hmade, hqueued]; exact fun hnext => h.flowing (hflowing hnext)
    accepting := by
      rw [hmade, hqueued]
      exact fun hnext hacc => h.accepting (hflowing hnext) (haccepting hacc) }

/-- A step that changes nothing of this. -/
theorem Delivers.of_eq (h : Delivers scheduled requester) (hhand : next.handed = requester.handed)
    (hheld : next.held = requester.held) (hcur : next.current = requester.current)
    (hev : next.subscription.events = requester.subscription.events)
    (hflowing : Flowing next → Flowing requester)
    (hacc : next.accepting = true → requester.accepting = true) : Delivers scheduled next := by
  refine h.of_made ?_ (hheld ▸ h.held) (hcur ▸ h.nonempty) ?_ hev hflowing hacc
  · unfold ReactiveRequester.made
    rw [hhand, hheld, hcur]
  · rw [hcur, hhand]
    exact h.complete

/-- What is in the buffer when no payload is being cut. -/
theorem Delivers.made_of_nil (h : Delivers scheduled requester) (hnone : requester.current = []) :
    requester.made =
      (ofFrames requester.handed).payloads ++ requester.held.flatMap whole := by
  unfold ReactiveRequester.made
  rw [hnone, h.complete hnone]
  simp [content]

/-- The payloads that are complete when the buffer is handed over as well. -/
theorem Delivers.ofFrames_held (h : Delivers scheduled requester) (hnone : requester.current = []) :
    ofFrames (requester.handed ++ requester.held) = ⟨requester.made, []⟩ := by
  have hstart : ofFrames requester.handed = ⟨(ofFrames requester.handed).payloads, []⟩ := by
    rw [← h.complete hnone]
  rw [ofFrames_append, hstart, takeAll_whole h.held, h.made_of_nil hnone]

/-- A round of fragments changes nothing: what it hands over is no longer to be sent. -/
theorem made_fragmentate (streamId : ℤ) (configuration : ReactiveChannelConfiguration)
    (requester : ReactiveRequester) (hheld : requester.held = [])
    (hne : requester.currentFragments ≠ [])
    (hnonempty : ∀ fragment ∈ requester.currentFragments, fragment ≠ [])
    (hcount : requester.currentFragmentNumber + requester.currentFragments.length =
      requester.currentFragmentsCount) :
    (fragmentate streamId configuration requester).made =
        (ofFrames requester.handed).payloads ++
          content ((ofFrames requester.handed).fragments ++ requester.currentFragments).flatten ∧
      ((fragmentate streamId configuration requester).current = [] →
        (ofFrames (fragmentate streamId configuration requester).handed).fragments = []) ∧
      ∀ fragment ∈ (fragmentate streamId configuration requester).current, fragment ≠ [] := by
  -- A round hands over `chunksLimit` fragments at most, and the others stay.
  have hcur : (fragmentate streamId configuration requester).current =
      requester.currentFragments.drop
        (min configuration.chunksLimit requester.currentFragments.length) := by
    rw [fragmentate_eq, current, if_neg (by simp)]
  have hhand : ofFrames (fragmentate streamId configuration requester).handed =
      (ofFrames requester.handed).takeAll (requester.roundFrames configuration) := by
    rw [fragmentate_eq, hheld, nil_append, ofFrames_append]
  have hheld' : (fragmentate streamId configuration requester).held = [] := by rw [fragmentate_eq]
  have htaken : ∀ fragment ∈ requester.currentFragments.take
      (min configuration.chunksLimit requester.currentFragments.length), fragment ≠ [] :=
    fun fragment hmem => hnonempty fragment (mem_of_mem_take hmem)
  have hleft : ∀ fragment ∈ (fragmentate streamId configuration requester).current,
      fragment ≠ [] := by
    rw [hcur]
    exact fun fragment hmem => hnonempty fragment (mem_of_mem_drop hmem)
  rw [← and_assoc, and_iff_left hleft]
  unfold made
  rw [hcur, hhand, hheld']
  unfold roundFrames
  dsimp only
  by_cases hmore : configuration.chunksLimit < requester.currentFragments.length
  · -- Further rounds follow.
    rw [Nat.min_eq_left hmore.le] at htaken ⊢
    have hdecide : decide (requester.currentFragmentNumber + configuration.chunksLimit <
        requester.currentFragmentsCount) = true := by
      rw [decide_eq_true_eq]
      omega
    rw [hdecide, takeAll_fragmentFrames_more _ _ _ _ _ htaken]
    refine ⟨by simp, fun hnil => ?_⟩
    have hlen := congrArg List.length hnil
    rw [length_drop, length_nil] at hlen
    omega
  -- The last round: the peer has the payload when it has these.
  · rw [Nat.min_eq_right (by omega)] at htaken ⊢
    have hdecide : decide (requester.currentFragmentNumber + requester.currentFragments.length <
        requester.currentFragmentsCount) = false := by
      rw [decide_eq_false_iff_not]
      omega
    rw [take_length] at htaken ⊢
    rw [hdecide, takeAll_fragmentFrames_last _ _ _ htaken hne (Nat.zero_add _)]
    have hcont : content ((ofFrames requester.handed).fragments ++
        requester.currentFragments).flatten =
        [((ofFrames requester.handed).fragments ++ requester.currentFragments).flatten] := by
      -- Fragments are not empty, so neither is what they make up.
      refine if_neg fun hnil => ?_
      obtain ⟨fragment, fragments, hfrags⟩ := exists_cons_of_ne_nil hne
      rw [flatten_eq_nil_iff] at hnil
      exact hnonempty fragment (by simp [hfrags]) (hnil fragment (by simp [hfrags]))
    rw [hcont]
    simp [content]

/-- A payload that comes when nothing is accepted. -/
theorem Delivers.of_refused (h : Delivers scheduled requester)
    (haccepting : requester.accepting = false)
    (more : List Uint8List) : Delivers (scheduled ++ more) requester :=
  { h with
    made := h.made.trans (prefix_append _ _)
    flowing := fun hflowing => (h.flowing hflowing).trans (prefix_append _ _)
    accepting := fun _ hacc => by
      rw [haccepting] at hacc
      cases hacc }

/-- A step behind which nothing more is taken. -/
theorem Delivers.of_stopped (h : Delivers scheduled requester)
    (hhand : next.handed = requester.handed) (hheld : next.held = requester.held ∨ next.held = [])
    (hcur : next.current = requester.current)
    (hev : ∀ payload ∈ next.subscription.events, payload ∈ requester.subscription.events)
    (hstopped : ¬Flowing next) : Delivers scheduled next := by
  -- A close drops what is held, so what is made may get shorter.
  have hmade : next.made <+: requester.made := by
    unfold ReactiveRequester.made
    rw [hhand, hcur]
    rcases hheld with hheld | hheld
    · rw [hheld]
    · rw [hheld, flatMap_nil, append_nil]
      exact prefix_append _ _
  exact {
    held := by
      rcases hheld with hheld | hheld
      · rw [hheld]
        exact h.held
      · rw [hheld]
        exact nofun
    events := fun payload hmem => h.events payload (hev payload hmem)
    nonempty := by rw [hcur]; exact h.nonempty
    complete := by rw [hcur, hhand]; exact h.complete
    made := hmade.trans h.made
    flowing := fun hflowing => absurd hflowing hstopped
    accepting := fun hflowing => absurd hflowing hstopped }

variable {payload : ReactivePendingPayload} {rest : Subscription ReactivePendingPayload} {limit : ℕ}

/-- A payload that is taken out of the queue is sent, cut or held. -/
theorem Delivers.of_taken (h : Delivers scheduled requester) (hsound : Sound streamId requester)
    (hnext : requester.subscription.next? = some (payload, rest))
    (hsend : requester.sending = true)
    (hmade : next.made = requester.made ++ content payload.bytes)
    (hheld : ∀ frame ∈ next.held, IsWhole frame)
    (hnonempty : ∀ fragment ∈ next.current, fragment ≠ [])
    (hcomplete : next.current = [] → (ofFrames next.handed).fragments = [])
    (hev : next.subscription.events = rest.events ∨ next.subscription.events = [] ∧ ¬Flowing next)
    (haccepting : next.accepting = true → requester.accepting = true) :
    Delivers scheduled next := by
  obtain ⟨-, -, hqueue, -, -⟩ := Subscription.next?_eq_some.mp hnext
  obtain ⟨-, -, hidle, -⟩ := hsound.rounds.idle hnext
  have hflowing : Flowing requester := ⟨hsend, by rw [hidle]; exact nofun⟩
  -- Taking a payload moves its content from the end of the queue to what is made.
  have hqueued : requester.made ++ requester.queuedPayloads =
      next.made ++ rest.events.flatMap fun payload => content payload.bytes := by
    rw [hmade, queuedPayloads, hqueue, flatMap_cons, append_assoc]
  have hall := h.flowing hflowing
  rw [hqueued] at hall
  -- A payload that completes closes the subscription, and with it what is queued.
  have hrest : Flowing next → next.queuedPayloads =
      rest.events.flatMap fun payload => content payload.bytes := by
    intro hnextFlowing
    rcases hev with hev | ⟨-, hstopped⟩
    · rw [queuedPayloads, hev]
    · exact absurd hnextFlowing hstopped
  exact {
    held := hheld
    events := fun other hmem => by
      rcases hev with hev | ⟨hev, -⟩
      · rw [hev] at hmem
        exact h.events other (by rw [hqueue]; exact mem_cons_of_mem _ hmem)
      · rw [hev] at hmem
        cases hmem
    nonempty := hnonempty
    complete := hcomplete
    made := (prefix_append _ _).trans hall
    flowing := fun hnextFlowing => by
      rw [hrest hnextFlowing]
      exact hall
    accepting := fun hnextFlowing hacc => by
      rw [hrest hnextFlowing, ← hqueued]
      exact h.accepting hflowing (haccepting hacc) }

/-- The frame of a payload that is sent whole. -/
theorem whole_wholeFrame (hframe : payload.frame = false) :
    IsWhole (wholeFrame payload) ∧ whole (wholeFrame payload) = content payload.bytes := by
  unfold wholeFrame
  rw [hframe]
  exact ⟨rfl, rfl⟩

/-- A whole payload behind those in the buffer. -/
theorem Delivers.ofFrames_wholeFrame (h : Delivers scheduled requester)
    (hnone : requester.current = []) (hframe : payload.frame = false) :
    ofFrames (requester.handed ++ (requester.held ++ [wholeFrame payload])) =
      ⟨requester.made ++ content payload.bytes, []⟩ := by
  obtain ⟨hwhole, hcont⟩ := whole_wholeFrame hframe
  rw [← append_assoc, ofFrames_append, h.ofFrames_held hnone,
    takeAll_whole (by simpa using hwhole), flatMap_cons, hcont, flatMap_nil,
    append_nil]

/-- A payload that is written whole, with what the buffer holds in front of it. -/
theorem Delivers.of_sent (h : Delivers scheduled requester) (hsound : Sound streamId requester)
    (hnext : requester.subscription.next? = some (payload, rest))
    (hsend : requester.sending = true)
    (hhand : next.handed = requester.handed ++ (requester.held ++ [wholeFrame payload]))
    (hheld : next.held = []) (hcur : next.current = requester.current)
    (hev : next.subscription.events = rest.events ∨ next.subscription.events = [] ∧ ¬Flowing next)
    (hacc : next.accepting = true → requester.accepting = true) : Delivers scheduled next := by
  obtain ⟨-, -, hqueue, -, -⟩ := Subscription.next?_eq_some.mp hnext
  have hframe : payload.frame = false := (h.events payload (by rw [hqueue]; exact mem_cons_self)).1
  have hnone : requester.current = [] := if_pos (hsound.rounds.idle hnext).2.2.2
  -- What is held goes ahead of the frame, and the peer makes of them what is made already.
  have hall : ofFrames next.handed = ⟨requester.made ++ content payload.bytes, []⟩ := by
    rw [hhand]
    exact h.ofFrames_wholeFrame hnone hframe
  refine h.of_taken hsound hnext hsend ?_ ?_ ?_ (fun _ => ?_) hev hacc
  · change (ofFrames next.handed).payloads ++
      content ((ofFrames next.handed).fragments ++ next.current).flatten ++
        next.held.flatMap whole = _
    rw [hall, hheld, hcur, hnone]
    simp [content]
  · rw [hheld]
    exact nofun
  · rw [hcur]
    exact h.nonempty
  · rw [hall]

theorem delivers_deliver (hsound : Sound streamId requester) (h : Delivers scheduled requester)
    (hmove : Move streamId configuration requester .deliver next) : Delivers scheduled next := by
  -- In every case but the first two the payload is the head of the queue, and none is being cut.
  have hhead {payload : ReactivePendingPayload} {rest : Subscription ReactivePendingPayload}
      (hnext : requester.subscription.next? = some (payload, rest)) :
      requester.callbacks = [] ∧ payload ∈ requester.subscription.events ∧
        ∀ other ∈ rest.events, other ∈ requester.subscription.events := by
    obtain ⟨-, -, hqueue, -, -⟩ := Subscription.next?_eq_some.mp hnext
    rw [hqueue]
    exact ⟨(hsound.rounds.idle hnext).2.2.2, mem_cons_self,
      fun other hmem => mem_cons_of_mem _ hmem⟩
  cases hmove with
  | refused => exact h
  | schedule _ hpay => cases hpay
  | drop hnext hsend =>
    refine h.of_stopped rfl (.inl rfl) rfl (hhead hnext).2.2 fun hflowing => ?_
    rw [Flowing, hsend] at hflowing
    exact Bool.false_ne_true hflowing.1
  | stuck hnext =>
    refine h.of_stopped rfl (.inl rfl) rfl (fun payload hmem => ?_) fun hflowing =>
      hflowing.2 rfl (hhead hnext).1
    rw [Subscription.events_pause] at hmem
    exact (hhead hnext).2.2 payload hmem
  | @cut payload rest fragments hnext hsend hsize hfrags hchunks =>
    obtain ⟨hnone, hmem, -⟩ := hhead hnext
    have hcur : requester.current = [] := if_pos hnone
    have hheld : requester.held = [] := hsound.recorded.chunks.mp hchunks
    have hne := disassemble_ne_nil (length_pos_iff.mp (by omega)) hfrags
    have hnonempty : ∀ fragment ∈ fragments, fragment ≠ [] := fun _ hfrag =>
      ne_nil_of_disassemble hfrags (h.events payload hmem).2 hfrag
    obtain ⟨hmade, hcomplete, hleft⟩ := made_fragmentate streamId configuration
      { requester with
        fragmenting := true
        subscription := rest.pause
        currentFragments := fragments
        currentFragmentNumber := 0
        currentFragmentsCount := fragments.length
        lastFragments := payload.last } hheld hne hnonempty (Nat.zero_add _)
    refine h.of_taken hsound hnext hsend ?_ ?_ hleft hcomplete ?_ ?_
    · rw [hmade, h.made_of_nil hcur, h.complete hcur, hheld, nil_append,
        flatten_disassemble hfrags, flatMap_nil, append_nil]
    · rw [fragmentate_eq]
      exact nofun
    · rw [fragmentate_eq]
      exact .inl (Subscription.events_pause _)
    · rw [fragmentate_eq]
      exact id
  | @cutBehind payload rest fragments hnext hsend hsize hfrags hchunks =>
    obtain ⟨hnone, hmem, -⟩ := hhead hnext
    have hcur : requester.current = [] := if_pos hnone
    have hne := disassemble_ne_nil (length_pos_iff.mp (by omega)) hfrags
    have hnonempty : ∀ fragment ∈ fragments, fragment ≠ [] := fun _ hfrag =>
      ne_nil_of_disassemble hfrags (h.events payload hmem).2 hfrag
    refine h.of_taken hsound hnext hsend ?_ nofun ?_ (fun hnil => ?_)
      (.inl (Subscription.events_pause _)) id
    · unfold ReactiveRequester.made
      dsimp only
      rw [h.ofFrames_held hcur]
      simp [current, ReactiveRequester.made, flatten_disassemble hfrags]
    · unfold current
      rw [if_neg (by simp)]
      exact hnonempty
    · unfold current at hnil
      rw [if_neg (by simp)] at hnil
      exact absurd hnil hne
  | @last payload rest hnext hsend hsize hlast =>
    refine h.of_sent hsound hnext hsend rfl rfl rfl (.inr ⟨rfl, fun hflowing => ?_⟩)
      nofun
    exact Bool.false_ne_true hflowing.1
  | @hold payload rest hnext hsend hsize hlast =>
    obtain ⟨hnone, hmem, -⟩ := hhead hnext
    have hcur : requester.current = [] := if_pos hnone
    obtain ⟨hwhole, hcont⟩ := whole_wholeFrame (h.events payload hmem).1
    refine h.of_taken hsound hnext hsend ?_ ?_ h.nonempty h.complete (.inl rfl) id
    · change _ ++ (requester.held ++ [wholeFrame payload]).flatMap whole = _
      rw [flatMap_append, flatMap_cons, hcont, flatMap_nil, append_nil,
        ← append_assoc]
      rfl
    · intro frame hframe
      rcases mem_append.mp hframe with hframe | hframe
      · exact h.held frame hframe
      · rw [mem_singleton.mp hframe]
        exact hwhole
  | @flush payload rest hnext hsend hsize hlast =>
    refine h.of_sent hsound hnext hsend rfl rfl rfl (.inl ?_) id
    simp only [apply_ite Subscription.events, Subscription.events_pause, ite_self]

/-- Behind the last round there are no fragments left. -/
theorem current_of_done (h : Rounds requester) (honly : requester.callbacks = [.fragmentateNext])
    (hmore : requester.currentFragmentsCount ≤ requester.currentFragmentNumber) :
    requester.current = [] := by
  obtain ⟨hcount, -⟩ := h.rest honly
  rw [current, if_neg (by simp [honly])]
  exact eq_nil_of_length_eq_zero (by omega)

/-- The write of a round is done: the next one follows, or the payload is complete. -/
theorem delivers_done (hsound : Sound streamId requester) (h : Delivers scheduled requester)
    {index : ℕ} (hmove : Move streamId configuration requester (.done index) next) :
    Delivers scheduled next := by
  cases hmove with
  | refused => exact h
  | schedule _ hpay => cases hpay
  | @round index callback hcb hmore =>
    obtain ⟨honly, -⟩ := callbacks_eq_singleton hsound.rounds.callbacks hcb
    have hcur : requester.current = requester.currentFragments := if_neg (by simp [honly])
    -- The first round has all the fragments before it, a later one what the rounds before it left.
    obtain ⟨hcount, hne, hheld⟩ : requester.currentFragmentNumber +
        requester.currentFragments.length = requester.currentFragmentsCount ∧
          requester.currentFragments ≠ [] ∧ requester.held = [] := by
      cases callback with
      | fragmentate =>
        obtain ⟨hnum, hcount, hne, hheld⟩ := hsound.rounds.first honly
        exact ⟨by omega, hne, hheld⟩
      | fragmentateNext =>
        obtain ⟨hcount, hheld⟩ := hsound.rounds.rest honly
        have hmore := hmore.resolve_left (by decide)
        refine ⟨hcount, fun hnil => ?_, hheld⟩
        rw [hnil, length_nil] at hcount
        omega
    obtain ⟨hmade, hcomplete, hleft⟩ := made_fragmentate streamId configuration
      { requester with callbacks := requester.callbacks.eraseIdx index } hheld hne
      (by rw [← hcur]; exact h.nonempty) hcount
    refine h.of_made ?_ ?_ hleft hcomplete ?_ (fun hflowing => ?_) ?_
    · rw [hmade]
      unfold ReactiveRequester.made
      rw [hcur, hheld, flatMap_nil, append_nil]
    · rw [fragmentate_eq]
      exact nofun
    · rw [fragmentate_eq]
    · rw [fragmentate_eq] at hflowing
      exact ⟨hflowing.1, fun _ => by simp [honly]⟩
    · rw [fragmentate_eq]
      exact id
  | finish hcb hmore =>
    -- The last callback of a payload that completes: the requester stops.
    obtain ⟨honly, hnone⟩ := callbacks_eq_singleton hsound.rounds.callbacks hcb
    have hcur := current_of_done hsound.rounds honly hmore
    refine h.of_stopped rfl (.inr rfl) ?_ nofun fun hflowing =>
      Bool.false_ne_true hflowing.1
    rw [hcur]
    exact if_pos hnone
  | proceed hcb hmore =>
    obtain ⟨honly, hnone⟩ := callbacks_eq_singleton hsound.rounds.callbacks hcb
    have hcur := current_of_done hsound.rounds honly hmore
    refine h.of_eq rfl rfl ?_ ?_ (fun hflowing => ⟨hflowing.1, fun _ => by simp [honly]⟩) id
    · rw [hcur]
      exact if_pos hnone
    · simp only [apply_ite Subscription.events, Subscription.events_resume, ite_self]

/-! ## Runs -/

/-- What happens to a requester but for an error or a cancellation that is scheduled. No list of
bytes is longer than the memory of any machine. -/
def Sends : RequesterAction → Prop
  | .schedulePayload bytes _ => bytes.length ≤ 2 ^ 53
  | .scheduleError _ | .scheduleCancel => False
  | _ => True

/-- What an action schedules. -/
def scheduledBy : RequesterAction → List Uint8List
  | .schedulePayload bytes _ => content bytes
  | _ => []

theorem delivers_schedule (h : Delivers scheduled requester) {bytes : Uint8List}
    (hacc : requester.accepting = true) (hlen : bytes.length ≤ 2 ^ 53) (complete : Bool)
    (hev : next.subscription.events = requester.subscription.events ++ [⟨bytes, complete, false⟩])
    (hhand : next.handed = requester.handed) (hheld : next.held = requester.held)
    (hcur : next.current = requester.current) (hflowing : Flowing next → Flowing requester) :
    Delivers (scheduled ++ content bytes) next := by
  have hmade : next.made = requester.made := by
    unfold ReactiveRequester.made
    rw [hhand, hheld, hcur]
  have hqueued : next.queuedPayloads = requester.queuedPayloads ++ content bytes := by
    unfold queuedPayloads
    rw [hev, flatMap_append, flatMap_cons, flatMap_nil, append_nil]
  -- While payloads are accepted, all that was scheduled is made or queued.
  have hall (hnext : Flowing next) : next.made ++ next.queuedPayloads =
      scheduled ++ content bytes := by
    rw [hmade, hqueued, ← append_assoc, h.accepting (hflowing hnext) hacc]
  exact {
    held := hheld ▸ h.held
    events := fun other hmem => by
      rw [hev] at hmem
      rcases mem_append.mp hmem with hmem | hmem
      · exact h.events other hmem
      · obtain rfl := mem_singleton.mp hmem
        exact ⟨rfl, hlen⟩
    nonempty := hcur ▸ h.nonempty
    complete := by rw [hcur, hhand]; exact h.complete
    made := by
      rw [hmade]
      exact h.made.trans (prefix_append _ _)
    flowing := fun hnext => (hall hnext).symm ▸ prefix_refl _
    accepting := fun hnext _ => hall hnext }

/-- What is scheduled stays on its way. -/
theorem delivers_step (hsound : Sound streamId requester) (h : Delivers scheduled requester)
    (hsends : Sends action) (hstep : step streamId configuration requester action = some next) :
    Delivers (scheduled ++ scheduledBy action) next := by
  have hmove := step_move hsound.lifecycle.closing hstep
  cases action with
  | schedulePayload bytes complete =>
    cases hmove with
    | refused hacc => exact h.of_refused hacc _
    | schedule hacc hpay =>
      cases hpay
      have hsub := (hsound.lifecycle.accepting hacc).2.1
      refine delivers_schedule h hacc hsends complete ?_ rfl rfl rfl id
      simp only [apply_ite Subscription.events, Subscription.events_resume,
        Subscription.events_add hsub, ite_self]
  | request count =>
    rw [show scheduledBy (.request count) = [] from rfl, append_nil]
    cases hmove with
    | refused => exact h
    | schedule _ hpay => cases hpay
    | request =>
      -- The peer makes no payload of a REQUEST_N frame.
      have hmade : ofFrames (requester.handed ++
          [.other (ReactiveWriter.writeRequestNFrame streamId count)]) =
              ofFrames requester.handed := by
        rw [ofFrames_append]
        rfl
      refine h.of_made ?_ h.held h.nonempty ?_ rfl id id
      · unfold ReactiveRequester.made
        dsimp only
        rw [hmade]
        rfl
      · dsimp only
        rw [hmade]
        exact h.complete
  | resume count =>
    rw [show scheduledBy (.resume count) = [] from rfl, append_nil]
    cases hmove with
    | refused => exact h
    | ignored => exact h
    | schedule _ hpay => cases hpay
    | resume => exact h.of_eq rfl rfl rfl (Subscription.events_resume _) id id
  | deliver =>
    rw [show scheduledBy .deliver = [] from rfl, append_nil]
    exact delivers_deliver hsound h hmove
  | done index =>
    rw [show scheduledBy (.done index) = [] from rfl, append_nil]
    exact delivers_done hsound h hmove
  | close graceful =>
    rw [show scheduledBy (.close graceful) = [] from rfl, append_nil]
    cases hmove with
    | refused _ hcall => simp [scheduledPayload] at hcall
    | schedule _ hpay => cases hpay
    | wait => exact h.of_eq rfl rfl rfl rfl id nofun
    | close => exact h.of_stopped rfl (.inr rfl) rfl nofun fun hflowing => nomatch hflowing.1
  | timeout =>
    rw [show scheduledBy .timeout = [] from rfl, append_nil]
    cases hmove with
    | refused _ hcall => simp [scheduledPayload] at hcall
    | schedule _ hpay => cases hpay
    | timeout =>
      exact h.of_stopped rfl (.inl rfl) rfl (fun _ => id) fun hflowing => nomatch hflowing.1
  | closed =>
    rw [show scheduledBy .closed = [] from rfl, append_nil]
    cases hmove with
    | refused _ hcall => simp [scheduledPayload] at hcall
    | schedule _ hpay => cases hpay
    | closed => exact h.of_stopped rfl (.inr rfl) rfl nofun fun hflowing => nomatch hflowing.1
  | scheduleError | scheduleCancel => exact hsends.elim

/-! ## The frames -/

/-- A PAYLOAD frame of at most this many bytes of data, or a REQUEST_N frame. -/
def Plain (limit : ℕ) : OutFrame → Prop
  | .payload data completed follow _ => data.length ≤ limit ∧ (follow = true → completed = false)
  | .other bytes => ∃ streamId count, bytes = ReactiveWriter.writeRequestNFrame streamId count

/-- All frames are PAYLOAD frames and REQUEST_N frames, and none is too large. -/
structure PlainFrames (limit : ℕ) (requester : ReactiveRequester) : Prop where
  frames : ∀ frame ∈ requester.handed ++ requester.held, Plain limit frame
  fragments : ∀ fragment ∈ requester.currentFragments, fragment.length ≤ limit

theorem plain_of_mem_fragmentFrames {more last starts : Bool} {chunks index : ℕ}
    {fragments : List Uint8List} (h : ∀ fragment ∈ fragments, fragment.length ≤ limit) :
    ∀ frame ∈ fragmentFrames more last chunks starts index fragments, Plain limit frame := by
  induction fragments generalizing starts index with
  | nil => exact nofun
  | cons fragment fragments ih =>
    intro frame hmem
    rcases mem_cons.mp hmem with rfl | hmem
    · exact ⟨h fragment mem_cons_self, fun hfollow => if_pos hfollow⟩
    · exact ih (fun fragment hmem => h fragment (mem_cons_of_mem _ hmem)) frame hmem

theorem plain_wholeFrame (hframe : payload.frame = false) (hsize : payload.bytes.length ≤ limit) :
    Plain limit (wholeFrame payload) := by
  unfold wholeFrame
  rw [hframe]
  exact ⟨hsize, nofun⟩

theorem plainFrames_fragmentate (h : PlainFrames limit requester) :
    PlainFrames limit (fragmentate streamId configuration requester) := by
  rw [fragmentate_eq]
  constructor
  · dsimp only
    rw [append_nil, ← append_assoc]
    intro frame hmem
    rcases mem_append.mp hmem with hmem | hmem
    · exact h.frames frame hmem
    · exact plain_of_mem_fragmentFrames
        (fun fragment hfrag => h.fragments fragment (mem_of_mem_take hfrag)) frame hmem
  · exact fun fragment hmem => h.fragments fragment (mem_of_mem_drop hmem)

theorem plainFrames_step (hsound : Sound streamId requester)
    (hdelivers : Delivers scheduled requester)
    (hsize : configuration.fragmentSize ≤ configuration.frameMaxSize)
    (h : PlainFrames configuration.frameMaxSize requester) (hsends : Sends action)
    (hstep : step streamId configuration requester action = some next) :
    PlainFrames configuration.frameMaxSize next := by
  -- Only plain payloads are scheduled, so only whole payloads are in the queue.
  have hframe {payload : ReactivePendingPayload} {rest : Subscription ReactivePendingPayload}
      (hnext : requester.subscription.next? = some (payload, rest)) : payload.frame = false := by
    obtain ⟨-, -, hqueue, -, -⟩ := Subscription.next?_eq_some.mp hnext
    exact (hdelivers.events payload (by rw [hqueue]; exact mem_cons_self)).1
  have hfront (frame : OutFrame) (hmem : frame ∈ requester.handed) :
      Plain configuration.frameMaxSize frame := h.frames frame (mem_append_left _ hmem)
  have hbehind {payload : ReactivePendingPayload} (hframe : payload.frame = false)
      (hsize : payload.bytes.length ≤ configuration.frameMaxSize) :
      ∀ frame ∈ requester.handed ++ (requester.held ++ [wholeFrame payload]),
        Plain configuration.frameMaxSize frame := by
    intro frame hmem
    rw [← append_assoc] at hmem
    rcases mem_append.mp hmem with hmem | hmem
    · exact h.frames frame hmem
    · rw [mem_singleton.mp hmem]
      exact plain_wholeFrame hframe hsize
  -- Fragments are no larger than `fragmentSize`, which a frame has room for.
  have hpieces {payload : ReactivePendingPayload} {fragments : List Uint8List}
      (hfrags : ReactiveAssembler.disassemble payload.bytes configuration.fragmentSize =
        .ok fragments) : ∀ fragment ∈ fragments, fragment.length ≤ configuration.frameMaxSize :=
    fun _ hmem => (length_le_of_disassemble hfrags hmem).trans hsize
  have hmove := step_move hsound.lifecycle.closing hstep
  cases hmove with
  | close | closed => exact ⟨(append_nil _).symm ▸ hfront, h.fragments⟩
  | request hacc =>
    refine ⟨fun frame hmem => ?_, h.fragments⟩
    rw [append_assoc] at hmem
    rcases mem_append.mp hmem with hmem | hmem
    · exact hfront frame hmem
    · rcases mem_cons.mp hmem with rfl | hmem
      · exact ⟨_, _, rfl⟩
      · exact h.frames frame (mem_append_right _ hmem)
  | cut hnext hsend hlimit hfrags hchunks =>
    exact plainFrames_fragmentate ⟨h.frames, hpieces hfrags⟩
  | cutBehind hnext hsend hlimit hfrags =>
    exact ⟨(append_nil _).symm ▸ h.frames, hpieces hfrags⟩
  | last hnext hsend hlimit =>
    exact ⟨(append_nil _).symm ▸ hbehind (hframe hnext) hlimit, h.fragments⟩
  | hold hnext hsend hlimit => exact ⟨hbehind (hframe hnext) hlimit, h.fragments⟩
  | flush hnext hsend hlimit =>
    exact ⟨(append_nil _).symm ▸ hbehind (hframe hnext) hlimit, h.fragments⟩
  | round => exact plainFrames_fragmentate ⟨h.frames, h.fragments⟩
  | finish => exact ⟨(append_nil _).symm ▸ hfront, h.fragments⟩
  | _ => exact ⟨h.frames, h.fragments⟩

end ReactiveRequester

end FengShui.Reactive
