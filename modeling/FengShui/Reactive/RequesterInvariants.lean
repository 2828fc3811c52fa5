import FengShui.Reactive.RequesterMoves

/-!
# Invariants of the requester

`Sound` collects what holds in every reachable state without a condition: how the flags, the queue
and the rounds of fragments fit together (`Lifecycle`, `Queued`, `Rounds`, `Ending`), and that the
histories `held` and `handed` are the bytes in the buffer and those handed to the connection
(`Recorded`). Each part has one lemma over the moves, and `sound_of_reachable` puts them together.
-/

namespace FengShui.Reactive.ReactiveRequester

/-- What the flags say about each other. -/
structure Lifecycle (requester : ReactiveRequester) : Prop where
  closing : requester.closing = false
  accepting : requester.accepting = true → requester.sending = true ∧
    requester.subscription.canceled = false ∧ requester.timers = 0 ∧ requester.waiting = 0
  canceled : requester.subscription.canceled = true →
    requester.sending = false ∧ requester.fragmenting = false ∧ requester.held = []

/-- A queue in which the payload that ends the stream comes last, and in which only that one can be
a frame. -/
def EndsOnce : List ReactivePendingPayload → Prop
  | [] => True
  | payload :: payloads =>
    (payload.frame = true → payload.last = true) ∧ (payload.last = true → payloads = []) ∧
      EndsOnce payloads

structure Queued (requester : ReactiveRequester) : Prop where
  endsOnce : EndsOnce requester.subscription.events
  accepting : requester.accepting = true →
    ∀ payload ∈ requester.subscription.events, payload.last = false

/-- At most one callback waits for its write, the queue waits while a payload is cut, and the
fragments that are not written are those from the current number on. -/
structure Rounds (requester : ReactiveRequester) : Prop where
  callbacks : requester.callbacks.length ≤ 1
  fragmenting : requester.callbacks ≠ [] →
    requester.subscription.canceled = true ∨ requester.fragmenting = true
  paused : requester.fragmenting = true → 1 ≤ requester.subscription.paused
  first : requester.callbacks = [.fragmentate] → requester.currentFragmentNumber = 0 ∧
    requester.currentFragments.length = requester.currentFragmentsCount ∧
    requester.currentFragments ≠ [] ∧ requester.held = []
  rest : requester.callbacks = [.fragmentateNext] →
    requester.currentFragmentNumber + requester.currentFragments.length =
      requester.currentFragmentsCount ∧ requester.held = []

/-- A payload that ends the stream is cut only when nothing more is accepted. -/
def Ending (requester : ReactiveRequester) : Prop :=
  requester.accepting = true → requester.callbacks ≠ [] → requester.lastFragments = false

variable {streamId : ℤ} {configuration : ReactiveChannelConfiguration}
  {requester next : ReactiveRequester} {action : RequesterAction}

/-- Behind `finishClose` a requester accepts nothing, and its queue is canceled. -/
theorem lifecycle_finishClose (hclosing : requester.closing = false)
    (haccepting : requester.accepting = false) : Lifecycle (finishClose requester) where
  closing := hclosing
  accepting hacc := by
    rw [show requester.accepting = true from hacc] at haccepting
    cases haccepting
  canceled _ := ⟨rfl, rfl, rfl⟩

/-- With an open queue the flags are those that were there. -/
theorem Lifecycle.of_open (h : Lifecycle requester) (hclosing : next.closing = requester.closing)
    (haccepting : next.accepting = true → requester.accepting = true)
    (hsend : next.sending = requester.sending) (htimers : next.timers = requester.timers)
    (hwait : next.waiting = requester.waiting) (hsub : next.subscription.canceled = false) :
    Lifecycle next where
  closing := hclosing.trans h.closing
  accepting hacc := by
    obtain ⟨hsends, -, hnoTimers, hnoWait⟩ := h.accepting (haccepting hacc)
    exact ⟨hsend.trans hsends, hsub, htimers.trans hnoTimers, hwait.trans hnoWait⟩
  canceled hcanceled := by
    rw [hsub] at hcanceled
    cases hcanceled

theorem lifecycle_move (h : Lifecycle requester)
    (hmove : Move streamId configuration requester action next) : Lifecycle next := by
  obtain ⟨hclosing, haccepting, hcancel⟩ := id h
  -- What is left of a queue that has given a payload is open.
  have hopen {payload : ReactivePendingPayload} {rest : Subscription ReactivePendingPayload}
      (hnext : requester.subscription.next? = some (payload, rest)) : rest.canceled = false := by
    obtain ⟨-, -, -, hsub, -⟩ := Subscription.next?_eq_some.mp hnext
    exact hsub
  cases hmove with
  | refused => exact h
  | ignored => exact h
  | request => exact ⟨hclosing, haccepting, hcancel⟩
  | schedule hacc =>
    obtain ⟨-, hsub, -, -⟩ := haccepting hacc
    refine h.of_open rfl (fun _ => hacc) rfl rfl rfl ?_
    simp only [apply_ite Subscription.canceled, Subscription.canceled_resume,
      Subscription.canceled_add, ite_self]
    exact hsub
  | resume =>
    refine ⟨hclosing, ?_, ?_⟩
    · rw [Subscription.canceled_resume]
      exact haccepting
    · rw [Subscription.canceled_resume]
      exact hcancel
  | wait => exact ⟨hclosing, nofun, hcancel⟩
  | close => exact lifecycle_finishClose hclosing rfl
  | timeout htimers =>
    -- Only a requester that accepts nothing waits.
    refine ⟨hclosing, fun hacc => ?_, fun hsub => ⟨rfl, (hcancel hsub).2⟩⟩
    obtain ⟨-, -, hnone, -⟩ := haccepting hacc
    omega
  | closed _ hwaits =>
    refine lifecycle_finishClose hclosing (Bool.eq_false_iff.mpr fun hacc => ?_)
    obtain ⟨-, -, htimers, hwait⟩ := haccepting hacc
    omega
  | drop hnext => exact h.of_open rfl id rfl rfl rfl (hopen hnext)
  | stuck hnext =>
    exact h.of_open rfl id rfl rfl rfl ((Subscription.canceled_pause _).trans (hopen hnext))
  | cut hnext =>
    rw [fragmentate_eq]
    exact h.of_open rfl id rfl rfl rfl ((Subscription.canceled_pause _).trans (hopen hnext))
  | cutBehind hnext =>
    exact h.of_open rfl id rfl rfl rfl ((Subscription.canceled_pause _).trans (hopen hnext))
  | last => exact lifecycle_finishClose hclosing rfl
  | hold hnext => exact h.of_open rfl id rfl rfl rfl (hopen hnext)
  | flush hnext =>
    refine h.of_open rfl id rfl rfl rfl ?_
    simp only [apply_ite Subscription.canceled, Subscription.canceled_pause, ite_self]
    exact hopen hnext
  | round =>
    rw [fragmentate_eq]
    refine ⟨hclosing, haccepting, fun hsub => ?_⟩
    obtain ⟨hsend, hfrag, -⟩ := hcancel hsub
    exact ⟨hsend, hfrag, rfl⟩
  | finish => exact lifecycle_finishClose hclosing rfl
  | proceed =>
    refine ⟨hclosing, ?_, ?_⟩
    · rw [apply_ite Subscription.canceled, Subscription.canceled_resume, ite_self]
      exact haccepting
    · rw [apply_ite Subscription.canceled, Subscription.canceled_resume, ite_self]
      exact fun hsub => ⟨(hcancel hsub).1, rfl, (hcancel hsub).2.2⟩

variable {payload : ReactivePendingPayload}

theorem EndsOnce.append {payloads : List ReactivePendingPayload}
    (h : ∀ earlier ∈ payloads, earlier.last = false) (hpayloads : EndsOnce payloads)
    (hframe : payload.frame = true → payload.last = true) : EndsOnce (payloads ++ [payload]) := by
  induction payloads with
  | nil => exact ⟨hframe, fun _ => rfl, trivial⟩
  | cons head payloads ih =>
    obtain ⟨hhead, -, hpayloads⟩ := hpayloads
    have hnotLast : head.last = false := h head List.mem_cons_self
    have hrest := ih (fun earlier hmem => h earlier (List.mem_cons_of_mem _ hmem)) hpayloads
    refine ⟨hhead, fun hlast => ?_, hrest⟩
    rw [hnotLast] at hlast
    cases hlast

theorem scheduledPayload_frame (h : scheduledPayload streamId action = some payload)
    (hframe : payload.frame = true) : payload.last = true := by
  cases action with
  | schedulePayload bytes complete =>
    obtain rfl : _ = payload := Option.some.inj h
    cases hframe
  | scheduleError message =>
    obtain rfl : _ = payload := Option.some.inj h
    rfl
  | scheduleCancel =>
    obtain rfl : _ = payload := Option.some.inj h
    rfl
  | _ => cases h

theorem queued_move (hlife : Lifecycle requester) (h : Queued requester)
    (hmove : Move streamId configuration requester action next) : Queued next := by
  -- The queue behind its first event.
  have hdrop {payload : ReactivePendingPayload} {rest : Subscription ReactivePendingPayload}
      (hnext : requester.subscription.next? = some (payload, rest)) :
      EndsOnce rest.events ∧ (requester.accepting = true →
        ∀ payload ∈ rest.events, payload.last = false) := by
    obtain ⟨-, -, hev, -, -⟩ := Subscription.next?_eq_some.mp hnext
    obtain ⟨hqueue, haccepting⟩ := h
    rw [hev] at hqueue haccepting
    exact ⟨hqueue.2.2, fun hacc payload hmem =>
      haccepting hacc payload (List.mem_cons_of_mem _ hmem)⟩
  obtain ⟨hqueue, haccepting⟩ := h
  cases hmove with
  | refused => exact ⟨hqueue, haccepting⟩
  | ignored => exact ⟨hqueue, haccepting⟩
  | request => exact ⟨hqueue, haccepting⟩
  | schedule hacc hpay =>
    obtain ⟨-, hsub, -⟩ := hlife.accepting hacc
    have hlast := haccepting hacc
    have hqueue' := hqueue.append hlast (scheduledPayload_frame hpay)
    constructor
    · simpa [apply_ite Subscription.events, Subscription.events_add hsub] using hqueue'
    -- A payload that completes is the last one that is accepted.
    · simp only [apply_ite Subscription.events, Subscription.events_resume,
        Subscription.events_add hsub, ite_self]
      intro hacc' payload hmem
      rcases List.mem_append.mp hmem with hmem | hmem
      · exact hlast payload hmem
      · obtain rfl := List.mem_singleton.mp hmem
        simpa using hacc'
  | resume => constructor <;> simpa
  | wait => exact ⟨hqueue, nofun⟩
  | close => exact ⟨trivial, nofun⟩
  | timeout => exact ⟨hqueue, haccepting⟩
  | closed => exact ⟨trivial, nofun⟩
  | drop hnext => exact ⟨(hdrop hnext).1, (hdrop hnext).2⟩
  | stuck hnext =>
    constructor
    · simpa using (hdrop hnext).1
    · simpa using (hdrop hnext).2
  | cut hnext =>
    constructor
    · simpa [fragmentate_eq] using (hdrop hnext).1
    · simpa [fragmentate_eq] using (hdrop hnext).2
  | cutBehind hnext =>
    constructor
    · simpa using (hdrop hnext).1
    · simpa using (hdrop hnext).2
  | last => exact ⟨trivial, nofun⟩
  | hold hnext => exact ⟨(hdrop hnext).1, (hdrop hnext).2⟩
  | flush hnext =>
    constructor
    · simpa [apply_ite Subscription.events] using (hdrop hnext).1
    · simpa [apply_ite Subscription.events] using (hdrop hnext).2
  | round => constructor <;> simpa [fragmentate_eq]
  | finish => exact ⟨trivial, nofun⟩
  | proceed => constructor <;> simpa [apply_ite Subscription.events]

/-- The callback that is called is the only one. -/
theorem callbacks_eq_singleton {callbacks : List OnDone} {index : ℕ} {callback : OnDone}
    (hcbs : callbacks.length ≤ 1) (hcb : callbacks[index]? = some callback) :
    callbacks = [callback] ∧ callbacks.eraseIdx index = [] := by
  match callbacks, index with
  | [], _ => cases hcb
  | [only], 0 =>
    cases hcb
    exact ⟨rfl, rfl⟩
  | [_], index + 1 => cases hcb
  | _ :: _ :: _, _ => simp at hcbs

/-- A payload is taken only when no payload is being cut. -/
theorem Rounds.idle (h : Rounds requester) {rest : Subscription ReactivePendingPayload}
    (hnext : requester.subscription.next? = some (payload, rest)) :
    rest.canceled = false ∧ rest.paused = 0 ∧ requester.fragmenting = false ∧
      requester.callbacks = [] := by
  obtain ⟨hsub, hzero, -, hsub', hzero'⟩ := Subscription.next?_eq_some.mp hnext
  have hfrag : requester.fragmenting = false := by
    by_contra hcon
    have := h.paused (by simpa using hcon)
    omega
  refine ⟨hsub', hzero', hfrag, ?_⟩
  by_contra hcon
  rcases h.fragmenting hcon with hcancel | hfrag'
  · rw [hsub] at hcancel
    cases hcancel
  · rw [hfrag] at hfrag'
    cases hfrag'

/-- Where no write is under way, only the queue matters. -/
theorem rounds_of_callbacks (hnone : requester.callbacks = [])
    (hpaused : requester.fragmenting = true → 1 ≤ requester.subscription.paused) :
    Rounds requester where
  callbacks := by
    rw [hnone]
    exact Nat.zero_le 1
  fragmenting hsome := absurd hnone hsome
  paused := hpaused
  first honly := by
    rw [hnone] at honly
    cases honly
  rest honly := by
    rw [hnone] at honly
    cases honly

/-- `finishClose` leaves the rounds, with nothing in the buffer. -/
theorem Rounds.finishClose (h : Rounds requester) : Rounds (finishClose requester) where
  callbacks := h.callbacks
  fragmenting _ := .inl rfl
  paused hfragmenting := by cases hfragmenting
  first honly := by
    obtain ⟨hnum, hcount, hne, -⟩ := h.first honly
    exact ⟨hnum, hcount, hne, rfl⟩
  rest honly := ⟨(h.rest honly).1, rfl⟩

/-- A round begins where no write is under way, and ends with one. -/
theorem rounds_fragmentate (hnone : requester.callbacks = [])
    (hcount : requester.currentFragmentNumber + requester.currentFragments.length =
      requester.currentFragmentsCount)
    (hfrag : requester.subscription.canceled = true ∨ requester.fragmenting = true)
    (hpaused : requester.fragmenting = true → 1 ≤ requester.subscription.paused) :
    Rounds (fragmentate streamId configuration requester) := by
  rw [fragmentate_eq, hnone]
  refine ⟨le_rfl, fun _ => hfrag, hpaused, fun hfirst => ?_, fun _ => ⟨?_, rfl⟩⟩
  · cases hfirst
  · dsimp only
    rw [List.length_drop]
    omega

theorem rounds_move (h : Rounds requester)
    (hmove : Move streamId configuration requester action next) : Rounds next := by
  obtain ⟨hcbs, hfragmenting, hpaused, hfirst, hrest⟩ := id h
  cases hmove with
  | refused => exact h
  | ignored => exact h
  | request => exact ⟨hcbs, hfragmenting, hpaused, hfirst, hrest⟩
  | schedule hacc =>
    refine ⟨hcbs, ?_, ?_, hfirst, hrest⟩
    · simpa [apply_ite Subscription.canceled] using hfragmenting
    · intro hfrag
      have hfrag : requester.fragmenting = true := hfrag
      simpa [hfrag] using hpaused hfrag
  | resume hsend hfrag =>
    refine ⟨hcbs, ?_, ?_, hfirst, hrest⟩
    · simpa using hfragmenting
    · intro hfrag'
      rw [hfrag] at hfrag'
      cases hfrag'
  | wait => exact ⟨hcbs, hfragmenting, hpaused, hfirst, hrest⟩
  | close =>
    have hsame : Rounds { requester with accepting := false } :=
      ⟨hcbs, hfragmenting, hpaused, hfirst, hrest⟩
    exact hsame.finishClose
  | timeout => exact ⟨hcbs, hfragmenting, hpaused, hfirst, hrest⟩
  | closed =>
    have hsame : Rounds { requester with
        waiting := requester.waiting - 1
        timers := if requester.waiting = 0 then requester.timers - 1 else requester.timers } :=
      ⟨hcbs, hfragmenting, hpaused, hfirst, hrest⟩
    exact hsame.finishClose
  | drop hnext =>
    obtain ⟨-, -, hfrag, hnone⟩ := h.idle hnext
    refine rounds_of_callbacks hnone fun hfrag' => ?_
    rw [show requester.fragmenting = true from hfrag'] at hfrag
    cases hfrag
  | stuck hnext =>
    obtain ⟨hsub, -, -, hnone⟩ := h.idle hnext
    refine rounds_of_callbacks hnone fun _ => ?_
    rw [Subscription.paused_pause hsub]
    exact Nat.succ_pos _
  | cut hnext _ _ _ _ =>
    obtain ⟨hsub, -, -, hnone⟩ := h.idle hnext
    refine rounds_fragmentate hnone (Nat.zero_add _) (.inr rfl) fun _ => ?_
    rw [Subscription.paused_pause hsub]
    exact Nat.succ_pos _
  | cutBehind hnext hsend hsize hfrags =>
    obtain ⟨hsub, -, -, hnone⟩ := h.idle hnext
    have hne := disassemble_ne_nil (List.length_pos_iff.mp (by omega)) hfrags
    refine ⟨?_, fun _ => .inr rfl, fun _ => ?_, fun _ => ⟨rfl, rfl, hne, rfl⟩, fun honly => ?_⟩
    · rw [hnone]
      exact le_rfl
    · rw [Subscription.paused_pause hsub]
      exact Nat.succ_pos _
    · rw [hnone] at honly
      cases honly
  | @last payload rest hnext =>
    obtain ⟨-, -, hfrag, hnone⟩ := h.idle hnext
    have hidle : Rounds { requester with
        accepting := false
        subscription := rest
        written := requester.written ++ [.writeMany
          (requester.buffer.add ((wholeFrame payload).bytes streamId)).chunks true]
        handed := requester.handed ++ (requester.held ++ [wholeFrame payload]) } := by
      refine rounds_of_callbacks hnone fun hfrag' => ?_
      rw [show requester.fragmenting = true from hfrag'] at hfrag
      cases hfrag
    exact hidle.finishClose
  | hold hnext =>
    obtain ⟨-, -, hfrag, hnone⟩ := h.idle hnext
    refine rounds_of_callbacks hnone fun hfrag' => ?_
    rw [show requester.fragmenting = true from hfrag'] at hfrag
    cases hfrag
  | flush hnext =>
    obtain ⟨-, -, hfrag, hnone⟩ := h.idle hnext
    refine rounds_of_callbacks hnone fun hfrag' => ?_
    rw [show requester.fragmenting = true from hfrag'] at hfrag
    cases hfrag
  | @round index callback hcb =>
    obtain ⟨honly, hnone⟩ := callbacks_eq_singleton hcbs hcb
    have hcount : requester.currentFragmentNumber + requester.currentFragments.length =
        requester.currentFragmentsCount := by
      cases callback with
      | fragmentate =>
        obtain ⟨hnum, hcount, -, -⟩ := hfirst honly
        omega
      | fragmentateNext => exact (hrest honly).1
    have hsome : requester.callbacks ≠ [] := by
      rw [honly]
      exact List.cons_ne_nil _ _
    exact rounds_fragmentate hnone hcount (hfragmenting hsome) hpaused
  | @finish index hcb =>
    obtain ⟨-, hnone⟩ := callbacks_eq_singleton hcbs hcb
    have hlast : Rounds { requester with
        accepting := false
        callbacks := requester.callbacks.eraseIdx index } := rounds_of_callbacks hnone hpaused
    exact hlast.finishClose
  | proceed hcb =>
    obtain ⟨-, hnone⟩ := callbacks_eq_singleton hcbs hcb
    exact rounds_of_callbacks hnone nofun

theorem ending_move (hqueue : Queued requester) (hrounds : Rounds requester) (h : Ending requester)
    (hmove : Move streamId configuration requester action next) : Ending next := by
  cases hmove with
  | @cut payload rest fragments hnext =>
    obtain ⟨-, -, hev, -, -⟩ := Subscription.next?_eq_some.mp hnext
    intro hacc _
    rw [fragmentate_eq] at hacc ⊢
    exact hqueue.accepting hacc payload (by simp [hev])
  | @cutBehind payload rest fragments hnext =>
    obtain ⟨-, -, hev, -, -⟩ := Subscription.next?_eq_some.mp hnext
    intro hacc _
    exact hqueue.accepting hacc payload (by simp [hev])
  | round hcb =>
    have honly := (callbacks_eq_singleton hrounds.callbacks hcb).1
    intro hacc _
    rw [fragmentate_eq] at hacc ⊢
    exact h hacc (by simp [honly])
  | proceed hcb =>
    have hnone := (callbacks_eq_singleton hrounds.callbacks hcb).2
    intro _ hcbs
    exact absurd hnone hcbs
  | schedule hacc => exact fun _ => h hacc
  | wait => exact nofun
  | close => exact nofun
  | last => exact nofun
  | finish => exact nofun
  | _ => exact h

/-! ## Bytes and frames -/

/-- The histories are the bytes in the buffer and those handed to the connection. -/
structure Recorded (streamId : ℤ) (requester : ReactiveRequester) : Prop where
  buffer : requester.buffer.chunks.flatten = requester.held.flatMap (OutFrame.bytes streamId)
  count : requester.buffer.count = requester.held.length
  chunks : requester.buffer.chunks = [] ↔ requester.held = []
  written : requester.written.flatMap ConnectionWrite.bytes =
    requester.handed.flatMap (OutFrame.bytes streamId)

theorem flatten_foldl_add (frames : List OutFrame) (buffer : ReactiveRequesterBuffer) :
    (frames.foldl (fun buffer frame => buffer.add (frame.bytes streamId)) buffer).chunks.flatten =
      buffer.chunks.flatten ++ frames.flatMap (OutFrame.bytes streamId) := by
  induction frames generalizing buffer with
  | nil => simp
  | cons frame frames ih =>
    rw [List.foldl_cons, ih, ReactiveRequesterBuffer.flatten_add, List.append_assoc,
      List.flatMap_cons]

theorem recorded_fragmentate (h : Recorded streamId requester) :
    Recorded streamId (fragmentate streamId configuration requester) := by
  obtain ⟨hbuf, hcount, hchunks, hwritten⟩ := h
  rw [fragmentate_eq]
  refine ⟨rfl, rfl, Iff.rfl.trans (by simp), ?_⟩
  simp [roundChunks, ConnectionWrite.bytes, flatten_foldl_add, hbuf, hwritten]

theorem recorded_finishClose (h : Recorded streamId requester) :
    Recorded streamId (finishClose requester) :=
  ⟨rfl, rfl, by simp [finishClose, clearBuffer], h.written⟩

theorem recorded_move (h : Recorded streamId requester)
    (hmove : Move streamId configuration requester action next) : Recorded streamId next := by
  obtain ⟨hbuf, hcount, hchunks, hwritten⟩ := h
  cases hmove with
  | request =>
    refine ⟨hbuf, hcount, hchunks, ?_⟩
    simp [hwritten, ConnectionWrite.bytes, OutFrame.bytes]
  | close => exact recorded_finishClose ⟨hbuf, hcount, hchunks, hwritten⟩
  | closed => exact recorded_finishClose ⟨hbuf, hcount, hchunks, hwritten⟩
  | cut => exact recorded_fragmentate ⟨hbuf, hcount, hchunks, hwritten⟩
  | cutBehind =>
    refine ⟨rfl, rfl, by simp, ?_⟩
    simp [hwritten, ConnectionWrite.bytes, hbuf]
  | last =>
    refine recorded_finishClose ⟨hbuf, hcount, hchunks, ?_⟩
    simp [hwritten, ConnectionWrite.bytes, hbuf]
  | hold =>
    refine ⟨?_, ?_, ?_, hwritten⟩
    · simp [hbuf]
    · simp [hcount]
    · simp [ReactiveRequesterBuffer.chunks_add_ne_nil]
  | flush =>
    refine ⟨rfl, rfl, by simp, ?_⟩
    simp [hwritten, ConnectionWrite.bytes, hbuf]
  | round => exact recorded_fragmentate ⟨hbuf, hcount, hchunks, hwritten⟩
  | finish => exact recorded_finishClose ⟨hbuf, hcount, hchunks, hwritten⟩
  | _ => exact ⟨hbuf, hcount, hchunks, hwritten⟩

/-! ## Together -/

structure Sound (streamId : ℤ) (requester : ReactiveRequester) : Prop where
  lifecycle : Lifecycle requester
  queued : Queued requester
  rounds : Rounds requester
  ending : Ending requester
  recorded : Recorded streamId requester

theorem sound_new (chunkSize : ℕ) : Sound streamId (new chunkSize) where
  lifecycle := ⟨rfl, fun _ => ⟨rfl, rfl, rfl, rfl⟩, nofun⟩
  queued := ⟨trivial, nofun⟩
  rounds := ⟨Nat.zero_le 1, fun h => absurd rfl h, (by cases ·), (by cases ·), (by cases ·)⟩
  ending := fun _ h => absurd rfl h
  recorded := ⟨rfl, rfl, by simp [new], rfl⟩

theorem sound_step (h : Sound streamId requester)
    (hstep : step streamId configuration requester action = some next) : Sound streamId next := by
  have hmove := step_move h.lifecycle.closing hstep
  exact {
    lifecycle := lifecycle_move h.lifecycle hmove
    queued := queued_move h.lifecycle h.queued hmove
    rounds := rounds_move h.rounds hmove
    ending := ending_move h.queued h.rounds h.ending hmove
    recorded := recorded_move h.recorded hmove }

/-- The invariants hold in every reachable state. -/
theorem sound_of_reachable {chunkSize : ℕ}
    (h : Transition.Reachable (step streamId configuration) (new chunkSize) requester) :
    Sound streamId requester :=
  h.invariant (Sound streamId) (sound_new chunkSize) fun _ _ _ => sound_step

end FengShui.Reactive.ReactiveRequester
