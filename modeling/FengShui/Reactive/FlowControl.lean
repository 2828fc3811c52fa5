import FengShui.Reactive.RequesterInvariants

/-!
# Flow control of the requester

`resume` grants credit, and the requester is to hand the connection no more payloads that leave the
stream open than were granted (`FlowControlled`). It keeps that in every run whose steps are
`WithinCredit`, and not in others, for two reasons. A payload that ends the stream brings a credit
of its own, which an earlier payload spends when more are queued than there is credit for. And a
grant of nothing resumes the subscription of a requester that has no credit.

The invariant of a run is `Accounted`. While the stream is open, what is handed, held or being cut
and the credit that is left add up to no more than the grants, and one more while a payload is cut,
which is paid for when its last fragment is written (`Open`). Once the stream can only end, what is
queued is paid for as well (`Settled`).
-/

namespace FengShui.Reactive.ReactiveRequester

open List

/-- The sum of the counts granted in a run. -/
def grants (actions : List RequesterAction) : ℕ :=
  (actions.map fun
    | .resume count => count
    | _ => 0).sum

/-- The number of payloads that start with one of the frames. -/
def starts (frames : List OutFrame) : ℕ := frames.countP OutFrame.isStart

/-- What flow control is for. -/
def FlowControlled (actions : List RequesterAction) (requester : ReactiveRequester) : Prop :=
  starts requester.handed ≤ grants actions ∨ reactiveInfinityRequestsCount ≤ grants actions

/-- The payload that ends the stream comes when the credit is enough for all payloads before it, and
a grant of nothing comes when there is credit left. -/
def WithinCredit (streamId : ℤ) (requester : ReactiveRequester) (action : RequesterAction) : Prop :=
  match action with
  | .resume count =>
    count = 0 → requester.requested = 0 → requester.sending = true → requester.fragmenting = true
  | action =>
    match scheduledPayload streamId action with
    | some payload =>
      requester.accepting = true → payload.last = true →
        requester.requested = reactiveInfinityRequestsCount ∨
          requester.subscription.events.length + requester.callbacks.length ≤ requester.requested
    | none => True

instance (streamId : ℤ) (requester : ReactiveRequester) (action : RequesterAction) :
    Decidable (WithinCredit streamId requester action) :=
  match action with
  | .resume count => inferInstanceAs (Decidable (count = 0 → _))
  | .schedulePayload .. | .scheduleError .. | .scheduleCancel =>
    inferInstanceAs (Decidable (requester.accepting = true → _ = true → _ ∨ _))
  | .request .. | .close .. | .timeout | .closed | .deliver | .done .. =>
    inferInstanceAs (Decidable True)

instance (actions : List RequesterAction) (requester : ReactiveRequester) :
    Decidable (FlowControlled actions requester) :=
  inferInstanceAs (Decidable (_ ∨ _))

/-- A payload that is cut and of which no fragment is written yet. -/
def cutting (requester : ReactiveRequester) : ℕ :=
  if requester.callbacks ≠ [] ∧ requester.currentFragmentNumber = 0 ∧
    requester.lastFragments = false then 1 else 0

/-- The payloads that have left the queue and leave the stream open. -/
def taken (requester : ReactiveRequester) : ℕ :=
  starts (requester.handed ++ requester.held) + requester.cutting

/-- The payloads in a queue that leave the stream open. -/
def queued (subscription : Subscription ReactivePendingPayload) : ℕ :=
  subscription.events.countP fun payload => !payload.last

/-- The books of a stream that may go on. -/
structure Open (granted : ℕ) (requester : ReactiveRequester) : Prop where
  canceled : requester.subscription.canceled = false
  events : ∀ payload ∈ requester.subscription.events, payload.last = false
  lastFragments : requester.callbacks ≠ [] → requester.lastFragments = false
  spent : requester.callbacks.length ≤ requester.taken
  balance : requester.taken + requester.requested ≤ granted + requester.callbacks.length
  credit : requester.callbacks.length ≤ requester.requested
  paused : requester.subscription.paused = 0 → 1 ≤ requester.requested

/-- The books of a stream that can only end. -/
structure Settled (granted : ℕ) (requester : ReactiveRequester) : Prop where
  accepting : requester.accepting = false
  balance : requester.taken + queued requester.subscription ≤ granted

/-- The invariant: nothing is counted any more once the grants reach infinity. -/
def Accounted (granted : ℕ) (requester : ReactiveRequester) : Prop :=
  reactiveInfinityRequestsCount ≤ granted ∨ Settled granted requester ∨ Open granted requester

variable {streamId : ℤ} {configuration : ReactiveChannelConfiguration}
  {requester next : ReactiveRequester} {action : RequesterAction} {granted : ℕ}

/-! ## Counting frames -/

@[simp]
theorem starts_nil : starts [] = 0 := rfl

@[simp]
theorem starts_append (front back : List OutFrame) :
    starts (front ++ back) = starts front + starts back := countP_append

theorem starts_fragmentFrames (more lastFragments : Bool) (chunks : ℕ) (first : Bool) (index : ℕ)
    (fragments : List Uint8List) :
    starts (fragmentFrames more lastFragments chunks first index fragments) =
      if first = true ∧ fragments ≠ [] then 1 else 0 := by
  induction fragments generalizing first index with
  | nil => simp [fragmentFrames]
  | cons fragment fragments ih =>
    rw [fragmentFrames, ← singleton_append, starts_append, ih]
    cases first <;> simp [starts, OutFrame.isStart]

/-- A round starts a payload when it is the first one, unless it is empty. -/
theorem starts_roundFrames (configuration : ReactiveChannelConfiguration)
    (requester : ReactiveRequester) :
    starts (requester.roundFrames configuration) +
        (if requester.currentFragmentNumber +
            min configuration.chunksLimit requester.currentFragments.length = 0 ∧
            requester.lastFragments = false then 1 else 0) =
      if requester.currentFragmentNumber = 0 ∧ requester.lastFragments = false then 1 else 0 := by
  rw [roundFrames, starts_fragmentFrames]
  rcases Nat.eq_zero_or_pos (min configuration.chunksLimit requester.currentFragments.length)
    with hzero | hpos
  · simp [hzero]
  · have hne : requester.currentFragments.take
        (min configuration.chunksLimit requester.currentFragments.length) ≠ [] := by
      rw [← length_pos_iff, length_take]
      omega
    have hnum : requester.currentFragmentNumber +
        min configuration.chunksLimit requester.currentFragments.length ≠ 0 := by omega
    simp only [hnum, false_and, if_false, Nat.add_zero]
    simp [hne]

/-- What a round leaves taken. -/
theorem taken_fragmentate (requester : ReactiveRequester) :
    (fragmentate streamId configuration requester).taken =
      starts (requester.handed ++ requester.held) +
        if requester.currentFragmentNumber = 0 ∧ requester.lastFragments = false then 1 else 0 := by
  rw [← starts_roundFrames configuration, fragmentate_eq]
  simp [taken, cutting]
  omega

@[simp]
theorem queued_pause (subscription : Subscription ReactivePendingPayload) :
    queued subscription.pause = queued subscription := by
  rw [queued, Subscription.events_pause, queued]

@[simp]
theorem queued_resume (subscription : Subscription ReactivePendingPayload) :
    queued subscription.resume = queued subscription := by
  rw [queued, Subscription.events_resume, queued]

theorem queued_add {subscription : Subscription ReactivePendingPayload}
    (h : subscription.canceled = false) (payload : ReactivePendingPayload) :
    queued (subscription.add payload) =
      queued subscription + if payload.last = true then 0 else 1 := by
  rw [queued, Subscription.events_add h, countP_append, queued]
  cases hlast : payload.last <;> simp [hlast]

variable {payload : ReactivePendingPayload} {rest : Subscription ReactivePendingPayload} {index : ℕ}
  {callback : OnDone}

/-- A payload leaves the queue when no payload is being cut; a frame of another type ends the
stream. -/
theorem counted_next (hsound : Sound streamId requester)
    (hnext : requester.subscription.next? = some (payload, rest)) :
    queued requester.subscription = (if payload.last = true then 0 else 1) + queued rest ∧
      requester.callbacks = [] ∧
      requester.taken = starts requester.handed + starts requester.held ∧
      starts [wholeFrame payload] = if payload.last = true then 0 else 1 := by
  obtain ⟨-, -, hev, -, -⟩ := Subscription.next?_eq_some.mp hnext
  obtain ⟨-, -, -, hnone⟩ := hsound.rounds.idle hnext
  have hends := hsound.queued.endsOnce
  rw [hev] at hends
  refine ⟨?_, hnone, ?_, ?_⟩
  · rw [queued, hev, countP_cons, queued, Nat.add_comm]
    cases payload.last <;> rfl
  · simp [taken, cutting, hnone]
  · unfold wholeFrame
    cases hframe : payload.frame with
    | true => simp [hends.1 hframe, starts, OutFrame.isStart]
    | false => cases payload.last <;> rfl

/-- A frame of another type is no payload. -/
@[simp]
theorem starts_other (bytes : Uint8List) : starts [.other bytes] = 0 := rfl

/-- The next round takes nothing more. -/
theorem taken_round (configuration : ReactiveChannelConfiguration)
    (hsound : Sound streamId requester) (hcb : requester.callbacks[index]? = some callback) :
    (fragmentate streamId configuration { requester with
      callbacks := requester.callbacks.eraseIdx index }).taken = requester.taken := by
  obtain ⟨honly, -⟩ := callbacks_eq_singleton hsound.rounds.callbacks hcb
  rw [taken_fragmentate, taken, cutting, honly]
  simp

/-- When a write is done, no payload is being cut until the next round. -/
theorem taken_done (hsound : Sound streamId requester)
    (hcb : requester.callbacks[index]? = some callback) :
    taken { requester with callbacks := requester.callbacks.eraseIdx index } ≤ requester.taken := by
  obtain ⟨-, hnone⟩ := callbacks_eq_singleton hsound.rounds.callbacks hcb
  simp [taken, cutting, hnone]

/-! ## The books are kept -/

/-- A stream that ends has nothing left to pay for. -/
theorem settled_finishClose (hacc : requester.accepting = false)
    (h : starts requester.handed + requester.cutting ≤ granted) :
    Settled granted (finishClose requester) := by
  refine ⟨hacc, ?_⟩
  show starts (requester.handed ++ []) + requester.cutting + 0 ≤ granted
  rwa [append_nil]

theorem handed_le (requester : ReactiveRequester) :
    starts requester.handed + requester.cutting ≤ requester.taken := by
  rw [taken, starts_append]
  omega

theorem Open.taken_le (h : Open granted requester) : requester.taken ≤ granted := by
  have hbal := h.balance
  have hcredit := h.credit
  omega

theorem settled_move (hsound : Sound streamId requester) (h : Settled granted requester)
    (hmove : Move streamId configuration requester action next) : Settled granted next := by
  obtain ⟨haccepting, hbal⟩ := h
  -- What went to the connection started no more payloads than were taken.
  have hhand : starts requester.handed + requester.cutting ≤ granted := by
    have htaken := requester.handed_le
    omega
  cases hmove with
  | schedule hacc =>
    rw [haccepting] at hacc
    cases hacc
  | request hacc =>
    rw [haccepting] at hacc
    cases hacc
  | resume =>
    refine ⟨haccepting, ?_⟩
    rw [queued] at hbal ⊢
    rw [Subscription.events_resume]
    exact hbal
  | wait => exact ⟨rfl, hbal⟩
  | close => exact settled_finishClose rfl hhand
  | closed => exact settled_finishClose haccepting hhand
  | @drop payload rest hnext =>
    obtain ⟨hqueued, -, -, -⟩ := counted_next hsound hnext
    refine ⟨haccepting, ?_⟩
    show requester.taken + queued rest ≤ granted
    omega
  | @stuck payload rest _ hnext =>
    obtain ⟨hqueued, -, -, -⟩ := counted_next hsound hnext
    refine ⟨haccepting, ?_⟩
    show requester.taken + queued rest.pause ≤ granted
    rw [queued_pause]
    omega
  | @cut payload rest _ hnext =>
    -- A payload moves from the queue to those that are taken, so the sum of the two is kept.
    obtain ⟨hqueued, -, htaken', -⟩ := counted_next hsound hnext
    refine ⟨by rw [fragmentate_eq]; exact haccepting, ?_⟩
    rw [taken_fragmentate, fragmentate_eq]
    simp only [starts_append, queued_pause]
    cases hlast : payload.last <;> simp [hlast] at hqueued ⊢ <;> omega
  | @cutBehind payload rest _ hnext =>
    obtain ⟨hqueued, -, htaken', -⟩ := counted_next hsound hnext
    refine ⟨haccepting, ?_⟩
    simp only [taken, cutting, starts_append, queued_pause]
    cases hlast : payload.last <;> simp [hlast] at hqueued ⊢ <;> omega
  | @last payload rest hnext hsend hsize hlast =>
    -- What is held goes out ahead of it, and nothing is being cut.
    obtain ⟨hqueued, hnone, htaken', hstarts⟩ := counted_next hsound hnext
    refine settled_finishClose rfl ?_
    simp only [hlast, if_true] at hqueued hstarts
    simp only [cutting, starts_append, hnone, hstarts]
    simp
    omega
  | @hold payload rest hnext hsend hsize hlast =>
    obtain ⟨hqueued, hnone, htaken', hstarts⟩ := counted_next hsound hnext
    refine ⟨haccepting, ?_⟩
    simp only [hlast, Bool.false_eq_true, if_false] at hqueued hstarts
    simp only [taken, cutting, starts_append, hnone, hstarts]
    simp
    omega
  | @flush payload rest hnext hsend hsize hlast =>
    obtain ⟨hqueued, hnone, htaken', hstarts⟩ := counted_next hsound hnext
    refine ⟨haccepting, ?_⟩
    simp only [hlast, Bool.false_eq_true, if_false] at hqueued hstarts
    simp only [taken, cutting, starts_append, hnone, hstarts, apply_ite queued, queued_pause,
      ite_self]
    simp
    omega
  | round hcb =>
    -- A round of fragments goes on with a payload that was counted when it was taken.
    have htaken' := taken_round configuration hsound hcb
    refine ⟨by rw [fragmentate_eq]; exact haccepting, ?_⟩
    rw [htaken', fragmentate_eq]
    exact hbal
  | finish hcb =>
    refine settled_finishClose rfl ?_
    have htaken' := taken_done hsound hcb
    exact (handed_le _).trans (htaken'.trans (by omega))
  | proceed hcb =>
    refine ⟨haccepting, ?_⟩
    have htaken' := taken_done hsound hcb
    simp only [apply_ite queued, queued_resume, ite_self]
    show taken { requester with callbacks := _ } + _ ≤ _
    omega
  | _ => exact ⟨haccepting, hbal⟩

theorem Accounted.mono {granted' : ℕ} (hle : granted ≤ granted') (h : Accounted granted requester) :
    Accounted granted' requester := by
  rcases h with hinf | ⟨hacc, hbal⟩ | ⟨hcancel, hev, hlast, hspent, hbal, hcredit, hpaused⟩
  · exact .inl (by omega)
  · exact .inr (.inl ⟨hacc, by omega⟩)
  · exact .inr (.inr ⟨hcancel, hev, hlast, hspent, by omega, hcredit, hpaused⟩)

/-- Infinite credit was granted. -/
theorem Open.infinite (h : Open granted requester)
    (hinf : requester.requested = reactiveInfinityRequestsCount) :
    reactiveInfinityRequestsCount ≤ granted := by
  have hspent := h.spent
  have hbal := h.balance
  omega

/-- What a payload that ends the stream needs. -/
theorem WithinCredit.schedule (hwithin : WithinCredit streamId requester action)
    (hpay : scheduledPayload streamId action = some payload)
    (hacc : requester.accepting = true) (hlast : payload.last = true) :
    requester.requested = reactiveInfinityRequestsCount ∨
      requester.subscription.events.length + requester.callbacks.length ≤ requester.requested := by
  unfold WithinCredit at hwithin
  split at hwithin
  · cases hpay
  · rw [hpay] at hwithin
    exact hwithin hacc hlast

/-- What leaves the queue of an open stream does not end it, and there is credit for it. -/
theorem Open.delivered (h : Open granted requester)
    (hnext : requester.subscription.next? = some (payload, rest)) :
    payload.last = false ∧ rest.canceled = false ∧ (∀ later ∈ rest.events, later.last = false) ∧
      1 ≤ requester.requested := by
  obtain ⟨-, hzero, hev, hsub, -⟩ := Subscription.next?_eq_some.mp hnext
  have hnotLast := h.events
  rw [hev] at hnotLast
  exact ⟨hnotLast payload mem_cons_self, hsub,
    fun later hmem => hnotLast later (mem_cons_of_mem _ hmem), h.paused hzero⟩

/-- A round while the stream is open. -/
theorem open_fragmentate (hcancel : requester.subscription.canceled = false)
    (hnone : requester.callbacks = [])
    (hev : ∀ payload ∈ requester.subscription.events, payload.last = false)
    (hlast : requester.lastFragments = false)
    (hspent : 1 ≤ (fragmentate streamId configuration requester).taken)
    (hbal : (fragmentate streamId configuration requester).taken + requester.requested ≤
      granted + 1)
    (hcredit : 1 ≤ requester.requested) :
    Open granted (fragmentate streamId configuration requester) := by
  -- The payload that is being cut is taken, and its callback stands for the credit it has yet to
  -- spend.
  have hlen : (fragmentate streamId configuration requester).callbacks.length = 1 := by
    rw [fragmentate_eq, hnone]
    rfl
  have hreq : (fragmentate streamId configuration requester).requested = requester.requested := by
    rw [fragmentate_eq]
  constructor
  · rwa [fragmentate_eq]
  · rwa [fragmentate_eq]
  · rw [fragmentate_eq]
    exact fun _ => hlast
  · rwa [hlen]
  · rwa [hlen, hreq]
  · rwa [hlen, hreq]
  · rw [hreq]
    exact fun _ => hcredit

/-- The books are the same, and the queue holds nothing that ends the stream. -/
theorem Open.of_eq (h : Open granted requester) (hcancel : next.subscription.canceled = false)
    (hev : ∀ payload ∈ next.subscription.events, payload.last = false)
    (hcbs : next.callbacks = requester.callbacks)
    (hlast : next.lastFragments = requester.lastFragments) (htaken : next.taken = requester.taken)
    (hreq : next.requested = requester.requested)
    (hpaused : next.subscription.paused = 0 → 1 ≤ requester.requested) : Open granted next where
  canceled := hcancel
  events := hev
  lastFragments hne := by
    rw [hcbs] at hne
    rw [hlast]
    exact h.lastFragments hne
  spent := by
    rw [hcbs, htaken]
    exact h.spent
  balance := by
    rw [hcbs, htaken, hreq]
    exact h.balance
  credit := by
    rw [hcbs, hreq]
    exact h.credit
  paused hzero := by
    rw [hreq]
    exact hpaused hzero

/-- A payload that is sent in one frame costs one. -/
theorem Open.of_spent (h : Open granted requester) (hnone : requester.callbacks = [])
    (hpos : 1 ≤ requester.requested) (hcancel : next.subscription.canceled = false)
    (hev : ∀ payload ∈ next.subscription.events, payload.last = false)
    (hcbs : next.callbacks = []) (htaken : next.taken = requester.taken + 1)
    (hreq : next.requested = requester.requested - 1)
    (hpaused : next.subscription.paused = 0 → 1 ≤ next.requested) : Open granted next where
  canceled := hcancel
  events := hev
  lastFragments hne := absurd hcbs hne
  spent := by
    rw [hcbs]
    exact Nat.zero_le _
  balance := by
    have hbal := h.balance
    rw [hnone, length_nil] at hbal
    rw [hcbs, htaken, hreq, length_nil]
    push_cast
    omega
  credit := by
    rw [hcbs, hreq, length_nil]
    push_cast
    omega
  paused := hpaused

/-- A payload is scheduled. -/
theorem Open.schedule (h : Open granted requester) (hsound : Sound streamId requester)
    (hwithin : WithinCredit streamId requester action) (hacc : requester.accepting = true)
    (hpay : scheduledPayload streamId action = some payload) :
    Accounted granted { requester with
      accepting := !payload.last
      subscription :=
        if creditScheduled payload.last requester.requested > 0 ∧ requester.fragmenting = false ∧
            requester.sending = true then
          (requester.subscription.add payload).resume
        else requester.subscription.add payload
      pending := requester.pending + 1
      requested := creditScheduled payload.last requester.requested } := by
  have hinfinite := h.infinite
  have hbal := h.balance
  obtain ⟨-, hsub, -⟩ := hsound.lifecycle.accepting hacc
  have hqueued := queued_add hsub payload
  cases hlastPay : payload.last with
  | true =>
    rcases hwithin.schedule hpay hacc hlastPay with hinf | hpaid
    · exact .inl (hinfinite hinf)
    · -- What is queued and being cut is paid for by the credit.
      refine .inr (.inl ⟨rfl, ?_⟩)
      have hle : queued requester.subscription ≤ requester.subscription.events.length :=
        countP_le_length
      simp only [apply_ite queued, queued_resume, ite_self, hqueued, hlastPay, if_true]
      show requester.taken + _ ≤ granted
      omega
  | false =>
    -- The credit does not change.
    refine .inr (.inr (h.of_eq ?_ ?_ rfl rfl rfl rfl ?_))
    · simpa [apply_ite Subscription.canceled] using hsub
    · simp only [apply_ite Subscription.events, Subscription.events_resume, ite_self,
        Subscription.events_add hsub]
      intro earlier hmem
      rcases mem_append.mp hmem with hmem | hmem
      · exact h.events earlier hmem
      · obtain rfl := mem_singleton.mp hmem
        exact hlastPay
    · split
      · have hcredit : creditScheduled false requester.requested = requester.requested := rfl
        exact fun _ => by omega
      · rw [Subscription.paused_add]
        exact h.paused

/-- A grant. -/
theorem Open.resume {count : ℕ} (h : Open granted requester) (hsound : Sound streamId requester)
    (hwithin : WithinCredit streamId requester (.resume count))
    (hsend : requester.sending = true) (hfrag : requester.fragmenting = false) :
    Accounted (granted + count) { requester with
      requested := creditResumed count requester.requested
      subscription := requester.subscription.resume } := by
  have hinfinite := h.infinite
  have hbal := h.balance
  have hcredit := h.credit
  have hnone : requester.callbacks = [] := by
    by_contra hcbs
    rcases hsound.rounds.fragmenting hcbs with hcancel | hfrag'
    · obtain ⟨hsend', -⟩ := hsound.lifecycle.canceled hcancel
      rw [hsend] at hsend'
      cases hsend'
    · rw [hfrag] at hfrag'
      cases hfrag'
  -- A grant of nothing comes only when there is credit left.
  have hpos : count = 0 → requester.requested ≠ 0 := by
    intro hzero hreq
    have hfrag' := hwithin hzero hreq hsend
    rw [hfrag] at hfrag'
    cases hfrag'
  simp only [hnone, length_nil] at hbal hcredit
  by_cases hinf : requester.requested = reactiveInfinityRequestsCount
  · have hgranted := hinfinite hinf
    exact .inl (by omega)
  · by_cases hgrant : reactiveInfinityRequestsCount ≤ (count : ℤ)
    · exact .inl (by omega)
    · have hresumed : creditResumed count requester.requested =
          min (requester.requested + count) reactiveInfinityRequestsCount := by
        rw [creditResumed, if_neg (by simp [hinf, hgrant])]
      have hlimit : 1 ≤ reactiveInfinityRequestsCount := by decide
      refine .inr (.inr ⟨by simpa using h.canceled, ?_, h.lastFragments, ?_, ?_, ?_, fun _ => ?_⟩)
      · simpa only [Subscription.events_resume] using h.events
      · simp [hnone]
      · show (requester.taken : ℤ) + creditResumed count requester.requested ≤ _
        rw [hresumed]
        push_cast
        omega
      · show (requester.callbacks.length : ℤ) ≤ creditResumed count requester.requested
        rw [hresumed, hnone]
        simp only [length_nil]
        omega
      · show 1 ≤ creditResumed count requester.requested
        rw [hresumed]
        omega

/-- The payload that was cut is written, and its credit is spent now. -/
theorem Open.proceed (h : Open granted requester) (hsound : Sound streamId requester)
    (hcb : requester.callbacks[index]? = some callback) :
    Accounted granted { requester with
      callbacks := requester.callbacks.eraseIdx index
      fragmenting := false
      requested := creditSpent requester.requested
      subscription :=
        if creditSpent requester.requested > 0 then requester.subscription.resume
        else requester.subscription } := by
  obtain ⟨honly, hnone⟩ := callbacks_eq_singleton hsound.rounds.callbacks hcb
  have htaken := taken_done hsound hcb
  have hbal := h.balance
  have hcredit := h.credit
  rw [hnone] at htaken
  simp only [honly, length_singleton] at hbal hcredit
  -- An infinite credit is not spent.
  by_cases hinf : requester.requested = reactiveInfinityRequestsCount
  · exact .inl (h.infinite hinf)
  have hcreditSpent : creditSpent requester.requested = requester.requested - 1 := if_neg hinf
  -- No cancellation came between the rounds, or nothing would be open.
  have hfrag : requester.fragmenting = true := by
    rcases hsound.rounds.fragmenting (by simp [honly]) with hcancel | hfrag
    · rw [h.canceled] at hcancel
      cases hcancel
    · exact hfrag
  have hpaused := hsound.rounds.paused hfrag
  -- The callback is gone and the credit is one lower: the balance is the same.
  refine .inr (.inr ⟨?_, ?_, fun h => absurd hnone h, ?_, ?_, ?_, ?_⟩)
  · simpa [apply_ite Subscription.canceled] using h.canceled
  · simpa [apply_ite Subscription.events] using h.events
  · simp [hnone]
  · show ((taken { requester with callbacks := _ } : ℕ) : ℤ) + _ ≤ _
    simp [hnone]
    omega
  · simp [hnone]
    omega
  · dsimp only
    split
    · exact fun _ => by omega
    · exact fun hzero => by omega

/-- What leaves the queue and is sent in one frame starts a payload. -/
theorem Open.taken_whole (h : Open granted requester) (hsound : Sound streamId requester)
    (hnext : requester.subscription.next? = some (payload, rest))
    (hframes : starts (next.handed ++ next.held) =
      starts (requester.handed ++ requester.held ++ [wholeFrame payload]))
    (hcbs : next.callbacks = []) : next.taken = requester.taken + 1 := by
  obtain ⟨-, -, htaken, hstarts⟩ := counted_next hsound hnext
  obtain ⟨hlast, -, -, -⟩ := h.delivered hnext
  simp only [hlast, Bool.false_eq_true, if_false] at hstarts
  rw [taken, cutting, hframes, hcbs, starts_append, starts_append, hstarts, htaken]
  simp

theorem open_move (hsound : Sound streamId requester) (h : Open granted requester)
    (hwithin : WithinCredit streamId requester action)
    (hmove : Move streamId configuration requester action next) :
    Accounted (granted + grants [action]) next := by
  have hhand : starts requester.handed + requester.cutting ≤ granted :=
    requester.handed_le.trans h.taken_le
  have hgranted := Nat.le_add_right granted (grants [action])
  have hbal := h.balance
  have hcredit := h.credit
  cases hmove with
  | refused | ignored => exact .mono hgranted (.inr (.inr h))
  | request =>
    refine .mono hgranted (.inr (.inr (h.of_eq h.canceled h.events rfl rfl ?_ rfl h.paused)))
    simp only [taken, cutting, starts_append, starts_other, Nat.add_zero]
  | schedule hacc hpay => exact .mono hgranted (h.schedule hsound hwithin hacc hpay)
  | @resume count hsend hfrag =>
    have hcount : grants [.resume count] = count := by simp [grants]
    rw [hcount]
    exact h.resume hsound hwithin hsend hfrag
  | wait | timeout =>
    exact .mono hgranted (.inr (.inr (h.of_eq h.canceled h.events rfl rfl rfl rfl h.paused)))
  | close => exact .mono hgranted (.inr (.inl (settled_finishClose rfl hhand)))
  | closed _ hwaits =>
    refine .mono hgranted (.inr (.inl (settled_finishClose ?_ hhand)))
    by_contra hacc
    obtain ⟨-, -, htimers, hwait⟩ := hsound.lifecycle.accepting (by simpa using hacc)
    omega
  | @drop payload rest hnext =>
    obtain ⟨-, hcancel, hev, hpos⟩ := h.delivered hnext
    exact .mono hgranted (.inr (.inr
      (h.of_eq hcancel hev rfl rfl rfl rfl fun _ => hpos)))
  | @stuck payload rest _ hnext =>
    obtain ⟨-, hcancel, hev, hpos⟩ := h.delivered hnext
    refine .mono hgranted (.inr (.inr
      (h.of_eq ?_ ?_ rfl rfl rfl rfl fun _ => hpos)))
    · simpa using hcancel
    · simpa using hev
  | @cut payload rest _ hnext =>
    obtain ⟨-, hnone, htaken, -⟩ := counted_next hsound hnext
    obtain ⟨hlastPay, hsub', hrest, hpos⟩ := h.delivered hnext
    refine .mono hgranted (.inr (.inr
      (open_fragmentate (by simpa using hsub') hnone ?_ hlastPay ?_ ?_ hpos)))
    · simpa using hrest
    · simp [taken_fragmentate, hlastPay]
    · rw [taken_fragmentate, starts_append]
      simp only [hlastPay, and_self, if_true]
      simp only [hnone, length_nil] at hbal
      push_cast
      omega
  | @cutBehind payload rest _ hnext =>
    obtain ⟨-, hnone, htaken, -⟩ := counted_next hsound hnext
    obtain ⟨hlastPay, hsub', hrest, hpos⟩ := h.delivered hnext
    simp only [hnone, length_nil] at hbal
    refine .mono hgranted
      (.inr (.inr ⟨by simpa, ?_, fun _ => hlastPay, ?_, ?_, ?_, fun _ => hpos⟩))
    · simpa using hrest
    · simp [hnone, taken, cutting, hlastPay]
    · simp [hnone, taken, cutting, hlastPay]
      omega
    · simpa [hnone] using hpos
  | @last payload rest hnext hsend hsize hlast =>
    -- What ends the stream is not in the queue of an open one.
    obtain ⟨hlastPay, -, -, -⟩ := h.delivered hnext
    rw [hlast] at hlastPay
    cases hlastPay
  | @hold payload rest hnext hsend hsize _ _ _ hspent =>
    obtain ⟨-, hnone, -, -⟩ := counted_next hsound hnext
    obtain ⟨-, hsub, hrest, hpos⟩ := h.delivered hnext
    by_cases hinf : requester.requested = reactiveInfinityRequestsCount
    · exact .mono hgranted (.inl (h.infinite hinf))
    have hcreditSpent : creditSpent requester.requested = requester.requested - 1 := if_neg hinf
    refine .mono hgranted (.inr (.inr
      (h.of_spent hnone hpos hsub hrest hnone ?_ hcreditSpent fun _ => ?_)))
    · exact h.taken_whole hsound hnext (by rw [append_assoc]) hnone
    · dsimp only
      omega
  | @flush payload rest hnext =>
    obtain ⟨-, hnone, -, -⟩ := counted_next hsound hnext
    obtain ⟨-, hsub, hrest, hpos⟩ := h.delivered hnext
    by_cases hinf : requester.requested = reactiveInfinityRequestsCount
    · exact .mono hgranted (.inl (h.infinite hinf))
    have hcreditSpent : creditSpent requester.requested = requester.requested - 1 := if_neg hinf
    refine .mono hgranted (.inr (.inr
      (h.of_spent hnone hpos ?_ ?_ hnone ?_ hcreditSpent ?_)))
    · simpa [apply_ite Subscription.canceled] using hsub
    · simpa [apply_ite Subscription.events] using hrest
    · exact h.taken_whole hsound hnext (by rw [append_nil, append_assoc]) hnone
    · -- The queue is paused when the credit is spent.
      dsimp only
      split
      · rw [Subscription.paused_pause hsub]
        exact fun hzero => by omega
      · exact fun _ => by omega
  | round hcb =>
    obtain ⟨honly, hnone⟩ := callbacks_eq_singleton hsound.rounds.callbacks hcb
    have htaken := taken_round configuration hsound hcb
    have hspent := h.spent
    simp only [honly, length_singleton] at hspent hbal hcredit
    refine .mono hgranted (.inr (.inr (open_fragmentate h.canceled hnone h.events
      (h.lastFragments (by simp [honly])) ?_ ?_ (by exact_mod_cast hcredit))))
    · rwa [htaken]
    · rw [htaken]
      exact_mod_cast hbal
  | finish hcb =>
    refine .mono hgranted (.inr (.inl (settled_finishClose rfl ?_)))
    exact (handed_le _).trans ((taken_done hsound hcb).trans h.taken_le)
  | proceed hcb => exact .mono hgranted (h.proceed hsound hcb)

theorem accounted_step (history : List RequesterAction)
    (h : Sound streamId requester ∧ Accounted (grants history) requester)
    (hwithin : WithinCredit streamId requester action)
    (hstep : step streamId configuration requester action = some next) :
    Sound streamId next ∧ Accounted (grants (history ++ [action])) next := by
  obtain ⟨hsound, hacct⟩ := h
  have hmove := step_move hsound.lifecycle.closing hstep
  have hgrants : grants (history ++ [action]) = grants history + grants [action] := by
    simp [grants]
  rw [hgrants]
  refine ⟨sound_step hsound hstep, ?_⟩
  rcases hacct with hinf | hsettled | hopen
  · exact .inl (by push_cast; omega)
  · obtain ⟨hacc, hbal⟩ := settled_move hsound hsettled hmove
    exact .inr (.inl ⟨hacc, by omega⟩)
  · exact open_move hsound hopen hwithin hmove

theorem accounted_new (chunkSize : ℕ) : Accounted 0 (new chunkSize) := by
  refine .inr (.inr ⟨?_, ?_, ?_, ?_, ?_, ?_, ?_⟩)
  · rfl
  · exact nofun
  · exact fun h => absurd rfl h
  · exact Nat.zero_le _
  · rfl
  · rfl
  · exact nofun

theorem flowControlled_of_accounted {actions : List RequesterAction}
    (h : Accounted (grants actions) requester) : FlowControlled actions requester := by
  have hhand := requester.handed_le
  rcases h with hinf | hsettled | hopen
  · exact .inr hinf
  · have hbal := hsettled.balance
    exact .inl (by omega)
  · have htaken := hopen.taken_le
    exact .inl (by omega)

/-- **In every run that stays within its credit, no more payloads are handed to the connection than
were granted.** -/
theorem flowControlled (streamId : ℤ) (configuration : ReactiveChannelConfiguration)
    (chunkSize : ℕ) (actions : List RequesterAction) (requester : ReactiveRequester)
    (hwithin : Transition.Along (step streamId configuration) (WithinCredit streamId)
      (new chunkSize) actions)
    (hrun : Transition.run (step streamId configuration) (new chunkSize) actions = some requester) :
    FlowControlled actions requester := by
  have h := Transition.run_induction
    (fun history requester => Sound streamId requester ∧ Accounted (grants history) requester)
    (fun history _ _ _ => accounted_step history) ⟨sound_new chunkSize, accounted_new chunkSize⟩
    hwithin hrun
  exact flowControlled_of_accounted h.2

/-- One payload, a grant of one, and the payload is sent. -/
theorem flowControlled_granted :
    FlowControlled [.schedulePayload [7] false, .resume 1, .deliver]
      (((Transition.run (step 1 ⟨1, 100, 1, 10⟩) (new 64)
        [.schedulePayload [7] false, .resume 1, .deliver])).get (by decide)) :=
  flowControlled 1 ⟨1, 100, 1, 10⟩ 64 _ _ (by decide) (Option.some_get _).symm

/-- A payload and the end of the stream behind it, and no grant: the payload is sent with the credit
that the end of the stream brought. -/
theorem not_flowControlled_complete :
    ∃ requester, Transition.run (step 1 ⟨1, 100, 1, 10⟩) (new 64)
        [.schedulePayload [7] false, .schedulePayload [] true, .deliver] = some requester ∧
      ¬FlowControlled [.schedulePayload [7] false, .schedulePayload [] true, .deliver] requester :=
  ⟨_, rfl, by decide⟩

/-- A grant of nothing lets a payload pass as well. -/
example : ∃ requester, Transition.run (step 1 ⟨1, 100, 1, 10⟩) (new 64)
      [.schedulePayload [7] false, .resume 0, .deliver] = some requester ∧
    ¬FlowControlled [.schedulePayload [7] false, .resume 0, .deliver] requester :=
  ⟨_, rfl, by decide⟩

end FengShui.Reactive.ReactiveRequester
