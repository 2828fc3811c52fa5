import FengShui.Reactive.FlowControl

/-!
# The credit of an open requester

While payloads are scheduled, credit is granted and writes come to their end, `_requested` is to be
what was granted less what was sent, and infinity for good once it gets there (`CreditKept`). A
grant that comes while a payload is cut is dropped by `resume`, so the credit is kept in every state
of a run exactly when no grant comes then, unless the credit is infinite already (`Heard`).
-/

namespace FengShui.Reactive.ReactiveRequester

open Transition List

/-- What happens to a requester that is open and whose stream is not to end: payloads are scheduled,
credit is granted, the subscription takes a payload, and a write is done. -/
def Ongoing : RequesterAction → Prop
  | .schedulePayload _ complete => complete = false
  | .resume count => 1 ≤ count
  | .deliver => True
  | .done _ => True
  | .request _ | .scheduleError _ | .scheduleCancel | .close _ | .timeout | .closed => False

instance : DecidablePred Ongoing := fun action => by
  cases action <;> unfold Ongoing <;> infer_instance

/-- The payloads that are sent: those that left the queue, but for the one whose fragments are not
all written yet. -/
def sent (requester : ReactiveRequester) : ℤ := requester.taken - requester.callbacks.length

/-- What was granted in a run less what was sent. -/
def balance (actions : List RequesterAction) (requester : ReactiveRequester) : ℤ :=
  grants actions - requester.sent

section Statement

variable (streamId : ℤ) (configuration : ReactiveChannelConfiguration) (start : ReactiveRequester)

/-- The balance reached infinity at some time of the run. -/
def Saturated (actions : List RequesterAction) : Prop :=
  ∃ front back requester, actions = front ++ back ∧
    run (step streamId configuration) start front = some requester ∧
    reactiveInfinityRequestsCount ≤ balance front requester

/-- No credit is lost, and none is made up. -/
structure CreditKept (actions : List RequesterAction) (requester : ReactiveRequester) : Prop where
  saturated : Saturated streamId configuration start actions →
    requester.requested = reactiveInfinityRequestsCount
  balanced : ¬Saturated streamId configuration start actions →
    requester.requested = balance actions requester

end Statement

/-- A grant does not come while a payload is cut, unless nothing is counted any more. -/
def Heard (requester : ReactiveRequester) : RequesterAction → Prop
  | .resume _ => requester.fragmenting = false ∨ requester.requested = reactiveInfinityRequestsCount
  | _ => True

instance (requester : ReactiveRequester) (action : RequesterAction) :
    Decidable (Heard requester action) := by
  cases action <;> unfold Heard <;> infer_instance

variable {streamId : ℤ} {configuration : ReactiveChannelConfiguration}
  {requester next : ReactiveRequester} {action : RequesterAction}

/-! ## What a step does to the credit -/

/-- What is left of the credit of an open requester: a payload that is cut has its own, and the
queue is taken from only while there is some. -/
structure Funded (requester : ReactiveRequester) : Prop where
  accepting : requester.accepting = true
  cut : requester.callbacks ≠ [] → 0 < requester.currentFragmentsCount
  credit : requester.callbacks.length ≤ requester.requested
  paused : requester.subscription.paused = 0 → 1 ≤ requester.requested

theorem Funded.requested_nonneg (h : Funded requester) : 0 ≤ requester.requested := by
  have hcredit := h.credit
  omega

/-- A grant to a credit that is not negative is not lost. -/
theorem le_creditResumed {count : ℕ} {requested : ℤ} (hreq : 0 ≤ requested) (hcount : 1 ≤ count) :
    1 ≤ creditResumed count requested := by
  have hlimit : 1 ≤ reactiveInfinityRequestsCount := by decide
  unfold creditResumed
  split
  · exact hlimit
  · omega

/-- What a step of an open requester does to its credit. -/
inductive Books (requester next : ReactiveRequester) : RequesterAction → Prop
  /-- A grant is added. -/
  | granted (count : ℕ) (hrequested : next.requested = creditResumed count requester.requested)
      (hsent : next.sent = requester.sent) : Books requester next (.resume count)
  /-- A payload is sent. -/
  | paid {action : RequesterAction} (hgrants : grants [action] = 0)
      (hrequested : next.requested = creditSpent requester.requested)
      (hsent : next.sent = requester.sent + 1) : Books requester next action
  /-- Neither. -/
  | kept {action : RequesterAction} (hgrants : grants [action] = 0)
      (hrequested : next.requested = requester.requested) (hsent : next.sent = requester.sent) :
      Books requester next action

variable {payload : ReactivePendingPayload} {rest : Subscription ReactivePendingPayload}

/-- What leaves the queue of a requester that accepts does not end the stream. -/
theorem delivered_of_accepting (hsound : Sound streamId requester)
    (hacc : requester.accepting = true)
    (hnext : requester.subscription.next? = some (payload, rest)) : payload.last = false := by
  obtain ⟨-, -, hev, -, -⟩ := Subscription.next?_eq_some.mp hnext
  exact hsound.queued.accepting hacc payload (by rw [hev]; exact mem_cons_self)

/-- A step that takes what it brings callbacks for sends nothing. -/
theorem sent_eq_of_taken
    (h : next.taken + requester.callbacks.length = requester.taken + next.callbacks.length) :
    next.sent = requester.sent := by
  rw [sent, sent]
  omega

/-- A step that takes one payload more, or is done with its callback, sends it. -/
theorem sent_succ_of_taken
    (h : next.taken + requester.callbacks.length = requester.taken + next.callbacks.length + 1) :
    next.sent = requester.sent + 1 := by
  rw [sent, sent]
  omega

theorem callbacks_fragmentate (requester : ReactiveRequester) :
    (fragmentate streamId configuration requester).callbacks =
      requester.callbacks ++ [.fragmentateNext] := by
  rw [fragmentate_eq]

/-- A payload that is sent in one frame. -/
theorem sent_whole (hsound : Sound streamId requester)
    (hnext : requester.subscription.next? = some (payload, rest)) (hlast : payload.last = false)
    (hframes : starts (next.handed ++ next.held) =
      starts (requester.handed ++ requester.held ++ [wholeFrame payload]))
    (hcbs : next.callbacks = []) : next.sent = requester.sent + 1 := by
  obtain ⟨-, hnone, htaken, hstarts⟩ := counted_next hsound hnext
  simp only [hlast, Bool.false_eq_true, if_false] at hstarts
  have htaken' : next.taken = requester.taken + 1 := by
    rw [taken, cutting, hframes, hcbs, starts_append, starts_append, hstarts, htaken]
    simp
  refine sent_succ_of_taken ?_
  rw [htaken', hnone, hcbs]
  rfl

/-- A credit that is there and spent is not negative, and is gone only when it was one. -/
theorem creditSpent_nonneg {requested : ℤ} (h : 1 ≤ requested) : 0 ≤ creditSpent requested := by
  unfold creditSpent
  split <;> omega

/-- A requester that is cutting a payload has the one callback, and is at it. -/
theorem fragmenting_of_callbacks (hsound : Sound streamId requester)
    (hacc : requester.accepting = true) (hcbs : requester.callbacks ≠ []) :
    requester.fragmenting = true := by
  obtain ⟨-, hsub, -⟩ := hsound.lifecycle.accepting hacc
  rcases hsound.rounds.fragmenting hcbs with hcancel | hfrag
  · rw [hsub] at hcancel
    cases hcancel
  · exact hfrag

/-- A round of fragments is funded by the credit of its payload. -/
theorem funded_fragmentate (hacc : requester.accepting = true) (hnone : requester.callbacks = [])
    (hcount : 0 < requester.currentFragmentsCount) (hcredit : 1 ≤ requester.requested) :
    Funded (fragmentate streamId configuration requester) := by
  rw [fragmentate_eq]
  refine ⟨hacc, fun _ => hcount, ?_, fun _ => hcredit⟩
  rw [hnone]
  exact hcredit

/-- A round sends nothing as long as its callback is to come. -/
theorem sent_round (hsound : Sound streamId requester) {index : ℕ} {callback : OnDone}
    (hcb : requester.callbacks[index]? = some callback) :
    (fragmentate streamId configuration
      { requester with callbacks := requester.callbacks.eraseIdx index }).sent =
        requester.sent := by
  obtain ⟨honly, hnone⟩ := callbacks_eq_singleton hsound.rounds.callbacks hcb
  have htaken := taken_round configuration hsound hcb
  have hlen : (requester.callbacks.eraseIdx index ++ [OnDone.fragmentateNext]).length =
      requester.callbacks.length := by
    rw [hnone, honly]
    rfl
  refine sent_eq_of_taken ?_
  rw [htaken, callbacks_fragmentate]
  exact congrArg (requester.taken + ·) hlen.symm

/-- With the last callback of a payload that was cut the payload is sent. -/
theorem sent_proceed {index : ℕ} (honly : requester.callbacks = [.fragmentateNext])
    (hnone : requester.callbacks.eraseIdx index = [])
    (hcount : 0 < requester.currentFragmentsCount)
    (hmore : requester.currentFragmentsCount ≤ requester.currentFragmentNumber) :
    sent { requester with callbacks := requester.callbacks.eraseIdx index } =
      requester.sent + 1 := by
  have hnum : requester.currentFragmentNumber ≠ 0 := by omega
  -- All fragments are written, so the payload is no longer the one being cut.
  have hcutting : requester.cutting = 0 := by
    rw [cutting, if_neg]
    exact fun hfirst => hnum hfirst.2.1
  have htaken : taken { requester with callbacks := requester.callbacks.eraseIdx index } =
      requester.taken := by
    rw [taken, taken, hcutting, cutting, hnone, if_neg fun hfirst => hfirst.1 rfl]
  have hlen : requester.callbacks.length = 1 := by
    rw [honly]
    rfl
  have hnil : (requester.callbacks.eraseIdx index).length = 0 := by
    rw [hnone]
    rfl
  refine sent_succ_of_taken ?_
  show taken { requester with callbacks := requester.callbacks.eraseIdx index } +
      requester.callbacks.length =
    requester.taken + (requester.callbacks.eraseIdx index).length + 1
  omega

/-- Every step of an open requester that hears its grants keeps it funded and keeps its books. -/
theorem books_move (hsound : Sound streamId requester) (h : Funded requester)
    (hongoing : Ongoing action) (hheard : Heard requester action)
    (hmove : Move streamId configuration requester action next) :
    Funded next ∧ Books requester next action := by
  obtain ⟨hacc, hcut, hcredit, hpaused⟩ := h
  obtain ⟨hsend, hsub, htimers, hwait⟩ := hsound.lifecycle.accepting hacc
  have hnonneg : 0 ≤ requester.requested := by omega
  cases hmove with
  | refused hrefused =>
    rw [hacc] at hrefused
    cases hrefused
  | @ignored count hdropped =>
    -- Only a requester whose credit is infinite ignores a grant here.
    have hinf : requester.requested = reactiveInfinityRequestsCount := by
      rcases hheard with hfrag | hinf
      · rw [hsend, hfrag] at hdropped
        rcases hdropped with hdropped | hdropped <;> cases hdropped
      · exact hinf
    refine ⟨⟨hacc, hcut, hcredit, hpaused⟩, .granted count ?_ rfl⟩
    rw [creditResumed, if_pos (.inl hinf), hinf]
  | request => cases hongoing
  | @schedule _ payload _ hpay =>
    have hlast : payload.last = false := by
      cases action with
      | schedulePayload bytes complete =>
        obtain rfl : _ = payload := Option.some.inj hpay
        exact hongoing
      | scheduleError message => cases hongoing
      | scheduleCancel => cases hongoing
      | _ => cases hpay
    have hgrants : grants [action] = 0 := by
      cases action with
      | resume count => cases hpay
      | _ => rfl
    have hsame : creditScheduled payload.last requester.requested = requester.requested := by
      rw [hlast]
      rfl
    refine ⟨⟨by rw [hlast]; rfl, hcut, ?_, ?_⟩, .kept hgrants hsame rfl⟩
    · rw [hsame]
      exact hcredit
    · rw [hsame]
      dsimp only
      split
      · rename_i hpos
        exact fun _ => hpos.1
      · rw [Subscription.paused_add]
        exact hpaused
  | @resume count _ hfrag =>
    have hpos : 1 ≤ creditResumed count requester.requested := le_creditResumed hnonneg hongoing
    have hcbs := hsound.rounds.callbacks
    refine ⟨⟨hacc, hcut, ?_, fun _ => hpos⟩, .granted count rfl rfl⟩
    show (requester.callbacks.length : ℤ) ≤ creditResumed count requester.requested
    omega
  | wait => cases hongoing
  | close => cases hongoing
  | timeout => cases hongoing
  | closed => cases hongoing
  | drop _ hstopped =>
    rw [hsend] at hstopped
    cases hstopped
  | @stuck payload rest e hnext =>
    obtain ⟨-, hzero, -, hsub', -⟩ := Subscription.next?_eq_some.mp hnext
    refine ⟨⟨hacc, hcut, hcredit, fun hunpaused => ?_⟩, .kept rfl rfl rfl⟩
    rw [Subscription.paused_pause hsub'] at hunpaused
    omega
  | @cut payload rest fragments hnext _ hsize hfrags =>
    obtain ⟨-, hzero, -, hsub', -⟩ := Subscription.next?_eq_some.mp hnext
    obtain ⟨-, hnone, htaken, -⟩ := counted_next hsound hnext
    have hlast := delivered_of_accepting hsound hacc hnext
    have hpos := hpaused hzero
    have hne : fragments ≠ [] :=
      disassemble_ne_nil (length_pos_iff.mp (by omega)) hfrags
    refine ⟨funded_fragmentate hacc hnone (length_pos_iff.mpr hne) hpos, .kept rfl ?_ ?_⟩
    · rw [fragmentate_eq]
    · -- The payload is taken, and its callback stands for the credit it has yet to spend.
      refine sent_eq_of_taken ?_
      rw [taken_fragmentate, callbacks_fragmentate, htaken]
      simp [hnone, hlast]
  | @cutBehind payload rest fragments hnext _ hsize hfrags =>
    obtain ⟨-, hzero, -, hsub', -⟩ := Subscription.next?_eq_some.mp hnext
    obtain ⟨-, hnone, htaken, -⟩ := counted_next hsound hnext
    have hlast := delivered_of_accepting hsound hacc hnext
    have hpos := hpaused hzero
    have hne : fragments ≠ [] :=
      disassemble_ne_nil (length_pos_iff.mp (by omega)) hfrags
    refine ⟨⟨hacc, fun _ => length_pos_iff.mpr hne, ?_, fun _ => hpos⟩, .kept rfl rfl ?_⟩
    · rw [hnone]
      exact hpos
    · refine sent_eq_of_taken ?_
      rw [htaken]
      simp [taken, cutting, hnone, hlast]
  | @last payload rest hnext _ _ hends =>
    rw [delivered_of_accepting hsound hacc hnext] at hends
    cases hends
  | @hold payload rest hnext _ _ hlast _ _ hspent =>
    obtain ⟨-, hzero, -, -, -⟩ := Subscription.next?_eq_some.mp hnext
    obtain ⟨-, hnone, -, -⟩ := counted_next hsound hnext
    have hleft := creditSpent_nonneg (hpaused hzero)
    refine ⟨⟨hacc, hcut, ?_, fun _ => ?_⟩, .paid rfl rfl ?_⟩
    · rw [hnone]
      exact hleft
    · dsimp only
      omega
    · refine sent_whole hsound hnext hlast ?_ hnone
      rw [append_assoc]
  | @flush payload rest hnext _ _ hlast =>
    obtain ⟨-, hzero, -, hsub', -⟩ := Subscription.next?_eq_some.mp hnext
    obtain ⟨-, hnone, -, -⟩ := counted_next hsound hnext
    have hleft := creditSpent_nonneg (hpaused hzero)
    refine ⟨⟨hacc, hcut, ?_, ?_⟩, .paid rfl rfl ?_⟩
    · rw [hnone]
      exact hleft
    · -- The queue is paused when the credit is spent.
      dsimp only
      split
      · rw [Subscription.paused_pause hsub']
        exact fun hunpaused => by omega
      · exact fun _ => by omega
    · refine sent_whole hsound hnext hlast ?_ hnone
      rw [append_nil, append_assoc]
  | @round index callback hcb =>
    obtain ⟨honly, hnone⟩ := callbacks_eq_singleton hsound.rounds.callbacks hcb
    have hsome : requester.callbacks ≠ [] := by rw [honly]; exact cons_ne_nil _ _
    rw [honly, length_singleton] at hcredit
    refine ⟨funded_fragmentate hacc hnone (hcut hsome) hcredit, .kept rfl ?_
      (sent_round hsound hcb)⟩
    rw [fragmentate_eq]
  | finish hcb _ hends =>
    obtain ⟨honly, -⟩ := callbacks_eq_singleton hsound.rounds.callbacks hcb
    rw [hsound.ending hacc (by rw [honly]; exact cons_ne_nil _ _)] at hends
    cases hends
  | @proceed index hcb hmore hlast =>
    obtain ⟨honly, hnone⟩ := callbacks_eq_singleton hsound.rounds.callbacks hcb
    have hsome : requester.callbacks ≠ [] := by rw [honly]; exact cons_ne_nil _ _
    have hcount := hcut hsome
    have hunder := hsound.rounds.paused (fragmenting_of_callbacks hsound hacc hsome)
    rw [honly, length_singleton] at hcredit
    have hleft := creditSpent_nonneg (show 1 ≤ requester.requested by exact_mod_cast hcredit)
    refine ⟨⟨hacc, fun h => absurd hnone h, ?_, ?_⟩, .paid rfl rfl ?_⟩
    · rw [hnone]
      exact hleft
    · dsimp only
      split
      · rename_i hpos
        exact fun _ => hpos
      · exact fun hunpaused => by omega
    · exact sent_proceed honly hnone hcount hmore

/-! ## What a run does to the credit -/

theorem grants_concat (history : List RequesterAction) (action : RequesterAction) :
    grants (history ++ [action]) = grants history + grants [action] := by
  simp [grants]

variable {start : ReactiveRequester} {history : List RequesterAction}

/-- A run that goes on by a step is saturated when it was, or when the step gets it there. -/
theorem saturated_concat (hrun : run (step streamId configuration) start history = some requester)
    (hstep : step streamId configuration requester action = some next) :
    Saturated streamId configuration start (history ++ [action]) ↔
      Saturated streamId configuration start history ∨
        reactiveInfinityRequestsCount ≤ balance (history ++ [action]) next := by
  have hrun' := run_concat hrun hstep
  constructor
  · rintro ⟨front, back, state, heq, hfront, hbal⟩
    -- The new front is the whole of the longer run.
    rcases eq_nil_or_concat back with rfl | ⟨back, last, rfl⟩
    · rw [append_nil] at heq
      rw [← heq, hrun'] at hfront
      cases hfront
      exact .inr (heq ▸ hbal)
    · rw [concat_eq_append, ← append_assoc] at heq
      exact .inl ⟨front, back, state, (append_inj' heq rfl).1, hfront, hbal⟩
  · rintro (⟨front, back, state, rfl, hfront, hbal⟩ | hbal)
    · exact ⟨front, back ++ [action], state, append_assoc .., hfront, hbal⟩
    · exact ⟨history ++ [action], [], next, (append_nil _).symm, hrun', hbal⟩

/-- The balance of a run that is not saturated is below infinity. -/
theorem balance_lt (hrun : run (step streamId configuration) start history = some requester)
    (hsaturated : ¬Saturated streamId configuration start history) :
    balance history requester < reactiveInfinityRequestsCount := by
  by_contra hle
  exact hsaturated ⟨history, [], requester, (append_nil _).symm, hrun, not_lt.mp hle⟩

/-- A step that keeps the books keeps the credit. -/
theorem creditKept_step (hfunded : Funded requester) (hbooks : Books requester next action)
    (hrun : run (step streamId configuration) start history = some requester)
    (hstep : step streamId configuration requester action = some next)
    (h : CreditKept streamId configuration start history requester) :
    CreditKept streamId configuration start (history ++ [action]) next := by
  have hnonneg := hfunded.requested_nonneg
  have hgrants := grants_concat history action
  have hconcat := saturated_concat hrun hstep
  by_cases hsaturated : Saturated streamId configuration start history
  · -- Infinity stays.
    have hreq := h.saturated hsaturated
    refine ⟨fun _ => ?_, fun hnot => absurd (hconcat.mpr (.inl hsaturated)) hnot⟩
    cases hbooks with
    | granted count hcredit => rw [hcredit, creditResumed, if_pos (.inl hreq)]
    | paid _ hcredit => rw [hcredit, creditSpent, if_pos hreq, hreq]
    | kept _ hcredit => rw [hcredit, hreq]
  · have hreq := h.balanced hsaturated
    have hlt := balance_lt hrun hsaturated
    have hfinite : requester.requested ≠ reactiveInfinityRequestsCount := by omega
    have hreached := hconcat.trans (or_iff_right hsaturated)
    cases hbooks with
    | granted count hcredit hsent =>
      have hcount : grants [.resume count] = count := by simp [grants]
      have hbal : balance (history ++ [.resume count]) next =
          balance history requester + count := by
        rw [balance, balance, hgrants, hcount, hsent]
        push_cast
        ring
      -- The grant gets to infinity, or it is added whole.
      by_cases hinfinite : reactiveInfinityRequestsCount ≤ (count : ℤ)
      · have hresumed : creditResumed count requester.requested = reactiveInfinityRequestsCount :=
          if_pos (.inr hinfinite)
        constructor
        · rw [hreached]
          exact fun _ => hcredit.trans hresumed
        · rw [hreached]
          intro hnot
          omega
      · have hresumed : creditResumed count requester.requested =
            min (requester.requested + count) reactiveInfinityRequestsCount :=
          if_neg (by rw [not_or]; exact ⟨hfinite, hinfinite⟩)
        constructor
        · rw [hreached]
          intro hinf
          omega
        · rw [hreached]
          intro hnot
          omega
    | paid hnone hcredit hsent =>
      have hbal : balance (history ++ [action]) next = balance history requester - 1 := by
        rw [balance, balance, hgrants, hnone, hsent]
        push_cast
        ring
      have hspent : creditSpent requester.requested = requester.requested - 1 := if_neg hfinite
      constructor
      · rw [hreached]
        intro hinf
        omega
      · exact fun _ => by omega
    | kept hnone hcredit hsent =>
      have hbal : balance (history ++ [action]) next = balance history requester := by
        rw [balance, balance, hgrants, hnone, hsent, Nat.add_zero]
      constructor
      · rw [hreached]
        intro hinf
        omega
      · exact fun _ => by omega

theorem funded_new (chunkSize : ℕ) : Funded (new chunkSize) :=
  ⟨rfl, fun h => absurd rfl h, le_rfl, nofun⟩

theorem creditKept_new (chunkSize : ℕ) :
    CreditKept streamId configuration (new chunkSize) [] (new chunkSize) := by
  have hunsaturated : ¬Saturated streamId configuration (new chunkSize) [] := by
    rintro ⟨front, back, requester, heq, hfront, hbal⟩
    obtain ⟨rfl, rfl⟩ := append_eq_nil_iff.mp heq.symm
    cases hfront
    exact absurd hbal (of_decide_eq_false rfl)
  exact ⟨fun h => absurd h hunsaturated, fun _ => rfl⟩

/-- A run of an open requester that hears its grants keeps the credit. -/
theorem creditKept_of_heard {chunkSize : ℕ} {actions : List RequesterAction}
    (hongoing : ∀ action ∈ actions, Ongoing action)
    (hheard : Along (step streamId configuration) Heard (new chunkSize) actions)
    (hrun : run (step streamId configuration) (new chunkSize) actions = some requester) :
    CreditKept streamId configuration (new chunkSize) actions requester := by
  have halong : Along (step streamId configuration)
      (fun requester action => Ongoing action ∧ Heard requester action) (new chunkSize) actions :=
    along_and (along_of_forall fun action hmem _ => hongoing action hmem) hheard
  -- The run itself is part of the invariant: the credit is about its whole history.
  have h := run_induction (fun history requester => Sound streamId requester ∧ Funded requester ∧
      run (step streamId configuration) (new chunkSize) history = some requester ∧
      CreditKept streamId configuration (new chunkSize) history requester)
    (fun history requester action next hinv hcond hstep => by
      obtain ⟨hsound, hfunded, hfront, hkept⟩ := hinv
      have hmove := step_move hsound.lifecycle.closing hstep
      obtain ⟨hfunded', hbooks⟩ := books_move hsound hfunded hcond.1 hcond.2 hmove
      exact ⟨sound_step hsound hstep, hfunded', run_concat hfront hstep,
        creditKept_step hfunded hbooks hfront hstep hkept⟩)
    ⟨sound_new chunkSize, funded_new chunkSize, rfl, creditKept_new chunkSize⟩ halong hrun
  exact h.2.2.2

/-- A grant that is not heard is lost. -/
theorem not_creditKept_of_unheard {count : ℕ} (hcount : 1 ≤ count)
    (hkept : CreditKept streamId configuration start history requester)
    (hunheard : ¬Heard requester (.resume count)) :
    step streamId configuration requester (.resume count) = some requester ∧
      ¬CreditKept streamId configuration start (history ++ [.resume count]) requester := by
  obtain ⟨hfrag, hfinite⟩ := not_or.mp hunheard
  have hstep : step streamId configuration requester (.resume count) = some requester := by
    rw [step, resume, if_pos]
    rw [Bool.eq_true_of_not_eq_false hfrag, Bool.or_true]
  refine ⟨hstep, fun hkept' => ?_⟩
  -- The credit is as before, and the balance is not.
  have hreq := hkept.balanced fun hsaturated => hfinite (hkept.saturated hsaturated)
  have hreq' := hkept'.balanced fun hsaturated => hfinite (hkept'.saturated hsaturated)
  have hgrants : grants (history ++ [.resume count]) = grants history + count := by
    simp [grants]
  rw [balance, hgrants] at hreq'
  rw [balance] at hreq
  omega

/-- In a run of an open requester, the credit is kept in every state if and only if no grant comes
while a payload is cut and the credit is finite. -/
theorem creditKept_iff_heard (streamId : ℤ) (configuration : ReactiveChannelConfiguration)
    (chunkSize : ℕ) {actions : List RequesterAction}
    (hongoing : ∀ action ∈ actions, Ongoing action) :
    (∀ front back state, actions = front ++ back →
      run (step streamId configuration) (new chunkSize) front = some state →
      CreditKept streamId configuration (new chunkSize) front state) ↔
    Along (step streamId configuration) Heard (new chunkSize) actions := by
  constructor
  · intro hkept
    by_contra hunheard
    -- The first grant that is not heard.
    obtain ⟨front, action, back, state, rfl, -, hfront, hcond⟩ := exists_of_not_along hunheard
    cases action with
    | resume count =>
      have hcount : 1 ≤ count := hongoing (.resume count) (by simp)
      obtain ⟨hstep, hlost⟩ := not_creditKept_of_unheard hcount
        (hkept front _ state rfl hfront) hcond
      refine hlost (hkept (front ++ [.resume count]) back state ?_ (run_concat hfront hstep))
      rw [List.append_assoc, List.singleton_append]
    | _ => exact hcond trivial
  · rintro hheard front back state rfl hfront
    exact creditKept_of_heard (fun action hmem => hongoing action (List.mem_append_left _ hmem))
      (along_append hheard) hfront

/-- A grant that comes when the payload before it is sent. -/
theorem creditKept_iff_heard_idle :
    (∀ front back state,
      [.schedulePayload [7] false, .resume 1, .deliver, .resume 5] = front ++ back →
      run (step 1 ⟨1, 1, 2, 1⟩) (new 64) front = some state →
      CreditKept 1 ⟨1, 1, 2, 1⟩ (new 64) front state) ↔
    Along (step 1 ⟨1, 1, 2, 1⟩) Heard (new 64)
      [.schedulePayload [7] false, .resume 1, .deliver, .resume 5] :=
  creditKept_iff_heard 1 ⟨1, 1, 2, 1⟩ 64 (by decide)

/-- A grant of five comes while two fragments are being written: the credit stays at one, and six
were granted. -/
theorem not_creditKept_cut :
    ∃ requester, run (step 1 ⟨1, 1, 2, 1⟩) (new 64)
        [.schedulePayload [1, 2] false, .resume 1, .deliver, .resume 5] = some requester ∧
      ¬CreditKept 1 ⟨1, 1, 2, 1⟩ (new 64)
        [.schedulePayload [1, 2] false, .resume 1, .deliver, .resume 5] requester := by
  let before := resume 1 (schedulePayload [1, 2] false (new 64))
  let cut := fragmentate 1 ⟨1, 1, 2, 1⟩ { before with
    fragmenting := true
    subscription := ⟨[], 1, false⟩
    currentFragments := [[1], [2]]
    currentFragmentsCount := 2 }
  have hdeliver : step 1 ⟨1, 1, 2, 1⟩ before .deliver = some cut := by
    show some (sendFragments 1 ⟨1, 1, 2, 1⟩ ⟨[1, 2], false, false⟩ _) = _
    rw [sendFragments, disassemble_two]
    rfl
  refine ⟨cut, ?_, fun hkept => ?_⟩
  · show run (step 1 ⟨1, 1, 2, 1⟩) before [.deliver, .resume 5] = _
    rw [run_cons, hdeliver]
    rfl
  · have hrequested := hkept.balanced fun hsaturated =>
      absurd (hkept.saturated hsaturated) (by decide)
    exact absurd hrequested (by decide)

end FengShui.Reactive.ReactiveRequester
