import FengShui.Transport.HandlerAttribution

/-!
# Whether success means that everything was written (`client.dart` of `transport` and its siblings)

A completion of a write or send says how many of the bytes of its buffer the kernel took. The
`notify` functions look at its sign only: `acknowledged_iff` says of every completion in every run
whether what is called fits what was written.
-/

namespace FengShui.Transport

open FengShui.Memory FengShui.Transition State

section

variable (state : State) {bufferId : ℕ} {submission : Submission} {channel : Channel} {result : ℤ}

/-- What the completion of a write calls: the handler of its outcome, if the channel is active. -/
theorem invoked_write (hstage : channel.stage ≠ .closed)
    (hchan : state.channels[submission.call.channel]? = some channel)
    (hbuf : submission.bufferId = some bufferId)
    (hwrites : submission.call.request.event ∈ channel.kind.notifier.writes) :
    (complete submission result state).invoked = state.invoked ++
      if channel.active = true then
        ((channel.handlers (channel.kind.notifier.succeeds result)).get? bufferId).toList.map
          fun handler => ⟨submission.call, channel.kind.notifier.succeeds result, handler⟩
      else [] := by
  have hreads : submission.call.request.event ∉ channel.kind.notifier.reads := by
    generalize submission.call.request.event = event at hwrites
    cases hkind : channel.kind <;> cases event <;> rw [hkind] at hwrites <;>
      first | decide | exact absurd hwrites (by decide)
  unfold complete
  rw [hchan, hbuf]
  dsimp only
  rw [if_neg hstage]
  unfold notify
  dsimp only
  by_cases hactive : channel.active = true
  · rw [if_pos hactive, if_neg hreads, if_pos hwrites, if_pos hactive]
    unfold invoke
    dsimp only
    rw [Channel.handlers_lower]
    rfl
  · rw [if_neg hactive, if_neg hactive, List.append_nil]
    rfl

end

/-- What a completion with this result calls is right for a buffer of this length: a handler of
success only where all of it was written, and where it was not, the error handler of the write, if
it has one. -/
structure Acknowledged (submission : Submission) (length : ℕ) (result : ℤ)
    (invoked : List Invocation) :
    Prop where
  done : ∀ invocation ∈ invoked, invocation.succeeded = true → result = length
  failed : result ≠ length → submission.call.request.onError = true →
    ⟨submission.call, false, submission.call.number⟩ ∈ invoked

/-- To call nothing is right for a write that came without an error handler. -/
theorem acknowledged_nil {submission : Submission} {length : ℕ} {result : ℤ}
    (hshort : result ≠ length) :
    Acknowledged submission length result [] ↔ submission.call.request.onError = false := by
  constructor
  · intro h
    exact eq_false_of_ne_true fun hgiven => List.not_mem_nil (h.failed hshort hgiven)
  · intro hnot
    refine ⟨fun _ hmem => absurd hmem List.not_mem_nil, fun _ hgiven => ?_⟩
    rw [hnot] at hgiven
    cases hgiven

/-- For every completion of a write or send in every run, with whatever in its buffer: when what it
calls is right. The others are the completions of which nobody is told: the write came without an
error handler, and its channel is inactive, or no handler of success stands under its buffer. -/
theorem acknowledged_iff {capacity : ℕ} {state next : State}
    (hreachable : Reachable step (create capacity) state) (position : ℕ) {bufferId : ℕ}
    {submission : Submission} {channel : Channel} (bytes : Uint8List) (result : ℤ)
    (hsubmission : state.submitted[position]? = some submission)
    (hbufferId : submission.bufferId = some bufferId)
    (hchannel : state.channels[submission.call.channel]? = some channel)
    (hwrites : submission.call.request.event ∈ channel.kind.notifier.writes)
    (hstep : step state (.complete position result) = some next) :
    Acknowledged submission bytes.length result (next.invoked.drop state.invoked.length) ↔
      result = bytes.length ∨
        (channel.active = true ∧ channel.kind.notifier.succeeds result = false) ∨
        (submission.call.request.onError = false ∧
          (channel.active = false ∨ channel.doneHandlers.get? bufferId = none)) := by
  obtain ⟨found, hfound, hstage⟩ := (standing_of_reachable hreachable).channel hsubmission
  obtain rfl := Option.some.inj (hchannel.symm.trans hfound)
  have hnext : next = complete submission result
      { state with submitted := state.submitted.eraseIdx position } := by
    simp only [step, hsubmission] at hstep
    exact (Option.some.inj hstep).symm
  have hinvoked : next.invoked.drop state.invoked.length =
      if channel.active = true then
        ((channel.handlers (channel.kind.notifier.succeeds result)).get? bufferId).toList.map
          fun handler => ⟨submission.call, channel.kind.notifier.succeeds result, handler⟩
      else [] := by
    rw [hnext, invoked_write { state with submitted := state.submitted.eraseIdx position } hstage
      hchannel hbufferId hwrites]
    exact List.drop_left
  rw [hinvoked]
  by_cases hwhole : result = bytes.length
  · exact iff_of_true ⟨fun _ _ _ => hwhole, fun hne => absurd hwhole hne⟩ (.inl hwhole)
  rw [or_iff_right hwhole]
  by_cases hactive : channel.active = true
  case neg =>
    -- Nothing is called.
    have hinactive : channel.active = false := eq_false_of_ne_true hactive
    rw [if_neg hactive, acknowledged_nil hwhole]
    constructor
    · intro hnot
      exact .inr ⟨hnot, .inl hinactive⟩
    · rintro (⟨hyes, -⟩ | ⟨hnot, -⟩)
      · exact absurd hyes hactive
      · exact hnot
  rw [if_pos hactive]
  cases hsucceeds : channel.kind.notifier.succeeds result with
  | false =>
    -- The error handler of the write is there still, if it came with one.
    refine iff_of_true ⟨fun invocation hmem hsuccess => ?_, fun _ hgiven => ?_⟩
      (.inl ⟨hactive, rfl⟩)
    · obtain ⟨handler, -, rfl⟩ := List.mem_map.mp hmem
      cases hsuccess
    · have hown := registered_of_reachable hreachable submission (List.mem_of_getElem? hsubmission)
        bufferId hbufferId channel hchannel false hgiven
      rw [hown]
      exact List.mem_singleton_self _
  | true =>
    have hdone : channel.handlers true = channel.doneHandlers := rfl
    rw [hdone]
    cases hhandler : channel.doneHandlers.get? bufferId with
    | none =>
      -- Nothing is called.
      show Acknowledged submission bytes.length result [] ↔ _
      rw [acknowledged_nil hwhole]
      constructor
      · intro hnot
        exact .inr ⟨hnot, .inr rfl⟩
      · rintro (⟨-, hfalse⟩ | ⟨hnot, -⟩)
        · cases hfalse
        · exact hnot
    | some handler =>
      refine iff_of_false (fun h => hwhole (h.done _ (List.mem_singleton_self _) rfl)) ?_
      rintro (⟨-, hfalse⟩ | ⟨-, hinactive | hnone⟩)
      · cases hfalse
      · rw [hactive] at hinactive
        cases hinactive
      · cases hnone

/-- A write of two bytes, both of which are written. -/
theorem acknowledged_iff_both :
    ∃ state next, run step (create 1) [.opened .client none,
        .call 0 (.clientWriteSingle [7, 8] true true) fun _ => false] = some state ∧
      step state (.complete 0 2) = some next ∧
      Acknowledged ⟨⟨0, 0, TransportClientChannel.writeSingle [7, 8] true true⟩, 0, some 0⟩ 2 2
        (next.invoked.drop state.invoked.length) := by
  refine ⟨_, _, rfl, rfl, ?_⟩
  have hreachable : Reachable step (create 1) _ := ⟨[.opened .client none,
    .call 0 (.clientWriteSingle [7, 8] true true) fun _ => false], rfl⟩
  exact (acknowledged_iff hreachable 0 [7, 8] 2 rfl rfl rfl (by decide) rfl).mpr (.inl rfl)

/-- A write of two bytes, of which one is written: the handler of success is called. -/
theorem not_acknowledged :
    ¬∀ (state next : State) (position : ℕ) (submission : Submission) (length : ℕ) (result : ℤ),
      Reachable step (create 1) state → state.submitted[position]? = some submission →
        submission.call.request.event = .write → 0 ≤ result → result ≤ length →
          step state (.complete position result) = some next →
            Acknowledged submission length result (next.invoked.drop state.invoked.length) := by
  intro h
  have hshort := h _ _ 0 _ 2 1 ⟨[.opened .client none,
    .call 0 (.clientWriteSingle [7, 8] true true) fun _ => false], rfl⟩ rfl rfl (by decide)
    (by decide) rfl
  exact absurd (hshort.done _ (List.mem_singleton_self _) rfl) (by decide)

end FengShui.Transport
