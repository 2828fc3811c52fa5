import FengShui.Transport.TransportInvariants

/-!
# `_pending` and the operations that are submitted (`channel.dart` and `transport.c` of `transport`)

A member adds its buffers to `_pending` whatever the native calls answered. Where the ring was full
for one of them, `_pending` stays too large for ever, and `close` awaits a completion that never
comes (`accounted_false`). In runs in which the ring is never full they agree.
-/

namespace FengShui.Transport

open FengShui.Memory FengShui.Transition State

/-- `_pending` of every channel is the number of its operations that are submitted and not
completed, and a `close` that waits has one of them to wait for. -/
def Accounted (state : State) : Prop :=
  ∀ (index : ℕ) (channel : Channel), state.channels[index]? = some channel →
    channel.pending = inflight index state.submitted ∧
      ∀ graceful, channel.stage = .awaits graceful → channel.closer = false →
        0 < inflight index state.submitted

/-- `io_uring_get_sqe` does not give `NULL`. -/
def RingHolds (_ : State) (action : Action) : Prop := ∀ index, action.full index = false

/-- `_pending` counts what is submitted. -/
def Counts (state : State) : Prop :=
  ∀ (index : ℕ) (channel : Channel), state.channels[index]? = some channel →
    channel.pending = inflight index state.submitted

section Step

variable {state next : State}

theorem counts_of_grows {channels : List Channel} {submitted : List Submission}
    (hgrows : Grows channels next.channels)
    (hnew : ∀ submission ∈ submitted, submission.call.channel < channels.length)
    (hsubm : next.submitted = submitted)
    (h : ∀ (index : ℕ) (channel : Channel), channels[index]? = some channel →
      channel.pending = inflight index submitted) : Counts next := by
  subst hsubm
  refine forall_of_grows (fun index channel => channel.pending =
    inflight index next.submitted) hgrows
    (fun index before after hbefore hcloses => hcloses.pending.trans hbefore)
    (fun index kind server hidx => ?_) h
  rw [inflight_eq_zero hnew hidx]
  rfl

theorem counts_proceed {full : ℕ → Bool} {call : Call} {bufferIds : List ℕ} (h : Counts state)
    (hfull : ∀ index, full index = false) (hlen : bufferIds.length = call.count) :
    Counts (state.proceed full call bufferIds) := by
  rcases proceed_cases full call bufferIds state with ⟨heq, -⟩ | ⟨channel, hchan, -, heq⟩
  · rw [heq]
    exact h
  · rw [heq]
    refine forall_set (fun index channel => channel.pending = inflight index _) ?_
      fun other channel hne hother => ?_
    · have hpend := h call.channel channel hchan
      dsimp only
      rw [inflight_append, inflight_submissions, if_pos rfl, length_submissions hfull, hlen,
        hpend]
      exact (Nat.cast_add _ _).symm
    · dsimp only
      rw [inflight_append, inflight_submissions, if_neg hne.symm]
      exact h other channel hother

theorem counts_connect (h : Counts state) (index : ℕ) : Counts (state.connect index false) := by
  unfold State.connect
  split
  · exact h
  · rename_i channel hchan
    split
    · exact h
    · refine forall_set (fun index channel => channel.pending = inflight index _) ?_
        fun other channel hne hother => ?_
      · have hpend := h index channel hchan
        dsimp only
        rw [inflight_append, hpend]
        simp [inflight]
      · have hpend := h other channel hother
        dsimp only
        rw [inflight_append, hpend]
        simp [inflight, hne.symm]

theorem counts_complete {position : ℕ} {submission : Submission} {channel : Channel} {result : ℤ}
    (hstand : Standing state) (h : Counts state)
    (hsub : state.submitted[position]? = some submission)
    (hchan : state.channels[submission.call.channel]? = some channel)
    (hcompletes : Completes { state with submitted := state.submitted.eraseIdx position } submission
      result channel next) : Counts next := by
  obtain ⟨lowered, hgrows, hlowered⟩ := grows_of_outcome hcompletes.outcome
  have hcount := inflight_eraseIdx hsub
  refine counts_of_grows hgrows (fun other hother => ?_) hcompletes.submitted ?_
  · rw [List.length_set]
    exact hstand.submitted other (List.mem_of_mem_eraseIdx hother)
  · refine forall_set (fun index channel => channel.pending = inflight index _) ?_
      fun other channel hne hother => ?_
    · have hpend : lowered.pending = channel.pending - 1 := by
        rcases hlowered with rfl | ⟨bufferId, succeeded, rfl⟩
        · exact Channel.pending_lower channel
        · rw [Channel.removeHandler_eq]
          exact Channel.pending_lower channel
      have hbefore := h _ _ hchan
      rw [hcount, if_pos rfl] at hbefore
      rw [hpend, hbefore]
      push_cast
      omega
    · have hbefore := h other channel hother
      rwa [hcount, if_neg hne.symm] at hbefore

theorem counts_step {action : Action} (hstand : Standing state) (h : Counts state)
    (hholds : RingHolds state action) (hstep : step state action = some next) : Counts next := by
  rcases step_cases hstep with hquiet | ⟨call, bufferIds, middle, -, hobtains, rfl⟩ |
    ⟨index, full, channel, rfl, -, rfl⟩ | ⟨position, result, submission, -, hsub, rfl⟩ |
    ⟨bufferId, -, -, rfl⟩
  · exact counts_of_grows hquiet.grows hstand.submitted hquiet.submitted h
  · have hmid : Counts middle := by
      rw [hobtains.middle]
      exact h
    exact counts_proceed hmid hholds (hobtains.whole hstand.whole).2
  · obtain rfl : full = false := hholds 0
    exact counts_connect h index
  · obtain ⟨channel, hchan, hcompletes⟩ := hstand.completes hsub result
    exact counts_complete hstand h hsub hchan hcompletes
  · exact h

/-- A `close` that waits has something to wait for. -/
theorem accounted_of_counts (hstand : Standing state) (h : Counts state) : Accounted state := by
  intro index channel hchan
  have hpend := h index channel hchan
  refine ⟨hpend, fun graceful hstage hcloser => ?_⟩
  rcases (hstand.channels index channel hchan).awaits graceful hstage with hdone | hpos
  · exact absurd hdone (by rw [hcloser]; exact Bool.false_ne_true)
  · omega

end Step

/-- In every run in which the ring is never full, `_pending` counts the operations that are
submitted. -/
theorem accounted_of_ringHolds (capacity : ℕ) (actions : List Action) {state : State}
    (halong : Along step RingHolds (create capacity) actions)
    (hrun : run step (create capacity) actions = some state) : Accounted state := by
  have hinv := run_induction (fun _ state => Standing state ∧ Counts state)
    (fun _ _ _ _ hinv hholds hstep =>
      ⟨hinv.1.step hstep, counts_step hinv.1 hinv.2 hholds hstep⟩)
    ⟨standing_create capacity, nofun⟩ halong hrun
  exact accounted_of_counts hinv.1 hinv.2

/-- A read that is submitted, and a `close` that waits for it. -/
theorem accounted_of_ringHolds_read :
    ∃ state, run step (create 1)
      [.opened .client none, .call 0 .clientRead fun _ => false, .close 0 false] = some state ∧
        Accounted state := by
  refine ⟨_, rfl, accounted_of_ringHolds 1
    [.opened .client none, .call 0 .clientRead fun _ => false, .close 0 false]
      (along_of_forall ?_) rfl⟩
  intro action hmem state index
  rcases List.mem_cons.mp hmem with rfl | hmem
  · rfl
  · rcases List.mem_cons.mp hmem with rfl | hmem
    · rfl
    · obtain rfl := List.mem_singleton.mp hmem
      rfl

/-- A read for which the ring is full, and a `close` that waits for it in vain. -/
theorem accounted_false : ¬∀ state, Reachable step (create 1) state → Accounted state := by
  intro h
  have hread := h _ ⟨[.opened .client none, .call 0 .clientRead fun _ => true, .close 0 false], rfl⟩
  have hpositive := (hread 0 _ rfl).2 false rfl rfl
  exact absurd hpositive (by decide)

end FengShui.Transport
