import FengShui.Transport.TransportMoves

/-!
# What holds in every state of the transport

`_pending` of a channel is never less than the completions that are still to come (`Channel.Sound`),
so a channel that is closed has none to come, and the registry is never asked for it.
-/

namespace FengShui.Transport

open FengShui.Memory FengShui.Transition List

/-- The operations of a channel that are submitted and not completed. -/
def inflight (index : ℕ) (submitted : List Submission) : ℕ :=
  submitted.countP fun submission => submission.call.channel = index

/-- A channel with so many completions to come. -/
structure Channel.Sound (inflight : ℕ) (channel : Channel) : Prop where
  pending : (inflight : ℤ) ≤ channel.pending
  active : channel.active = false → channel.closing = true
  opened : channel.stage ≠ .opened → channel.closing = true
  closer : channel.closer = true → channel.closing = true ∧ channel.pending = 0
  awaits : ∀ graceful, channel.stage = .awaits graceful →
    channel.closer = true ∨ 0 < channel.pending
  closed : channel.stage = .closed → channel.pending = 0

namespace Channel

variable {count : ℕ} {channel after : Channel}

theorem sound_create (kind : Kind) (server : Option ℕ) : (create kind server).Sound 0 where
  pending := le_rfl
  active h := by cases h
  opened h := absurd rfl h
  closer h := by cases h
  awaits _ h := by cases h
  closed h := by cases h

theorem Sound.closes (h : channel.Sound count) (hcloses : channel.Closes after) :
    after.Sound count where
  pending := by
    rw [hcloses.pending]
    exact h.pending
  active hactive := by
    rcases hcloses.active hactive with hbefore | hclosing | hstage
    · exact hcloses.closing (h.active hbefore)
    · exact hclosing
    · exact hcloses.closing (h.opened hstage)
  opened hstage := by
    rcases hcloses.opened hstage with hbefore | hclosing
    · exact hcloses.closing (h.opened hbefore)
    · exact hclosing
  closer hcloser := by
    rw [hcloses.closer] at hcloser
    rw [hcloses.pending]
    exact ⟨hcloses.closing (h.closer hcloser).1, (h.closer hcloser).2⟩
  awaits graceful hstage := by
    rw [hcloses.closer, hcloses.pending]
    rcases hcloses.awaits graceful hstage with hbefore | hpend
    · exact h.awaits graceful hbefore
    · exact .inr hpend
  closed hstage := by
    rw [hcloses.pending]
    rcases hcloses.closed hstage with hbefore | hcloser | ⟨-, hpend⟩
    · exact h.closed hbefore
    · exact (h.closer hcloser).2
    · have hle := h.pending
      omega

/-- A call goes on while the channel does not close. -/
theorem Sound.raise {next : ℕ} (h : channel.Sound count) (hclosing : channel.closing = false)
    (hactive : after.active = channel.active) (hafter : after.closing = channel.closing)
    (hstage : after.stage = channel.stage) (hcloser : after.closer = channel.closer)
    (hpend : (next : ℤ) ≤ after.pending) : after.Sound next where
  pending := hpend
  active hbefore := by
    rw [hafter]
    exact h.active (hactive ▸ hbefore)
  opened hbefore := by
    rw [hafter]
    exact h.opened (hstage ▸ hbefore)
  closer hbefore := by
    rw [hcloser] at hbefore
    exact absurd (h.closer hbefore).1 (by rw [hclosing]; exact Bool.false_ne_true)
  awaits graceful hbefore := by
    rw [hstage] at hbefore
    exact absurd (h.opened (by rw [hbefore]; exact nofun))
      (by rw [hclosing]; exact Bool.false_ne_true)
  closed hbefore := by
    rw [hstage] at hbefore
    exact absurd (h.opened (by rw [hbefore]; exact nofun))
      (by rw [hclosing]; exact Bool.false_ne_true)

/-- A completion, of which there is one to come. -/
theorem Sound.lower (h : channel.Sound (count + 1)) : channel.lower.Sound count where
  pending := by
    -- What is in flight is among what is pending.
    have hle := h.pending
    rw [pending_lower]
    omega
  active hactive := by
    rw [closing_lower]
    exact (active_lower channel hactive).elim h.active id
  opened hstage := by
    rw [stage_lower] at hstage
    rw [closing_lower]
    exact h.opened hstage
  closer hcloser := by
    have hle := h.pending
    rw [closing_lower, pending_lower]
    rcases closer_lower channel hcloser with hbefore | ⟨hpend, hclosing⟩
    · have hzero := (h.closer hbefore).2
      omega
    · exact ⟨hclosing.elim id h.active, hpend⟩
  awaits graceful hstage := by
    have hle := h.pending
    rw [stage_lower] at hstage
    have hclosing := h.opened (by rw [hstage]; exact nofun)
    rw [pending_lower]
    by_cases hpend : channel.pending - 1 = 0
    · exact .inl (closer_lower_of_eq_zero channel hpend hclosing)
    · exact .inr (by omega)
  closed hstage := by
    have hle := h.pending
    rw [stage_lower] at hstage
    have hzero := h.closed hstage
    omega

theorem Sound.removeHandler (h : channel.Sound count) (succeeded : Bool) (bufferId : ℕ) :
    (channel.removeHandler succeeded bufferId).Sound count := by
  rw [removeHandler_eq]
  exact ⟨h.pending, h.active, h.opened, h.closer, h.awaits, h.closed⟩

/-- While a completion is to come, the channel is not closed. -/
theorem Sound.not_closed (h : channel.Sound (count + 1)) : channel.stage ≠ .closed := by
  intro hstage
  have hle := h.pending
  have hzero := h.closed hstage
  omega

end Channel

namespace State

/-- What holds in every state that is reached. -/
structure Standing (state : State) : Prop where
  channels : ∀ (index : ℕ) (channel : Channel), state.channels[index]? = some channel →
    channel.Sound (inflight index state.submitted)
  submitted : ∀ submission ∈ state.submitted, submission.call.channel < state.channels.length
  waiting : ∀ call ∈ state.buffers.waiting, call.channel < state.channels.length
  whole : state.buffers.Whole Call.count

theorem standing_create (capacity : ℕ) : Standing (create capacity) where
  channels _ _ h := by cases h
  submitted _ h := by cases h
  waiting _ h := by cases h
  whole := MemoryStaticBuffers.whole_create capacity

theorem inflight_append (index : ℕ) (front back : List Submission) :
    inflight index (front ++ back) = inflight index front + inflight index back :=
  countP_append

variable {submitted : List Submission} {position : ℕ} {submission : Submission}

/-- The channel of an entry has one completion more to come than behind it. -/
theorem inflight_eraseIdx (h : submitted[position]? = some submission) (index : ℕ) :
    inflight index submitted = inflight index (submitted.eraseIdx position) +
      if submission.call.channel = index then 1 else 0 := by
  obtain ⟨hpos, rfl⟩ := List.getElem?_eq_some_iff.mp h
  have hperm := (getElem_cons_eraseIdx_perm hpos).countP_eq
    (fun submission : Submission => decide (submission.call.channel = index))
  rw [countP_cons] at hperm
  simp only [decide_eq_true_eq] at hperm
  exact hperm.symm

/-- The entries of a call are of its channel. -/
theorem inflight_submissions (full : ℕ → Bool) (call : Call) (bufferIds : List ℕ) (index : ℕ) :
    inflight index (submissions full call bufferIds) =
      if call.channel = index then (submissions full call bufferIds).length else 0 := by
  have hall : ∀ submission ∈ submissions full call bufferIds, submission.call = call := by
    intro submission hmem
    obtain ⟨entry, -, rfl⟩ := mem_map.mp hmem
    rfl
  unfold inflight
  split
  · rename_i heq
    exact countP_eq_length.mpr fun submission hmem => by
      rw [hall submission hmem, heq]
      exact decide_eq_true rfl
  · rename_i hne
    exact countP_eq_zero.mpr fun submission hmem => by
      rw [hall submission hmem, decide_eq_true_eq]
      exact hne

theorem length_submissions_le (full : ℕ → Bool) (call : Call) (bufferIds : List ℕ) :
    (submissions full call bufferIds).length ≤ bufferIds.length := by
  unfold submissions
  rw [length_map]
  exact (length_filter_le _ _).trans_eq length_zipIdx

/-- Where the ring is not full, every buffer gets its entry. -/
theorem length_submissions {full : ℕ → Bool} (h : ∀ index, full index = false) (call : Call)
    (bufferIds : List ℕ) : (submissions full call bufferIds).length = bufferIds.length := by
  unfold submissions
  rw [length_map, filter_eq_self.mpr fun entry _ => by rw [h]; rfl, length_zipIdx]

section Channels

variable (holds : ℕ → Channel → Prop) {channels next : List Channel}

/-- What closing keeps, and new channels have, is kept. -/
theorem forall_of_grows (hgrows : Grows channels next)
    (hcloses : ∀ (index : ℕ) (before after : Channel), holds index before → before.Closes after →
      holds index after)
    (hnew : ∀ index kind server, channels.length ≤ index → holds index (Channel.create kind server))
    (h : ∀ (index : ℕ) (channel : Channel), channels[index]? = some channel → holds index channel)
    (index : ℕ) (channel : Channel) (hchan : next[index]? = some channel) :
    holds index channel := by
  rcases hgrows.2 index channel hchan with ⟨before, hbefore, hclosed⟩ | ⟨kind, server, hnone, rfl⟩
  · exact hcloses index before channel (h index before hbefore) hclosed
  · exact hnew index kind server (List.getElem?_eq_none_iff.mp hnone)

/-- One channel changes. -/
theorem forall_set {index : ℕ} {channel : Channel} (hchan : holds index channel)
    (h : ∀ (other : ℕ) (channel : Channel), other ≠ index → channels[other]? = some channel →
      holds other channel) (other : ℕ) (found : Channel)
    (hfound : (channels.set index channel)[other]? = some found) : holds other found := by
  rw [getElem?_set] at hfound
  split at hfound
  · rename_i heq
    subst heq
    split at hfound
    · rw [← Option.some.inj hfound]
      exact hchan
    · cases hfound
  · rename_i hne
    exact h other found (Ne.symm hne) hfound

end Channels

/-- Closing keeps channels sound, and new ones are. -/
theorem sound_of_grows (count : ℕ → ℕ) {channels next : List Channel}
    (h : ∀ (index : ℕ) (channel : Channel), channels[index]? = some channel →
      channel.Sound (count index)) (hnew : ∀ index, channels.length ≤ index → count index = 0)
    (hgrows : Grows channels next) (index : ℕ) (channel : Channel)
    (hchan : next[index]? = some channel) : channel.Sound (count index) := by
  refine forall_of_grows (fun index channel => channel.Sound (count index)) hgrows
    (fun _ _ _ hsound hcloses => hsound.closes hcloses) (fun index kind server hidx => ?_) h index
    channel hchan
  rw [hnew index hidx]
  exact Channel.sound_create kind server

theorem inflight_eq_zero {length index : ℕ}
    (h : ∀ submission ∈ submitted, submission.call.channel < length) (hidx : length ≤ index) :
    inflight index submitted = 0 :=
  countP_eq_zero.mpr fun submission hmem => by
    have hlt := h submission hmem
    rw [decide_eq_true_eq]
    omega

variable {state next : State}

theorem Standing.quiet (h : Standing state) (hquiet : Quiet state next) : Standing next := by
  obtain ⟨started, hstarts, hwait⟩ := hquiet.started
  have hlen := hquiet.grows.1
  refine ⟨fun index channel hchan => ?_, fun submission hmem => ?_, fun call hmem => ?_,
    hquiet.whole h.whole⟩
  · rw [hquiet.submitted]
    exact sound_of_grows _ h.channels (fun _ => inflight_eq_zero h.submitted) hquiet.grows
      index channel hchan
  · rw [hquiet.submitted] at hmem
    exact (h.submitted submission hmem).trans_le hlen
  · rcases mem_append.mp (hwait.mem_iff.mp hmem) with hmem | hmem
    · exact (h.waiting call hmem).trans_le hlen
    · exact (hstarts.channels call hmem).trans_le hlen

/-- The call that goes on is on a channel that there is. -/
theorem Standing.obtains {call : Call} {bufferIds : List ℕ} {middle : State} (h : Standing state)
    (hobtains : Obtains state call bufferIds middle) :
    Standing middle ∧ call.channel < middle.channels.length := by
  obtain ⟨started, hstarts, hwait⟩ := hobtains.started
  have hmem (other : Call) (hother : other ∈ call :: middle.buffers.waiting) :
      other.channel < state.channels.length := by
    rcases mem_append.mp (hwait.mem_iff.mp hother) with hmem | hmem
    · exact h.waiting other hmem
    · exact hstarts.channels other hmem
  have hwhole := (hobtains.whole h.whole).1
  rw [hobtains.middle]
  exact ⟨⟨h.channels, h.submitted, fun other hother => hmem other (mem_cons_of_mem _ hother),
    hwhole⟩, hmem call mem_cons_self⟩

theorem Standing.proceed {call : Call} {bufferIds : List ℕ} (h : Standing state)
    (hlen : bufferIds.length = call.count) (full : ℕ → Bool) :
    Standing (state.proceed full call bufferIds) := by
  rcases proceed_cases full call bufferIds state with ⟨heq, -⟩ | ⟨channel, hchan, hclosing, heq⟩
  · rw [heq]
    exact h
  · rw [heq]
    have hle := length_submissions_le full call bufferIds
    refine ⟨fun index found hfound => ?_, fun submission hmem => ?_, fun other hmem => ?_, h.whole⟩
    · refine forall_set (fun index channel => channel.Sound (inflight index _)) ?_
        (fun other channel hne hother => ?_) index found hfound
      · have hsound := h.channels call.channel channel hchan
        refine hsound.raise (Bool.or_eq_false_iff.mp hclosing).1 rfl rfl rfl rfl ?_
        have hpend := hsound.pending
        rw [inflight_append, inflight_submissions, if_pos rfl]
        push_cast
        omega
      · dsimp only
        rw [inflight_append, inflight_submissions, if_neg hne.symm]
        exact h.channels other channel hother
    · rw [length_set]
      rcases mem_append.mp hmem with hmem | hmem
      · exact h.submitted submission hmem
      · obtain ⟨entry, -, rfl⟩ := mem_map.mp hmem
        exact (List.getElem?_eq_some_iff.mp hchan).1
    · rw [length_set]
      exact h.waiting other hmem

theorem Standing.connect (h : Standing state) (index : ℕ) (full : Bool) :
    Standing (state.connect index full) := by
  unfold State.connect
  split
  · exact h
  · rename_i channel hchan
    split
    · exact h
    · rename_i hclosing
      rw [Bool.not_eq_true] at hclosing
      dsimp only
      refine ⟨fun other found hfound => ?_, fun submission hmem => ?_, fun call hmem => ?_, h.whole⟩
      · refine forall_set (fun index channel => channel.Sound (inflight index _)) ?_
          (fun other channel hne hother => ?_) other found hfound
        -- The client counts its `connect`, and the ring may have no entry for it.
        · have hsound := h.channels index channel hchan
          refine hsound.raise hclosing rfl rfl rfl rfl ?_
          have hpend := hsound.pending
          rw [inflight_append]
          split <;> simp [inflight] at hpend ⊢ <;> omega
        · dsimp only
          rw [inflight_append]
          have hsound := h.channels other channel hother
          split
          · exact hsound
          · have hnone :
              inflight other [⟨⟨state.calls, index, .one .connect false false⟩, 0, none⟩] = 0 := by
              simp [inflight, hne.symm]
            rw [hnone]
            exact hsound
      · dsimp only at hmem ⊢
        rw [length_set]
        rcases mem_append.mp hmem with hmem | hmem
        · exact h.submitted submission hmem
        · split at hmem
          · cases hmem
          · rw [mem_singleton.mp hmem]
            exact (List.getElem?_eq_some_iff.mp hchan).1
      · dsimp only
        rw [length_set]
        exact h.waiting call hmem

/-- The channel of an entry is there and not closed. -/
theorem Standing.channel (h : Standing state)
    (hsub : state.submitted[position]? = some submission) :
    ∃ channel, state.channels[submission.call.channel]? = some channel ∧
      channel.stage ≠ .closed := by
  have hlt := h.submitted submission (mem_of_getElem? hsub)
  have hchan := getElem?_eq_getElem hlt
  have hsound := h.channels _ _ hchan
  rw [inflight_eraseIdx hsub, if_pos rfl] at hsound
  exact ⟨_, hchan, hsound.not_closed⟩

theorem Standing.completes (h : Standing state)
    (hsub : state.submitted[position]? = some submission) (result : ℤ) :
    ∃ channel, state.channels[submission.call.channel]? = some channel ∧
      Completes { state with submitted := state.submitted.eraseIdx position } submission
        result channel (complete submission result
          { state with submitted := state.submitted.eraseIdx position }) := by
  obtain ⟨channel, hchan, hstage⟩ := h.channel hsub
  exact ⟨channel, hchan, completes_complete
    { state with submitted := state.submitted.eraseIdx position } hchan hstage result⟩

theorem grows_of_outcome {result : ℤ} {channel : Channel}
    (h : Outcome state submission result channel next) :
    ∃ lowered, Grows (state.channels.set submission.call.channel lowered) next.channels ∧
      (lowered = channel.lower ∨ ∃ bufferId succeeded,
        lowered = channel.lower.removeHandler succeeded bufferId) := by
  cases h with
  | silent hinvoked hgrows => exact ⟨_, hgrows, .inl rfl⟩
  | invokes bufferId hbuf hactive hwrites hinvoked hgrows =>
    exact ⟨_, hgrows, .inr ⟨bufferId, _, rfl⟩⟩

theorem Standing.complete {channel : Channel} {result : ℤ} (h : Standing state)
    (hsub : state.submitted[position]? = some submission)
    (hchan : state.channels[submission.call.channel]? = some channel)
    (hcompletes : Completes { state with submitted := state.submitted.eraseIdx position } submission
      result channel next) : Standing next := by
  obtain ⟨lowered, hgrows, hlowered⟩ := grows_of_outcome hcompletes.outcome
  have hlen := hgrows.1
  rw [length_set] at hlen
  -- The other operations are of channels that are there.
  have hmem (other : Submission) (hother : other ∈ state.submitted.eraseIdx position) :
      other.call.channel < state.channels.length :=
    h.submitted other (mem_of_mem_eraseIdx hother)
  have hcount := inflight_eraseIdx hsub
  refine ⟨fun index found hfound => ?_, fun other hother => ?_, fun call hcall => ?_,
    h.whole.of_perm hcompletes.allocations⟩
  · rw [hcompletes.submitted]
    refine sound_of_grows (fun index => inflight index (state.submitted.eraseIdx position))
      (forall_set (fun index channel => channel.Sound _) ?_ fun other channel hne hother => ?_)
        (fun other hother => ?_) hgrows index found
      hfound
    · have hsound := h.channels _ _ hchan
      rw [hcount, if_pos rfl] at hsound
      rcases hlowered with rfl | ⟨bufferId, succeeded, rfl⟩
      · exact hsound.lower
      · exact hsound.lower.removeHandler succeeded bufferId
    · have hsound := h.channels other channel hother
      rwa [hcount, if_neg hne.symm] at hsound
    · rw [length_set] at hother
      exact inflight_eq_zero hmem hother
  · rw [hcompletes.submitted] at hother
    exact (hmem other hother).trans_le hlen
  · have hwait := hcompletes.allocations.map Allocation.call
    exact (h.waiting call (hwait.mem_iff.mp hcall)).trans_le hlen

theorem Standing.release {bufferId : ℕ} (h : Standing state) (delivered : List ℕ) :
    Standing { state.release bufferId with delivered := delivered } where
  channels := h.channels
  submitted := h.submitted
  waiting call hcall :=
    h.waiting call (((state.buffers.allocations_release bufferId).map _).mem_iff.mp hcall)
  whole := h.whole.of_perm (state.buffers.allocations_release bufferId)

theorem Standing.step {action : Action} (h : Standing state)
    (hstep : step state action = some next) : Standing next := by
  rcases step_cases hstep with hquiet | ⟨call, bufferIds, middle, -, hobtains, rfl⟩ |
    ⟨index, full, channel, -, -, rfl⟩ | ⟨position, result, submission, -, hsub, rfl⟩ |
    ⟨bufferId, -, -, rfl⟩
  · exact h.quiet hquiet
  · exact (h.obtains hobtains).1.proceed (hobtains.whole h.whole).2 _
  · exact h.connect index full
  · obtain ⟨channel, hchan, hcompletes⟩ := h.completes hsub result
    exact h.complete hsub hchan hcompletes
  · exact h.release _

theorem standing_of_reachable {capacity : ℕ}
    (h : Reachable Transport.step (create capacity) state) : Standing state :=
  h.invariant Standing (standing_create capacity) fun _ _ _ hstand hstep => hstand.step hstep

end State

end FengShui.Transport
