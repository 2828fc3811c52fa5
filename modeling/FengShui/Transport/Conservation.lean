import FengShui.Transport.TransportInvariants

/-!
# Where the static buffers are (`client.dart`, `server.dart` and `file.dart` of `transport`)

Every id is free, with a call that is not through, submitted, or in a payload. Two branches drop
theirs: a call that gets its buffers and then finds that the channel closes, and a native call that
finds the ring full (`conserved_false`). No id is ever in two places (`exists_lost`).
-/

namespace FengShui.Transport

open FengShui.Memory FengShui.Transition State List

/-- Every id is in exactly one place. -/
def Conserved (capacity : ℕ) (state : State) : Prop :=
  (state.buffers.ids ++ state.buffers.allocations.flatMap Allocation.bufferIds ++
    state.submitted.filterMap Submission.bufferId ++ state.delivered).Perm (List.range capacity)

/-- The ring is not full, and who gets its buffers does not find its channel closing. -/
def Accounts (state : State) (action : Action) : Prop :=
  (∀ index, action.full index = false) ∧
    ∀ call bufferIds, advances state action = some (call, bufferIds) →
      ∀ channel, state.channels[call.channel]? = some channel → state.isClosing channel = false

theorem placed_perm (state : State) :
    (state.buffers.ids ++ state.buffers.allocations.flatMap Allocation.bufferIds ++
      state.submitted.filterMap Submission.bufferId ++ state.delivered).Perm state.placed := by
  unfold placed MemoryStaticBuffers.placed
  rw [append_assoc]

section Step

variable {state next : State}

/-- The buffers for which the ring is full. -/
def dropped (full : ℕ → Bool) (bufferIds : List ℕ) : List ℕ :=
  (bufferIds.zipIdx.filter fun entry => full entry.2).map Prod.fst

theorem dropped_eq_nil {full : ℕ → Bool} (h : ∀ index, full index = false) (bufferIds : List ℕ) :
    dropped full bufferIds = [] := by
  unfold dropped
  rw [map_eq_nil_iff, filter_eq_nil_iff]
  intro entry _
  rw [h]
  exact Bool.false_ne_true

theorem perm_submissions (full : ℕ → Bool) (call : Call) (bufferIds : List ℕ) :
    ((submissions full call bufferIds).filterMap Submission.bufferId ++ dropped full bufferIds).Perm
      bufferIds := by
  have hids : (submissions full call bufferIds).filterMap Submission.bufferId =
      (bufferIds.zipIdx.filter fun entry => !full entry.2).map Prod.fst := by
    unfold submissions
    rw [filterMap_map]
    exact filterMap_eq_map' ▸ rfl
  have hperm := (filter_append_perm (fun entry : ℕ × ℕ => !full entry.2) bufferIds.zipIdx).map
    Prod.fst
  rw [map_append, zipIdx_map_fst] at hperm
  simp only [Bool.not_not] at hperm
  rw [hids]
  exact hperm

theorem placed_quiet (h : Quiet state next) : next.placed.Perm state.placed := by
  unfold placed
  rw [h.submitted, h.delivered]
  exact h.placed.append_right _

theorem placed_obtains {call : Call} {bufferIds : List ℕ} {middle : State}
    (h : Obtains state call bufferIds middle) : (middle.placed ++ bufferIds).Perm state.placed := by
  have hplaced := h.placed
  rw [h.middle] at hplaced ⊢
  unfold placed
  rw [perm_iff_count]
  intro id
  have hcount := hplaced.count_eq id
  simp only [count_append] at hcount ⊢
  omega

/-- A call that goes on gives its buffers to the ring, or drops them. -/
theorem placed_proceed (full : ℕ → Bool) (call : Call) (bufferIds : List ℕ) (state : State) :
    ∃ lost, ((state.proceed full call bufferIds).placed ++ lost).Perm (state.placed ++ bufferIds) ∧
      ((∀ index, full index = false) → call.channel < state.channels.length →
        (∀ channel, state.channels[call.channel]? = some channel →
          state.isClosing channel = false) →
          lost = []) := by
  rcases proceed_cases full call bufferIds state with ⟨heq, hwhy⟩ | ⟨channel, -, -, heq⟩
  · refine ⟨bufferIds, by rw [heq], fun _ hlt hopen => ?_⟩
    have hchan := getElem?_eq_getElem hlt
    refine (hwhy _ hchan).resolve_left ?_
    rw [hopen _ hchan]
    exact Bool.false_ne_true
  · refine ⟨dropped full bufferIds, ?_, fun hfull _ _ => dropped_eq_nil hfull bufferIds⟩
    have hperm := perm_submissions full call bufferIds
    rw [heq]
    unfold placed
    dsimp only
    rw [filterMap_append, perm_iff_count]
    intro id
    have hcount := hperm.count_eq id
    simp only [count_append] at hcount ⊢
    omega

theorem placed_connect (index : ℕ) (full : Bool) (state : State) :
    (state.connect index full).placed = state.placed := by
  unfold connect
  split
  · rfl
  · split
    · rfl
    · unfold placed
      dsimp only
      rw [filterMap_append]
      split <;> simp

theorem filterMap_bufferId_cons (submission : Submission) (submitted : List Submission) :
    (submission :: submitted).filterMap Submission.bufferId =
      submission.bufferId.toList ++ submitted.filterMap Submission.bufferId := by
  rw [filterMap_cons]
  cases submission.bufferId with
  | none => rfl
  | some bufferId => rfl

theorem placed_complete {position : ℕ} {submission : Submission} {channel : Channel} {result : ℤ}
    (hsub : state.submitted[position]? = some submission)
    (h : Completes { state with submitted := state.submitted.eraseIdx position } submission result
      channel next) : next.placed.Perm state.placed := by
  obtain ⟨hpos, rfl⟩ := List.getElem?_eq_some_iff.mp hsub
  have hsubm := (getElem_cons_eraseIdx_perm hpos).filterMap Submission.bufferId
  rw [filterMap_bufferId_cons] at hsubm
  have hplaced := h.placed
  unfold placed
  rw [h.submitted, perm_iff_count]
  intro id
  have hcount := hplaced.count_eq id
  have hids := hsubm.count_eq id
  simp only [count_append] at hcount hids ⊢
  omega

theorem placed_release {bufferId : ℕ} (h : bufferId ∈ state.delivered) :
    State.placed { state.release bufferId with delivered := state.delivered.erase bufferId }
      |>.Perm state.placed := by
  have hdelivered := perm_cons_erase h
  have hbufs := state.buffers.perm_release bufferId
  unfold placed
  rw [perm_iff_count]
  intro id
  have hcount := hbufs.count_eq id
  have hids := hdelivered.count_eq id
  simp only [State.release, count_append, count_cons] at hcount hids ⊢
  omega

/-- No step puts an id in a second place, and one that accounts for its buffers loses none. -/
theorem placed_step {action : Action} (hstand : Standing state)
    (hstep : step state action = some next) :
    ∃ lost, (next.placed ++ lost).Perm state.placed ∧ (Accounts state action → lost = []) := by
  rcases step_cases hstep with hquiet | ⟨call, bufferIds, middle, hadv, hobtains, rfl⟩ |
    ⟨index, full, channel, -, -, rfl⟩ | ⟨position, result, submission, -, hsub, rfl⟩ |
    ⟨bufferId, hmem, -, rfl⟩
  · refine ⟨[], ?_, fun _ => rfl⟩
    rw [append_nil]
    exact placed_quiet hquiet
  · obtain ⟨lost, hperm, hnone⟩ := placed_proceed action.full call bufferIds middle
    refine ⟨lost, hperm.trans (placed_obtains hobtains), fun haccounts => ?_⟩
    refine hnone haccounts.1 (hstand.obtains hobtains).2 fun channel hchan => ?_
    have hopen := haccounts.2 call bufferIds hadv channel
    rw [hobtains.middle] at hchan ⊢
    exact hopen hchan
  · refine ⟨[], ?_, fun _ => rfl⟩
    rw [append_nil, placed_connect]
  · obtain ⟨channel, -, hcompletes⟩ := hstand.completes hsub result
    refine ⟨[], ?_, fun _ => rfl⟩
    rw [append_nil]
    exact placed_complete hsub hcompletes
  · refine ⟨[], ?_, fun _ => rfl⟩
    rw [append_nil]
    exact placed_release hmem

end Step

theorem placed_create (capacity : ℕ) : (create capacity).placed.Perm (List.range capacity) := by
  unfold placed create
  rw [filterMap_nil, append_nil, append_nil]
  exact MemoryStaticBuffers.placed_create capacity

/-- No id is ever in two places. -/
theorem exists_lost {capacity : ℕ} {state : State} (h : Reachable step (create capacity) state) :
    ∃ lost, (state.placed ++ lost).Perm (List.range capacity) := by
  have hinv := h.invariant
    (fun state => Standing state ∧ ∃ lost, (state.placed ++ lost).Perm (List.range capacity))
    ⟨standing_create capacity, [], by rw [append_nil]; exact placed_create capacity⟩
    fun state action next hinv hstep => by
      obtain ⟨hstand, lost, hperm⟩ := hinv
      obtain ⟨dropped, hnext, -⟩ := placed_step hstand hstep
      refine ⟨hstand.step hstep, dropped ++ lost, ?_⟩
      rw [← append_assoc]
      exact (hnext.append_right lost).trans hperm
  exact hinv.2

/-- In every run in which the ring is never full and nobody gets a buffer for a channel that closes,
every id is in exactly one place. -/
theorem conserved_of_accounts (capacity : ℕ) (actions : List Action) {state : State}
    (halong : Along step Accounts (create capacity) actions)
    (hrun : run step (create capacity) actions = some state) : Conserved capacity state := by
  have hinv := run_induction
    (fun _ state => Standing state ∧ state.placed.Perm (List.range capacity))
    (fun _ state action next hinv haccounts hstep => by
      obtain ⟨hstanding, hperm⟩ := hinv
      obtain ⟨lost, hnext, hnone⟩ := placed_step hstanding hstep
      rw [hnone haccounts, List.append_nil] at hnext
      exact ⟨hstanding.step hstep, hnext.trans hperm⟩)
    ⟨standing_create capacity, placed_create capacity⟩ halong hrun
  exact (placed_perm state).trans hinv.2

/-- A read whose payload is released. -/
theorem conserved_of_accounts_read :
    ∃ state, run step (create 1)
      [.opened .client none, .call 0 .clientRead fun _ => false, .complete 0 5, .release 0] =
        some state ∧ Conserved 1 state := by
  refine ⟨_, rfl, conserved_of_accounts 1
    [.opened .client none, .call 0 .clientRead fun _ => false, .complete 0 5, .release 0] ?_ rfl⟩
  refine (along_cons_of_step rfl).mpr ⟨⟨fun _ => rfl, nofun⟩, ?_⟩
  refine (along_cons_of_step rfl).mpr ⟨⟨fun _ => rfl, fun call bufferIds h channel hchannel => ?_⟩,
    ?_⟩
  · cases h
    cases hchannel
    rfl
  refine (along_cons_of_step rfl).mpr ⟨⟨fun _ => rfl, nofun⟩, ?_⟩
  exact (along_cons_of_step rfl).mpr ⟨⟨fun _ => rfl, nofun⟩, trivial⟩

/-- A read on a channel that is closed already drops its buffer. -/
theorem conserved_false : ¬∀ state, Reachable step (create 1) state → Conserved 1 state := by
  intro h
  have hread :=
    h _ ⟨[.opened .client none, .close 0 false, .call 0 .clientRead fun _ => false], rfl⟩
  exact absurd hread.length_eq (by decide)

end FengShui.Transport
