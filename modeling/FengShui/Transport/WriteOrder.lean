import FengShui.Transport.TransportInvariants

/-!
# The order of writes (`client.dart` and `server.dart` of `transport`, `memory/buffers.dart`)

`writeSingle` goes on at once where it finds a free buffer, while a call before it still waits for
one, or for the microtask behind `allocateArray`; and those who wait for buffers may come through in
any order (`inOrder_false`). As long as a call goes on only when no earlier write of its connection
waits, writes are submitted in the order of the calls.
-/

namespace FengShui.Transport

open FengShui.Memory FengShui.Transition State List

/-- A `writeSingle` or `writeMany` of a connection. -/
def Call.Writes (index : ℕ) (call : Call) : Prop :=
  call.channel = index ∧ call.request.event = .write

/-- Earlier call first, and the buffers of one call in their order. -/
def Submission.Before (earlier later : Submission) : Prop :=
  earlier.call.number < later.call.number ∨
    earlier.call.number = later.call.number ∧ earlier.index < later.index

/-- The writes of a connection are submitted in the order of the calls, those of one `writeMany`
behind one another and in the order of the list. -/
def InOrder (index : ℕ) (state : State) : Prop :=
  state.requests.Pairwise fun earlier later =>
    earlier.call.Writes index → later.call.Writes index → earlier.Before later

/-- A write goes on only when no earlier write of its connection waits. -/
def InTurn (index : ℕ) (state : State) (action : Action) : Prop :=
  ∀ call bufferIds, advances state action = some (call, bufferIds) → call.Writes index →
    ∀ channel, state.channels[index]? = some channel → state.isClosing channel = false →
      ∀ other ∈ state.buffers.waiting, other.Writes index → call.number ≤ other.number

/-- What a run keeps in which every write is in its turn. -/
structure Queued (index : ℕ) (state : State) : Prop where
  inOrder : InOrder index state
  /-- Who waits comes behind whatever is submitted. -/
  behind : ∀ request ∈ state.requests, request.call.Writes index →
    ∀ call ∈ state.buffers.waiting, call.Writes index → request.call.number < call.number
  requests : ∀ request ∈ state.requests, request.call.number < state.calls
  waiting : ∀ call ∈ state.buffers.waiting, call.number < state.calls
  nodup : (state.buffers.waiting.map Call.number).Nodup

theorem queued_create (index capacity : ℕ) : Queued index (create capacity) where
  inOrder := List.Pairwise.nil
  behind _ h := by cases h
  requests _ h := by cases h
  waiting _ h := by cases h
  nodup := nodup_nil

section Step

variable {index : ℕ} {state next : State}

/-- The buffers of one call are submitted in their order. -/
theorem pairwise_submissions (full : ℕ → Bool) (call : Call) (bufferIds : List ℕ) :
    (submissions full call bufferIds).Pairwise fun earlier later =>
      earlier.call.Writes index → later.call.Writes index → earlier.Before later := by
  have hidxs : bufferIds.zipIdx.Pairwise fun earlier later => earlier.2 < later.2 := by
    rw [← pairwise_map, zipIdx_map_snd]
    exact pairwise_lt_range'
  unfold submissions
  rw [pairwise_map]
  exact (hidxs.sublist filter_sublist).imp fun hlt _ _ => .inr ⟨rfl, hlt⟩

variable {call : Call} {bufferIds : List ℕ}

theorem call_of_mem_submissions {full : ℕ → Bool} {submission : Submission}
    (h : submission ∈ submissions full call bufferIds) : submission.call = call := by
  obtain ⟨entry, -, rfl⟩ := mem_map.mp h
  rfl

/-- Calls that start come behind all that are waiting, and are told from them. -/
theorem starts_waiting {started waiting : List Call} {calls : ℕ} (h : Queued index state)
    (hstarts : Starts state calls started)
    (hwait : waiting.Perm (state.buffers.waiting ++ started)) :
    (∀ call ∈ waiting, call.number < calls) ∧ (waiting.map Call.number).Nodup ∧
      ∀ request ∈ state.requests, request.call.Writes index → ∀ call ∈ waiting, call.Writes index →
        request.call.number < call.number := by
  have hcalls := hstarts.calls
  have hlen := hstarts.length
  refine ⟨fun call hmem => ?_, ?_, fun request hreq hwrites call hmem hcall => ?_⟩
  · rcases mem_append.mp (hwait.mem_iff.mp hmem) with hmem | hmem
    · have hlt := h.waiting call hmem
      omega
    · have hnum := hstarts.numbers call hmem
      have hpos := length_pos_of_mem hmem
      omega
  · rw [(hwait.map Call.number).nodup_iff, map_append]
    refine nodup_append.mpr ⟨h.nodup, ?_, fun number hbefore other hstarted => ?_⟩
    · match started, hlen with
      | [], _ => exact nodup_nil
      | [call], _ => exact nodup_singleton _
    · obtain ⟨call, hmem, rfl⟩ := mem_map.mp hbefore
      obtain ⟨new, hnew, rfl⟩ := mem_map.mp hstarted
      have hlt := h.waiting call hmem
      rw [hstarts.numbers new hnew]
      exact Nat.ne_of_lt hlt
  · rcases mem_append.mp (hwait.mem_iff.mp hmem) with hmem | hmem
    · exact h.behind request hreq hwrites call hmem hcall
    · rw [hstarts.numbers call hmem]
      exact h.requests request hreq

theorem Queued.quiet (h : Queued index state) (hquiet : Quiet state next) : Queued index next := by
  obtain ⟨started, hstarts, hwait⟩ := hquiet.started
  obtain ⟨hlt, hnodup, hbehind⟩ := starts_waiting h hstarts hwait
  refine ⟨?_, ?_, fun request hmem => ?_, hlt, hnodup⟩
  · unfold InOrder
    rw [hquiet.requests]
    exact h.inOrder
  · rw [hquiet.requests]
    exact hbehind
  · rw [hquiet.requests] at hmem
    have hbefore := h.requests request hmem
    have hcalls := hstarts.calls
    omega

/-- The call that goes on is behind what is submitted and, in its turn, before all that wait. -/
theorem Queued.obtains {middle : State} (h : Queued index state)
    (hobtains : Obtains state call bufferIds middle) :
    Queued index middle ∧ call.number < middle.calls ∧
      (call.Writes index →
        (∀ other ∈ state.buffers.waiting, other.Writes index → call.number ≤ other.number) →
        (∀ request ∈ middle.requests, request.call.Writes index →
          request.call.number < call.number) ∧
        ∀ other ∈ middle.buffers.waiting, other.Writes index → call.number < other.number) := by
  obtain ⟨started, hstarts, hwait⟩ := hobtains.started
  -- The calls are numbered as they come, and a new one stands behind all.
  obtain ⟨hlt, hnodup, hbehind⟩ := starts_waiting h hstarts hwait
  have hcalls := hstarts.calls
  rw [map_cons, nodup_cons] at hnodup
  have hreqs : middle.requests = state.requests := by rw [hobtains.middle]
  refine ⟨⟨?_, ?_, fun request hmem => ?_, fun other hmem => ?_, hnodup.2⟩,
    hlt call mem_cons_self, fun hwrites hturn => ⟨?_, fun other hmem hother => ?_⟩⟩
  · unfold InOrder
    rw [hreqs]
    exact h.inOrder
  · rw [hreqs]
    exact fun request hmem hreq other hother =>
      hbehind request hmem hreq other (mem_cons_of_mem call hother)
  · rw [hreqs] at hmem
    have hbefore := h.requests request hmem
    omega
  · exact hlt other (mem_cons_of_mem call hmem)
  · rw [hreqs]
    exact fun request hmem hreq => hbehind request hmem hreq call mem_cons_self hwrites
  · have hne : call.number ≠ other.number := fun heq =>
      hnodup.1 (heq ▸ mem_map_of_mem (f := Call.number) hmem)
    -- The call has the smallest number of those that wait to write.
    have hle : call.number ≤ other.number := by
      rcases mem_append.mp (hwait.mem_iff.mp (mem_cons_of_mem call hmem)) with hin | hin
      · exact hturn other hin hother
      · rw [hstarts.numbers other hin]
        rcases mem_append.mp (hwait.mem_iff.mp mem_cons_self) with hcall | hcall
        · exact (h.waiting call hcall).le
        · exact (hstarts.numbers call hcall).le
    omega

theorem Queued.proceed (h : Queued index state) (full : ℕ → Bool)
    (hlt : call.number < state.calls)
    (hturn : (∃ channel, state.channels[call.channel]? = some channel ∧
        state.isClosing channel = false) → call.Writes index →
      (∀ request ∈ state.requests, request.call.Writes index →
          request.call.number < call.number) ∧
        ∀ other ∈ state.buffers.waiting, other.Writes index → call.number < other.number) :
    Queued index (state.proceed full call bufferIds) := by
  rcases proceed_cases full call bufferIds state with ⟨heq, -⟩ | ⟨channel, hchan, hclosing, heq⟩
  · rw [heq]
    exact h
  · have hturn := hturn ⟨channel, hchan, hclosing⟩
    rw [heq]
    refine ⟨?_, fun request hmem hwrites other hother hwaits => ?_, fun request hmem => ?_,
      h.waiting, h.nodup⟩
    · refine pairwise_append.mpr ⟨h.inOrder, pairwise_submissions full call bufferIds, ?_⟩
      intro earlier hearlier later hlater hfirst hsecond
      rw [call_of_mem_submissions hlater] at hsecond
      refine .inl ?_
      rw [call_of_mem_submissions hlater]
      exact (hturn hsecond).1 earlier hearlier hfirst
    · rcases mem_append.mp hmem with hmem | hmem
      · exact h.behind request hmem hwrites other hother hwaits
      · rw [call_of_mem_submissions hmem] at hwrites ⊢
        exact (hturn hwrites).2 other hother hwaits
    · rcases mem_append.mp hmem with hmem | hmem
      · exact h.requests request hmem
      · rw [call_of_mem_submissions hmem]
        exact hlt

theorem Queued.connect (h : Queued index state) (other : ℕ) (full : Bool) :
    Queued index (state.connect other full) := by
  unfold State.connect
  split
  · exact h
  · split
    · exact h
    · have hconnects (request : Submission) (hmem : request ∈ (if full = true then []
          else [⟨⟨state.calls, other, .one .connect false false⟩, 0, none⟩] : List Submission)) :
          request.call.number = state.calls ∧ ¬request.call.Writes index := by
        split at hmem
        · cases hmem
        · rw [mem_singleton.mp hmem]
          exact ⟨rfl, fun hwrites => by cases hwrites.2⟩
      refine ⟨?_, fun request hmem hwrites call hcall hwaits => ?_, fun request hmem => ?_,
        fun call hmem => (h.waiting call hmem).trans (Nat.lt_succ_self _), h.nodup⟩
      · refine pairwise_append.mpr ⟨h.inOrder, ?_, ?_⟩
        · exact pairwise_of_forall_mem_list fun earlier hearlier _ _ hfirst _ =>
            absurd hfirst (hconnects earlier hearlier).2
        · exact fun _ _ later hlater _ hsecond => absurd hsecond (hconnects later hlater).2
      · rcases mem_append.mp hmem with hmem | hmem
        · exact h.behind request hmem hwrites call hcall hwaits
        · exact absurd hwrites (hconnects request hmem).2
      · rcases mem_append.mp hmem with hmem | hmem
        · exact (h.requests request hmem).trans (Nat.lt_succ_self _)
        · rw [(hconnects request hmem).1]
          exact Nat.lt_succ_self _

/-- Nothing is submitted, and the same calls wait. -/
theorem Queued.of_perm (h : Queued index state)
    (hwait : next.buffers.waiting.Perm state.buffers.waiting)
    (hreqs : next.requests = state.requests) (hcalls : next.calls = state.calls) :
    Queued index next where
  inOrder := by
    unfold InOrder
    rw [hreqs]
    exact h.inOrder
  behind := by
    rw [hreqs]
    exact fun request hmem hwrites call hcall =>
      h.behind request hmem hwrites call (hwait.mem_iff.mp hcall)
  requests := by
    rw [hreqs, hcalls]
    exact h.requests
  waiting call hmem := by
    rw [hcalls]
    exact h.waiting call (hwait.mem_iff.mp hmem)
  nodup := (hwait.map Call.number).nodup_iff.mpr h.nodup

theorem Queued.step {action : Action} (hstand : Standing state) (h : Queued index state)
    (hturn : InTurn index state action) (hstep : step state action = some next) :
    Queued index next := by
  rcases step_cases hstep with hquiet | ⟨call, bufferIds, middle, hadv, hobtains, rfl⟩ |
    ⟨other, full, channel, -, -, rfl⟩ | ⟨position, result, submission, -, hsub, rfl⟩ |
    ⟨bufferId, -, -, rfl⟩
  · exact h.quiet hquiet
  · obtain ⟨hmid, hlt, hbetween⟩ := h.obtains hobtains
    refine hmid.proceed _ hlt fun ⟨channel, hchan, hclosing⟩ hwrites => ?_
    rw [hobtains.middle] at hchan hclosing
    exact hbetween hwrites
      (hturn call bufferIds hadv hwrites channel (hwrites.1 ▸ hchan) hclosing)
  · exact h.connect other full
  · obtain ⟨channel, -, hcompletes⟩ := hstand.completes hsub result
    exact h.of_perm (hcompletes.allocations.map Allocation.call) hcompletes.requests
      hcompletes.calls
  · exact h.of_perm ((state.buffers.allocations_release bufferId).map Allocation.call) rfl rfl

end Step

/-- In every run in which a write of a connection goes on only when no earlier one waits, its writes
are submitted in the order of the calls. -/
theorem inOrder_of_inTurn (index capacity : ℕ) (actions : List Action) {state : State}
    (halong : Along step (InTurn index) (create capacity) actions)
    (hrun : run step (create capacity) actions = some state) : InOrder index state :=
  (run_induction (fun _ state => Standing state ∧ Queued index state)
    (fun _ _ _ _ hinv hturn hstep => ⟨hinv.1.step hstep, hinv.2.step hinv.1 hturn hstep⟩)
    ⟨standing_create capacity, queued_create index capacity⟩ halong hrun).2.inOrder

/-- Two writes that both find a free buffer. -/
theorem inOrder_of_inTurn_two :
    ∃ state, run step (create 2)
      [.opened .client none, .call 0 (.clientWriteSingle [7] false false) fun _ => false,
        .call 0 (.clientWriteSingle [8] false false) fun _ => false] = some state ∧
      state.requests.length = 2 ∧ InOrder 0 state := by
  refine ⟨_, rfl, rfl, inOrder_of_inTurn 0 2
    [.opened .client none, .call 0 (.clientWriteSingle [7] false false) fun _ => false,
      .call 0 (.clientWriteSingle [8] false false) fun _ => false] ?_ rfl⟩
  refine (along_cons_of_step rfl).mpr ⟨fun _ _ h => (by cases h), ?_⟩
  refine (along_cons_of_step rfl).mpr ⟨fun _ _ _ _ _ _ _ _ h => (by cases h), ?_⟩
  exact (along_cons_of_step rfl).mpr ⟨fun _ _ _ _ _ _ _ _ h => (by cases h), trivial⟩

/-- A `writeMany` with all its buffers, and a `writeSingle` in the same turn: the second is
submitted first. -/
theorem inOrder_false : ¬∀ state, Reachable step (create 3) state → InOrder 0 state := by
  intro h
  have hwrites := h _ ⟨[.opened .client none,
    .call 0 (.clientWriteMany [[1], [2]] false false) fun _ => false,
    .call 0 (.clientWriteSingle [3] false false) fun _ => false, .resume fun _ => false], rfl⟩
  have hfirst := (List.pairwise_cons.mp hwrites).1 _ List.mem_cons_self ⟨rfl, rfl⟩ ⟨rfl, rfl⟩
  exact absurd hfirst (by unfold Submission.Before; decide)

end FengShui.Transport
