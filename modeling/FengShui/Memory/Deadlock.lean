import FengShui.Memory.Pool
import Mathlib.Algebra.GroupWithZero.Nat
import Mathlib.Data.List.Nodup
import Mathlib.Order.Nat

/-!
# Batches of buffers that wait for each other (`memory/buffers.dart`)

A call of `allocateArray` keeps the buffers that it has while it waits for more. The calls that wait
can hold all but one of the buffers that each has asked for; while these together are fewer than the
buffers of the pool, the calls cannot hold all of them (`not_deadlocked_of_spares`).
-/

namespace FengShui.Memory

open List

variable {κ : Type}

/-- The most that a call can hold while it waits. -/
def Allocation.claim (allocation : Allocation κ) : ℕ :=
  if allocation.remaining = 0 then 0 else allocation.bufferIds.length + allocation.remaining - 1

namespace MemoryStaticBuffers

variable {buffers next : MemoryStaticBuffers κ}

/-- The most that all calls together can hold while they wait. -/
def claims (buffers : MemoryStaticBuffers κ) : ℕ := (buffers.allocations.map Allocation.claim).sum

theorem claims_of_perm (h : next.allocations.Perm buffers.allocations) :
    next.claims = buffers.claims := (h.map Allocation.claim).sum_nat

theorem claims_await (allocation : Allocation κ) :
    (buffers.await allocation).claims = buffers.claims + allocation.claim := by
  have hperm := (buffers.allocations_await allocation).map Allocation.claim
  have hsum := hperm.sum_nat
  rwa [map_append, sum_append, map_singleton, sum_singleton] at hsum

/-- The loop does not change what a call asks for. -/
theorem claims_collect {remaining : ℕ} {call : κ} {bufferIds : List ℕ} {result : Option (List ℕ)}
    (h : buffers.collect remaining call bufferIds = (result, next)) :
    next.claims = buffers.claims +
      if remaining ≤ buffers.available then 0 else bufferIds.length + remaining - 1 := by
  unfold available
  rw [collect_eq] at h
  split at h <;> rename_i hrem <;> cases h
  · rw [if_pos hrem]
    rfl
  · have hwaits : remaining - buffers.ids.length ≠ 0 := by omega
    have hclaim : (Allocation.claim ⟨call, bufferIds ++ buffers.ids,
        remaining - buffers.ids.length⟩) = bufferIds.length + remaining - 1 := by
      rw [Allocation.claim, if_neg hwaits, length_append]
      dsimp only
      omega
    rw [claims_await, hclaim, if_neg hrem]
    rfl

theorem claims_allocateArray (count : ℕ) (call : κ) :
    (buffers.allocateArray count call).claims =
      buffers.claims + if count ≤ buffers.available then 0 else count - 1 := by
  have hcollect := @claims_collect _ buffers _ count call [] _ rfl
  rw [length_nil, Nat.zero_add] at hcollect
  rw [← hcollect]
  unfold allocateArray
  split <;> rename_i hres <;> rw [hres]
  -- A call that has all of its buffers waits for none.
  simp [claims, allocations, Allocation.claim]

theorem claims_resume {call : κ} {result : Option (List ℕ)}
    (h : buffers.resume = some ((call, result), next)) : next.claims ≤ buffers.claims := by
  unfold resume at h
  split at h
  · cases h
  · rename_i allocation microtasks hmicro
    cases h
    have hcollect :=
      @claims_collect _ { buffers with microtasks := microtasks } _ allocation.remaining
      allocation.call allocation.bufferIds _ rfl
    have hclaims : buffers.claims =
        claims { buffers with microtasks := microtasks } + allocation.claim := by
      unfold claims allocations
      rw [hmicro]
      simp only [map_append, map_cons, sum_append, sum_cons]
      omega
    rw [hcollect, hclaims]
    refine Nat.add_le_add_left ?_ _
    unfold Allocation.claim
    split <;> split <;> omega

end MemoryStaticBuffers

namespace Pool

open FengShui.Transition

/-- All buffers are in use, and by calls that wait for more. -/
structure Deadlocked (state : State κ) : Prop where
  available : state.buffers.available = 0
  used : 0 < state.buffers.used
  holders : ∀ entry ∈ state.holders, ∃ allocation ∈ state.buffers.allocations,
    0 < allocation.remaining ∧ entry.2 ∈ allocation.bufferIds

/-- A call that has to wait leaves a buffer to spare: those that wait cannot hold all. -/
def Spares (state : State κ) : Action κ → Prop
  | .allocateArray _ count => count ≤ state.buffers.available ∨
      state.buffers.claims + (count - 1) < state.buffers.capacity
  | .get _ | .allocate _ | .release _ | .resume => True

instance (state : State κ) (action : Action κ) : Decidable (Spares state action) := by
  cases action <;> unfold Spares <;> infer_instance

/-- The calls that wait cannot hold all buffers. -/
def Spared (state : State κ) : Prop :=
  state.buffers.claims = 0 ∨ state.buffers.claims < state.buffers.capacity

variable {capacity : ℕ} {state next : State κ} {action : Action κ}

theorem Spared.of_le (h : Spared state) (hclaims : next.buffers.claims ≤ state.buffers.claims)
    (hcap : next.buffers.capacity = state.buffers.capacity) : Spared next := by
  unfold Spared at *
  omega

theorem Spared.step (h : Spared state) (hspares : Spares state action)
    (hsound : Sound capacity state) (hstep : step state action = some next) : Spared next := by
  have hcap : next.buffers.capacity = state.buffers.capacity :=
    (hsound.step hstep).capacity.trans hsound.capacity.symm
  cases action with
  | get owner =>
    rw [Pool.step] at hstep
    cases hstep
    refine h.of_le ?_ hcap
    split
    · rename_i hget
      unfold MemoryStaticBuffers.get at hget
      split at hget
      · cases hget
      · cases hget
        exact le_refl _
    · exact le_refl _
  | allocate owner =>
    rw [Pool.step] at hstep
    cases hstep
    refine h.of_le ?_ hcap
    dsimp only
    unfold MemoryStaticBuffers.allocate
    rw [MemoryStaticBuffers.claims_allocateArray]
    split <;> omega
  | allocateArray owner count =>
    rw [Pool.step] at hstep
    cases hstep
    -- Buffers that are there are claimed by nobody, and the others leave one to spare.
    have hclaims := state.buffers.claims_allocateArray count owner
    unfold Spared at h ⊢
    dsimp only at hcap ⊢
    rw [hclaims, hcap]
    rcases hspares with hcount | hspares
    · rw [if_pos hcount]
      exact h
    · split
      · exact h
      · exact .inr hspares
  | release bufferId =>
    rw [Pool.step] at hstep
    split at hstep
    · cases hstep
      refine h.of_le ?_ hcap
      exact (MemoryStaticBuffers.claims_of_perm (state.buffers.allocations_release bufferId)).le
    · cases hstep
  | resume =>
    rw [Pool.step] at hstep
    obtain ⟨⟨⟨owner, bufferIds⟩, buffers⟩, hresume, rfl⟩ := Option.map_eq_some_iff.mp hstep
    exact h.of_le (MemoryStaticBuffers.claims_resume hresume) hcap

/-- The buffers of the calls that wait are no more than these can hold. -/
theorem length_waiting_le (allocations : List (Allocation κ)) :
    ((allocations.filter fun allocation => 0 < allocation.remaining).flatMap
      Allocation.bufferIds).length ≤ (allocations.map Allocation.claim).sum := by
  induction allocations with
  | nil => exact le_refl _
  | cons allocation allocations ih =>
    rw [map_cons, sum_cons]
    by_cases hrem : 0 < allocation.remaining
    · rw [filter_cons_of_pos (by simpa using hrem), flatMap_cons,
        length_append, Allocation.claim, if_neg (by omega)]
      omega
    · rw [filter_cons_of_neg (by simpa using hrem)]
      omega

/-- In a deadlock the calls that wait hold all buffers. -/
theorem Deadlocked.capacity_le (h : Deadlocked state) (hsound : Sound capacity state) :
    capacity ≤ state.buffers.claims := by
  have hexclusive := hsound.exclusive
  have hsubset : state.holders.map Prod.snd ⊆
      (state.buffers.allocations.filter fun allocation => 0 < allocation.remaining).flatMap
        Allocation.bufferIds := by
    intro bufferId hmem
    obtain ⟨entry, hent, rfl⟩ := mem_map.mp hmem
    obtain ⟨allocation, hallocation, hrem, hholds⟩ := h.holders entry hent
    refine mem_flatMap.mpr ⟨allocation, ?_, hholds⟩
    exact mem_filter.mpr ⟨hallocation, by simpa using hrem⟩
  calc capacity = state.buffers.used := by
        rw [hexclusive.used, h.available, Nat.sub_zero]
    _ = (state.holders.map Prod.snd).length := by
        rw [hexclusive.used_holders, length_map]
    _ ≤ _ := hexclusive.holders.length_le_of_subset hsubset
    _ ≤ state.buffers.claims := length_waiting_le _

/-- No deadlock is reached while every call that has to wait leaves a buffer to spare. -/
theorem not_deadlocked_of_spares (capacity : ℕ) {actions : List (Action κ)} {state : State κ}
    (halong : Along step Spares (State.create capacity) actions)
    (hrun : run step (State.create capacity) actions = some state) : ¬Deadlocked state := by
  have hinv : Sound capacity state ∧ Spared state :=
    run_induction (fun _ state => Sound capacity state ∧ Spared state)
      (fun _ state action next h hspares hstep =>
        ⟨h.1.step hstep, h.2.step hspares h.1 hstep⟩)
      ⟨sound_create capacity, .inl rfl⟩ halong hrun
  intro hdeadlocked
  have hcapacity := hdeadlocked.capacity_le hinv.1
  have hused := hdeadlocked.used
  rw [hinv.1.exclusive.used, hdeadlocked.available, Nat.sub_zero] at hused
  have hspared := hinv.2
  unfold Spared at hspared
  rw [hinv.1.capacity] at hspared
  omega

/-- A single batch waits for a buffer that is in use elsewhere. -/
theorem not_deadlocked_of_spares_one :
    ¬Deadlocked (⟨⟨2, [], [[⟨2, [0], 1⟩]], []⟩, [(1, 1)]⟩ : State ℕ) :=
  @not_deadlocked_of_spares ℕ 2 [.get 1, .allocateArray 2 2] _ (by decide) rfl

/-- The buffer that the first batch is woken for is taken by the second. -/
theorem deadlocked_two : ∃ state : State ℕ, Reachable step (State.create 2) state ∧
    Deadlocked state := by
  refine ⟨⟨⟨2, [], [[⟨3, [1], 1⟩, ⟨2, [0], 1⟩]], []⟩, []⟩,
    ⟨[.get 1, .allocateArray 2 2, .release 1, .allocateArray 3 2, .resume], rfl⟩,
      rfl, by decide, ?_⟩
  decide

end Pool

end FengShui.Memory
