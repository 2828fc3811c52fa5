import FengShui.Lib.Transition
import FengShui.Memory.StaticBuffers

/-!
# All uses of the static buffers together (`memory/buffers.dart`)

Any number of owners `get`, `allocate` and `allocateArray`, and release what they hold, in any
order.
-/

namespace FengShui.Memory.Pool

open FengShui.Transition List

/-- The pool, and who holds which id. -/
structure State (κ : Type) where
  buffers : MemoryStaticBuffers κ
  held : List (κ × ℕ)
  deriving DecidableEq, Repr

inductive Action (κ : Type) where
  | get (owner : κ)
  | allocate (owner : κ)
  | allocateArray (owner : κ) (count : ℕ)
  | release (bufferId : ℕ)
  /-- A later microtask. -/
  | resume
  deriving DecidableEq, Repr

variable {κ : Type}

def State.create (capacity : ℕ) : State κ := ⟨.create capacity, []⟩

/-- The owners of ids: of those that were handed out, and of those that `allocateArray` has so
far. -/
def State.holders (state : State κ) : List (κ × ℕ) :=
  state.held ++ state.buffers.allocations.flatMap fun allocation =>
    allocation.bufferIds.map fun bufferId => (allocation.call, bufferId)

/-- Only ids that are held are released. -/
def step (state : State κ) : Action κ → Option (State κ)
  | .get owner => some <|
    match state.buffers.get with
    | some (bufferId, buffers) => ⟨buffers, state.held ++ [(owner, bufferId)]⟩
    | none => state
  | .allocate owner => some { state with buffers := state.buffers.allocate owner }
  | .allocateArray owner count =>
    some { state with buffers := state.buffers.allocateArray count owner }
  | .release bufferId =>
    if bufferId ∈ state.held.map Prod.snd then
      some ⟨state.buffers.release bufferId, state.held.eraseP fun entry => entry.2 = bufferId⟩
    else none
  | .resume =>
    state.buffers.resume.map fun ((owner, bufferIds), buffers) =>
      ⟨buffers, state.held ++ (bufferIds.getD []).map fun bufferId => (owner, bufferId)⟩

/-- Every id is free or has an owner, and nobody is left to wait for a free buffer. -/
structure Sound (capacity : ℕ) (state : State κ) : Prop where
  placed : (state.buffers.placed ++ state.held.map Prod.snd).Perm (List.range capacity)
  settled : state.buffers.Settled
  capacity : state.buffers.capacity = capacity

/-- In the beginning every buffer is free. -/
theorem sound_create (capacity : ℕ) : Sound capacity (State.create capacity : State κ) where
  placed := by
    rw [State.create, map_nil, append_nil]
    exact MemoryStaticBuffers.placed_create capacity
  settled := MemoryStaticBuffers.settled_create capacity
  capacity := rfl

/-- What a run of the pool guarantees. -/
structure Exclusive (capacity : ℕ) (state : State κ) : Prop where
  ids : state.buffers.ids.Nodup
  holders : (state.holders.map Prod.snd).Nodup
  apart : ∀ bufferId ∈ state.buffers.ids, bufferId ∉ state.holders.map Prod.snd
  used : state.buffers.used = capacity - state.buffers.available
  used_holders : state.buffers.used = state.holders.length
  finalizers : state.buffers.finalizers.length ≤ 1
  exhausted : state.buffers.finalizers ≠ [] → state.buffers.available = 0
  /-- Who waits while a buffer is free is about to resume. -/
  awake : 0 < state.buffers.available →
    ∀ allocation ∈ state.buffers.allocations, allocation ∈ state.buffers.microtasks

section Step

variable {capacity : ℕ} {state next : State κ}

variable {bufferId : ℕ} {buffers : MemoryStaticBuffers κ}

theorem perm_eraseP {held : List (κ × ℕ)} (h : bufferId ∈ held.map Prod.snd) :
    (bufferId :: (held.eraseP fun entry => entry.2 = bufferId).map Prod.snd).Perm
      (held.map Prod.snd) := by
  obtain ⟨entry, hmem, heq⟩ := mem_map.mp h
  obtain ⟨first, front, back, -, hfirst, hheld, herase⟩ :=
    exists_of_eraseP (p := fun entry : κ × ℕ => decide (entry.2 = bufferId)) hmem
      (decide_eq_true heq)
  obtain rfl := of_decide_eq_true hfirst
  rw [herase, hheld, map_append, map_append, map_cons]
  exact perm_middle.symm

/-- What a step has to keep: the places of the ids together. -/
theorem Sound.of_perm (hsound : Sound capacity state)
    (hplaced : (next.buffers.placed ++ next.held.map Prod.snd).Perm
      (state.buffers.placed ++ state.held.map Prod.snd)) (hsettled : next.buffers.Settled)
    (hcap : next.buffers.capacity = state.buffers.capacity) : Sound capacity next :=
  ⟨hplaced.trans hsound.placed, hsettled, hcap.trans hsound.capacity⟩

/-- A buffer that is taken is held from then on. -/
theorem Sound.get (owner : κ) (hsound : Sound capacity state)
    (h : state.buffers.get = some (bufferId, buffers)) :
    Sound capacity ⟨buffers, state.held ++ [(owner, bufferId)]⟩ := by
  -- `get` is a turn of `collect`.
  have hcollect : state.buffers.collect 1 owner [] = (some [bufferId], buffers) := by
    rw [MemoryStaticBuffers.collect, h]
    rfl
  refine hsound.of_perm ?_ (MemoryStaticBuffers.settled_collect hsound.settled hcollect) ?_
  · have hperm := state.buffers.perm_collect hcollect
    rw [Option.getD_some, append_nil] at hperm
    rw [map_append, map_cons, map_nil]
    refine List.Perm.trans ?_ (hperm.append_right _)
    rw [append_assoc]
    exact perm_append_comm.append_left _
  · have hcap := state.buffers.capacity_collect 1 owner []
    rwa [hcollect] at hcap

/-- A call takes nothing away from anybody. -/
theorem Sound.allocateArray (hsound : Sound capacity state) (count : ℕ) (owner : κ) :
    Sound capacity { state with buffers := state.buffers.allocateArray count owner } :=
  hsound.of_perm ((state.buffers.perm_allocateArray count owner).append_right _)
    (MemoryStaticBuffers.settled_allocateArray hsound.settled count owner)
    (state.buffers.capacity_allocateArray count owner)

/-- A buffer that is held is given back. -/
theorem Sound.release (hsound : Sound capacity state) (h : bufferId ∈ state.held.map Prod.snd) :
    Sound capacity
      ⟨state.buffers.release bufferId, state.held.eraseP fun entry => entry.2 = bufferId⟩ := by
  refine hsound.of_perm ?_ (MemoryStaticBuffers.settled_release hsound.settled bufferId)
    (state.buffers.capacity_release bufferId)
  refine ((state.buffers.perm_release bufferId).append_right _).trans ?_
  exact perm_middle.symm.trans ((perm_eraseP h).append_left state.buffers.placed)

/-- A call that is through holds its buffers. -/
theorem Sound.resume {owner : κ} {bufferIds : Option (List ℕ)} (hsound : Sound capacity state)
    (h : state.buffers.resume = some ((owner, bufferIds), buffers)) :
    Sound capacity
      ⟨buffers, state.held ++ (bufferIds.getD []).map fun bufferId => (owner, bufferId)⟩ := by
  refine hsound.of_perm ?_ (MemoryStaticBuffers.settled_resume hsound.settled h)
    (state.buffers.capacity_resume h)
  have hperm := state.buffers.perm_resume h
  have hids : ((bufferIds.getD []).map fun bufferId => (owner, bufferId)).map Prod.snd =
      bufferIds.getD [] := by
    rw [map_map]
    exact map_id _
  rw [map_append, hids]
  refine List.Perm.trans ?_ (hperm.append_right _)
  rw [append_assoc]
  exact perm_append_comm.append_left _

/-- Every step keeps the pool sound. -/
theorem Sound.step {action : Action κ} (hsound : Sound capacity state)
    (h : step state action = some next) : Sound capacity next := by
  cases action with
  | get owner =>
    rw [Pool.step] at h
    cases h
    split
    · rename_i hget
      exact hsound.get owner hget
    · exact hsound
  | allocate owner =>
    rw [Pool.step] at h
    cases h
    exact hsound.allocateArray 1 owner
  | allocateArray owner count =>
    rw [Pool.step] at h
    cases h
    exact hsound.allocateArray count owner
  | release bufferId =>
    rw [Pool.step] at h
    split at h
    · rename_i hheld
      cases h
      exact hsound.release hheld
    · cases h
  | resume =>
    rw [Pool.step] at h
    obtain ⟨⟨⟨owner, bufferIds⟩, buffers⟩, hresume, rfl⟩ := Option.map_eq_some_iff.mp h
    exact hsound.resume hresume

end Step

section Exclusive

variable {capacity : ℕ} {state : State κ}

theorem map_snd_holders (state : State κ) :
    state.holders.map Prod.snd =
      state.held.map Prod.snd ++ state.buffers.allocations.flatMap Allocation.bufferIds := by
  unfold State.holders
  rw [map_append, map_flatMap]
  simp only [map_map, Function.comp_def, map_id']

/-- The free ids and the held ones are all. -/
theorem Sound.perm (h : Sound capacity state) :
    (state.buffers.ids ++ state.holders.map Prod.snd).Perm (List.range capacity) := by
  refine List.Perm.trans ?_ h.placed
  rw [map_snd_holders]
  unfold MemoryStaticBuffers.placed
  rw [append_assoc]
  exact perm_append_comm.append_left _

/-- In a sound pool no buffer has two holders. -/
theorem Sound.exclusive (h : Sound capacity state) : Exclusive capacity state := by
  have hperm := h.perm
  have hnodup := nodup_append.mp (hperm.nodup_iff.mpr nodup_range)
  have hlen := hperm.length_eq
  rw [length_append, length_map, length_range] at hlen
  exact {
    ids := hnodup.1
    holders := hnodup.2.1
    apart := fun bufferId hfree hheld => hnodup.2.2 bufferId hfree bufferId hheld rfl
    used := by rw [MemoryStaticBuffers.used, h.capacity]
    used_holders := by
      rw [MemoryStaticBuffers.used, MemoryStaticBuffers.available, h.capacity]
      omega
    finalizers := h.settled.finalizers
    exhausted := h.settled.available
    awake := by
      intro havail allocation hmem
      rcases mem_append.mp hmem with hwait | hmem
      · have hnone := h.settled.waiting (ne_nil_of_mem hwait)
        omega
      · exact hmem }

end Exclusive

/-- In every run ids have one owner and no wakeup is lost. -/
theorem exclusive_of_reachable (capacity : ℕ) {state : State κ}
    (h : Reachable step (State.create capacity) state) : Exclusive capacity state :=
  (h.invariant (Sound capacity) (sound_create capacity) fun _ _ _ hsound hstep =>
    hsound.step hstep).exclusive

/-- The second call waits for the buffer of the first, which comes free. -/
theorem exclusive_of_reachable_one : Exclusive 1 (⟨⟨1, [], [], []⟩, [(2, 0)]⟩ : State ℕ) :=
  exclusive_of_reachable 1 ⟨[.get 1, .allocate 2, .release 0, .resume], rfl⟩

end FengShui.Memory.Pool
