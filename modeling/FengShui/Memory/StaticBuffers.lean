import Mathlib.Data.List.Perm.Basic
import Mathlib.Data.List.Flatten
import Mathlib.Tactic.Common
import Mathlib.Data.Nat.Notation

/-!
# The static buffers (`memory/buffers.dart`, `memory/static_buffers.h`)

The free ids are a stack. A call that finds it empty awaits the completer that was registered last,
and registers one where there is none; `release` completes it, and all who await it try again, in
later microtasks and in their order. Who comes in between may take the buffer first.

`perm_collect` and `perm_release` say that no id is lost or handed out twice, and `settled_collect`
and `settled_release` that nobody is left to await a completer while a buffer is free.
-/

namespace FengShui.Memory

open List

/-- A call of `allocate` or `allocateArray` that is not through: the ids it has and how many it
still needs. -/
structure Allocation (κ : Type) where
  call : κ
  bufferIds : List ℕ
  remaining : ℕ
  deriving DecidableEq, Repr

/-- `memory_static_buffers` under `MemoryStaticBuffers`. -/
structure MemoryStaticBuffers (κ : Type) where
  capacity : ℕ
  /-- `ids[0..available)`, the last one first. -/
  ids : List ℕ
  /-- The queue `_finalizers`, with those who await each completer. -/
  finalizers : List (List (Allocation κ))
  /-- Those whose `await` is over, in the order in which they resume. -/
  microtasks : List (Allocation κ)
  deriving DecidableEq, Repr

namespace MemoryStaticBuffers

variable {κ : Type}

/-- `memory_static_buffers_create`: pushes the ids from `0` on. -/
def create (capacity : ℕ) : MemoryStaticBuffers κ :=
  ⟨capacity, (List.range capacity).reverse, [], []⟩

/-- `available`: how many ids are on the stack. -/
def available (buffers : MemoryStaticBuffers κ) : ℕ := buffers.ids.length

def used (buffers : MemoryStaticBuffers κ) : ℕ := buffers.capacity - buffers.available

/-- `memory_static_buffers_push`. -/
def push (bufferId : ℕ) (buffers : MemoryStaticBuffers κ) : MemoryStaticBuffers κ :=
  { buffers with ids := bufferId :: buffers.ids }

def release (bufferId : ℕ) (buffers : MemoryStaticBuffers κ) : MemoryStaticBuffers κ :=
  let buffers := buffers.push bufferId
  match buffers.finalizers.getLast? with
  | none => buffers
  | some last =>
    { buffers with
      finalizers := buffers.finalizers.dropLast
      microtasks := buffers.microtasks ++ last }

def get (buffers : MemoryStaticBuffers κ) : Option (ℕ × MemoryStaticBuffers κ) :=
  match buffers.ids with
  | [] => none
  | bufferId :: ids => some (bufferId, { buffers with ids := ids })

/-- The body of the loop of `allocate`, up to its `await`. -/
def await (allocation : Allocation κ) (buffers : MemoryStaticBuffers κ) : MemoryStaticBuffers κ :=
  match buffers.finalizers.getLast? with
  | none => { buffers with finalizers := [[allocation]] }
  | some last =>
    { buffers with finalizers := buffers.finalizers.dropLast ++ [last ++ [allocation]] }

/-- The loop of `allocateArray`, for `remaining` more ids: the ids, if it need not await. One turn
is `get() ?? await allocate()`, and so is the rest of `allocate` behind its `await`. -/
def collect : ℕ → κ → List ℕ → MemoryStaticBuffers κ → Option (List ℕ) × MemoryStaticBuffers κ
  | 0, _, bufferIds, buffers => (some bufferIds, buffers)
  | remaining + 1, call, bufferIds, buffers =>
    match buffers.get with
    | some (bufferId, buffers) => collect remaining call (bufferIds ++ [bufferId]) buffers
    | none => (none, buffers.await ⟨call, bufferIds, remaining + 1⟩)

/-- `get() ?? await allocate()`: goes on at once where a buffer is free. -/
def getOrAllocate (call : κ) (buffers : MemoryStaticBuffers κ) :
    Option (List ℕ) × MemoryStaticBuffers κ := buffers.collect 1 call []

/-- `await allocateArray(count)`: goes on in a later microtask also where it has all ids. -/
def allocateArray (count : ℕ) (call : κ) (buffers : MemoryStaticBuffers κ) :
    MemoryStaticBuffers κ :=
  match buffers.collect count call [] with
  | (some bufferIds, buffers) =>
    { buffers with microtasks := buffers.microtasks ++ [⟨call, bufferIds, 0⟩] }
  | (none, buffers) => buffers

/-- `await allocate()`. -/
def allocate (call : κ) (buffers : MemoryStaticBuffers κ) : MemoryStaticBuffers κ :=
  buffers.allocateArray 1 call

/-- The next microtask: the call, and the ids if it is through. -/
def resume (buffers : MemoryStaticBuffers κ) :
    Option ((κ × Option (List ℕ)) × MemoryStaticBuffers κ) :=
  match buffers.microtasks with
  | [] => none
  | allocation :: microtasks =>
    let (bufferIds, buffers) :=
      { buffers with microtasks := microtasks }.collect allocation.remaining allocation.call
        allocation.bufferIds
    some ((allocation.call, bufferIds), buffers)

/-- Every call that is not through. -/
def allocations (buffers : MemoryStaticBuffers κ) : List (Allocation κ) :=
  buffers.finalizers.flatten ++ buffers.microtasks

/-- The ids that are free, or held by a call that is not through. -/
def placed (buffers : MemoryStaticBuffers κ) : List ℕ :=
  buffers.ids ++ buffers.allocations.flatMap Allocation.bufferIds

/-- Nobody awaits a completer while a buffer is free. -/
structure Settled (buffers : MemoryStaticBuffers κ) : Prop where
  finalizers : buffers.finalizers.length ≤ 1
  available : buffers.finalizers ≠ [] → buffers.available = 0

section Collect

variable (buffers : MemoryStaticBuffers κ) (remaining : ℕ) (call : κ) (bufferIds : List ℕ)

/-- Without a free buffer the loop awaits one. -/
theorem collect_of_nil (h : buffers.ids = []) :
    buffers.collect (remaining + 1) call bufferIds =
      (none, buffers.await ⟨call, bufferIds, remaining + 1⟩) := by
  rw [collect, get, h]

/-- With a free buffer the loop takes it and goes on. -/
theorem collect_of_cons {bufferId : ℕ} {ids : List ℕ} (h : buffers.ids = bufferId :: ids) :
    buffers.collect (remaining + 1) call bufferIds =
      collect remaining call (bufferIds ++ [bufferId]) { buffers with ids := ids } := by
  rw [collect, get, h]

/-- The loop takes what it needs, or all there is and waits. -/
theorem collect_eq :
    buffers.collect remaining call bufferIds =
      if remaining ≤ buffers.ids.length then
        (some (bufferIds ++ buffers.ids.take remaining),
          { buffers with ids := buffers.ids.drop remaining })
      else
        (none, await ⟨call, bufferIds ++ buffers.ids, remaining - buffers.ids.length⟩
          { buffers with ids := [] }) := by
  induction remaining generalizing bufferIds buffers with
  | zero => simp [collect]
  | succ remaining ih =>
    obtain ⟨capacity, ids, finalizers, microtasks⟩ := buffers
    cases ids with
    | nil =>
      rw [collect_of_nil _ _ _ _ rfl]
      simp
    | cons bufferId ids =>
      rw [collect_of_cons _ _ _ _ rfl, ih]
      simp only [length_cons, Nat.add_le_add_iff_right, take_succ_cons, drop_succ_cons,
        append_assoc, singleton_append, Nat.add_sub_add_right]

end Collect

/-- The calls that are not through. -/
def waiting (buffers : MemoryStaticBuffers κ) : List κ := buffers.allocations.map Allocation.call

/-- Every call that is not through has, or still needs, as many ids as it asked for. -/
def Whole (count : κ → ℕ) (buffers : MemoryStaticBuffers κ) : Prop :=
  ∀ allocation ∈ buffers.allocations,
    allocation.bufferIds.length + allocation.remaining = count allocation.call

section Placed

variable (buffers : MemoryStaticBuffers κ)

/-- In the beginning every id is free. -/
theorem placed_create (capacity : ℕ) :
    (create capacity : MemoryStaticBuffers κ).placed.Perm (List.range capacity) := by
  simp [create, placed, allocations]

/-- The call that awaits is one more. -/
theorem allocations_await (allocation : Allocation κ) :
    (buffers.await allocation).allocations.Perm (buffers.allocations ++ [allocation]) := by
  unfold await allocations
  split
  · rename_i hnone
    rw [getLast?_eq_none_iff.mp hnone]
    exact perm_append_comm
  · rename_i last hlast
    obtain ⟨front, hfinalizers⟩ := getLast?_eq_some_iff.mp hlast
    rw [hfinalizers, dropLast_concat]
    simp only [flatten_append, flatten_singleton, append_assoc]
    exact (perm_append_comm.append_left last).append_left front.flatten

/-- To await takes no id. -/
@[simp]
theorem ids_await (allocation : Allocation κ) : (buffers.await allocation).ids = buffers.ids := by
  unfold await
  split <;> rfl

/-- The ids that the call has so far are held by it. -/
theorem placed_await (allocation : Allocation κ) :
    (buffers.await allocation).placed.Perm (buffers.placed ++ allocation.bufferIds) := by
  have hallocs := (buffers.allocations_await allocation).flatMap_right Allocation.bufferIds
  unfold placed
  rw [ids_await, append_assoc]
  refine List.Perm.append_left buffers.ids (hallocs.trans ?_)
  rw [flatMap_append, flatMap_singleton]

variable {next : MemoryStaticBuffers κ}

/-- No id is lost or handed out twice. -/
theorem perm_collect {remaining : ℕ} {call : κ} {bufferIds : List ℕ} {result : Option (List ℕ)}
    (h : buffers.collect remaining call bufferIds = (result, next)) :
    (next.placed ++ result.getD []).Perm (buffers.placed ++ bufferIds) := by
  rw [collect_eq] at h
  split at h <;> cases h
  · rw [Option.getD_some]
    unfold placed
    rw [perm_iff_count]
    intro id
    have hsplit := congrArg (List.count id) (take_append_drop remaining buffers.ids)
    simp only [allocations, count_append] at hsplit ⊢
    omega
  · rw [Option.getD_none, append_nil]
    refine (placed_await _ _).trans ?_
    unfold placed
    rw [perm_iff_count]
    intro id
    simp only [allocations, count_append, count_nil]
    omega

/-- A release completes calls, and none of them is lost. -/
theorem allocations_release (bufferId : ℕ) :
    (buffers.release bufferId).allocations.Perm buffers.allocations := by
  unfold release
  dsimp only
  split
  · exact .rfl
  · rename_i last hlast
    obtain ⟨front, hfinalizers⟩ := getLast?_eq_some_iff.mp hlast
    have hfinalizers : buffers.finalizers = front ++ [last] := hfinalizers
    unfold allocations push
    rw [hfinalizers, dropLast_concat, flatten_append, flatten_singleton,
      append_assoc]
    exact perm_append_comm.append_left front.flatten

/-- The id that is released is placed again. -/
theorem perm_release (bufferId : ℕ) :
    (buffers.release bufferId).placed.Perm (bufferId :: buffers.placed) := by
  have hids : (buffers.release bufferId).ids = bufferId :: buffers.ids := by
    unfold release
    dsimp only
    split <;> rfl
  unfold placed
  rw [hids]
  exact ((buffers.allocations_release bufferId).flatMap_right _).append_left _

/-- A call takes no id away before it is through. -/
theorem perm_allocateArray (count : ℕ) (call : κ) :
    (buffers.allocateArray count call).placed.Perm buffers.placed := by
  unfold allocateArray
  split
  · rename_i bufferIds next hcollect
    have hperm := buffers.perm_collect hcollect
    refine List.Perm.trans ?_ (hperm.trans (by rw [append_nil]))
    simp [placed, allocations]
  · rename_i next hcollect
    have hperm := buffers.perm_collect hcollect
    simpa using hperm

/-- The ids of a call that is through are handed out, and no others. -/
theorem perm_resume {call : κ} {result : Option (List ℕ)}
    (h : buffers.resume = some ((call, result), next)) :
    (next.placed ++ result.getD []).Perm buffers.placed := by
  unfold resume at h
  split at h
  · cases h
  · rename_i allocation microtasks hmicro
    obtain ⟨heq, rfl⟩ := Prod.mk.inj (Option.some.inj h)
    cases heq
    refine (perm_collect _ rfl).trans ?_
    simp only [placed, allocations, hmicro, flatMap_append, flatMap_cons,
      append_assoc]
    refine (List.Perm.append_left _ (List.Perm.append_left _ ?_))
    exact perm_append_comm

end Placed

section Waiting

variable (buffers : MemoryStaticBuffers κ)

/-- The call waits from then on. -/
theorem waiting_await (allocation : Allocation κ) :
    (buffers.await allocation).waiting.Perm (buffers.waiting ++ [allocation.call]) := by
  have hperm := (buffers.allocations_await allocation).map Allocation.call
  rwa [map_append] at hperm

variable {next : MemoryStaticBuffers κ}

/-- The call waits unless it is through. -/
theorem waiting_collect {remaining : ℕ} {call : κ} {bufferIds : List ℕ} {result : Option (List ℕ)}
    (h : buffers.collect remaining call bufferIds = (result, next)) :
    next.waiting.Perm (buffers.waiting ++ if result.isSome then [] else [call]) := by
  rw [collect_eq] at h
  split at h <;> cases h
  · rw [Option.isSome_some, if_pos rfl, append_nil]
    exact .rfl
  · exact waiting_await _ _

/-- Every call waits for a microtask at least. -/
theorem waiting_allocateArray (count : ℕ) (call : κ) :
    (buffers.allocateArray count call).waiting.Perm (buffers.waiting ++ [call]) := by
  unfold allocateArray
  split <;> rename_i hcollect <;> have hperm := buffers.waiting_collect hcollect
  · rw [Option.isSome_some, if_pos rfl, append_nil] at hperm
    refine List.Perm.trans ?_ (hperm.append_right [call])
    simp [waiting, allocations]
  · exact hperm

/-- The call that is through no longer waits. -/
theorem waiting_resume {call : κ} {result : Option (List ℕ)}
    (h : buffers.resume = some ((call, result), next)) :
    (next.waiting ++ if result.isSome then [call] else []).Perm buffers.waiting := by
  unfold resume at h
  split at h
  · cases h
  · rename_i allocation microtasks hmicro
    obtain ⟨heq, rfl⟩ := Prod.mk.inj (Option.some.inj h)
    cases heq
    refine ((waiting_collect { buffers with microtasks := microtasks } rfl).append_right _).trans ?_
    have hwait : buffers.waiting.Perm
        (waiting { buffers with microtasks := microtasks } ++ [allocation.call]) := by
      unfold waiting allocations
      rw [hmicro]
      simp only [map_append, map_cons, append_assoc]
      exact (perm_append_singleton allocation.call _).symm.append_left _
    refine List.Perm.trans ?_ hwait.symm
    rw [append_assoc]
    refine List.Perm.append_left _ ?_
    split <;> simp

end Waiting

section Whole

variable {buffers : MemoryStaticBuffers κ} {count : κ → ℕ}

/-- In the beginning nobody waits. -/
theorem whole_create (capacity : ℕ) : Whole count (create capacity) := nofun

variable {next : MemoryStaticBuffers κ}

/-- The order of the calls does not matter. -/
theorem Whole.of_perm (h : Whole count buffers)
    (hperm : next.allocations.Perm buffers.allocations) : Whole count next :=
  fun allocation hmem => h allocation (hperm.mem_iff.mp hmem)

/-- A call that counted right awaits with the right count. -/
theorem Whole.await (h : Whole count buffers) {allocation : Allocation κ}
    (hcount : allocation.bufferIds.length + allocation.remaining = count allocation.call) :
    Whole count (buffers.await allocation) := by
  intro other hmem
  rcases mem_append.mp ((buffers.allocations_await allocation).mem_iff.mp hmem) with hmem | hmem
  · exact h other hmem
  · rw [mem_singleton.mp hmem]
    exact hcount

/-- A call that is through has as many ids as it asked for. -/
theorem Whole.collect {remaining : ℕ} {call : κ} {bufferIds : List ℕ} {result : Option (List ℕ)}
    (h : Whole count buffers) (hcount : bufferIds.length + remaining = count call)
    (hcollect : buffers.collect remaining call bufferIds = (result, next)) :
    Whole count next ∧ ∀ ids, result = some ids → ids.length = count call := by
  rw [collect_eq] at hcollect
  split at hcollect <;> cases hcollect
  · refine ⟨h, fun ids hids => ?_⟩
    rw [← Option.some.inj hids, length_append, length_take]
    omega
  · have hempty : Whole count { buffers with ids := [] } := h
    refine ⟨hempty.await ?_, nofun⟩
    dsimp only
    rw [length_append]
    omega

/-- A call starts with all of its ids to get. -/
theorem Whole.allocateArray (h : Whole count buffers) (call : κ) :
    Whole count (buffers.allocateArray (count call) call) := by
  unfold MemoryStaticBuffers.allocateArray
  split <;> rename_i hcollect
  · obtain ⟨hwhole, hlen⟩ := h.collect (Nat.zero_add _) hcollect
    intro allocation hmem
    have hmem : allocation ∈ _ ++ _ := hmem
    rcases mem_append.mp hmem with hmem | hmem
    · exact hwhole allocation (mem_append_left _ hmem)
    · rcases mem_append.mp hmem with hmem | hmem
      · exact hwhole allocation (mem_append_right _ hmem)
      · rw [mem_singleton.mp hmem]
        exact hlen _ rfl
  · exact (h.collect (Nat.zero_add _) hcollect).1

/-- A microtask gives as many ids as were asked for. -/
theorem Whole.resume {call : κ} {result : Option (List ℕ)} (h : Whole count buffers)
    (hresume : buffers.resume = some ((call, result), next)) :
    Whole count next ∧ ∀ ids, result = some ids → ids.length = count call := by
  unfold MemoryStaticBuffers.resume at hresume
  split at hresume
  · cases hresume
  · rename_i allocation microtasks hmicro
    obtain ⟨heq, rfl⟩ := Prod.mk.inj (Option.some.inj hresume)
    cases heq
    have hrest : Whole count { buffers with microtasks := microtasks } := by
      intro other hmem
      refine h other ?_
      unfold allocations at hmem ⊢
      rw [hmicro]
      rcases mem_append.mp hmem with hmem | hmem
      · exact mem_append_left _ hmem
      · exact mem_append_right _ (mem_cons_of_mem _ hmem)
    have hcount := h allocation (mem_append_right _ (hmicro ▸ mem_cons_self))
    exact hrest.collect hcount rfl

end Whole

section Capacity

variable (buffers : MemoryStaticBuffers κ)

/-- To await keeps the capacity. -/
@[simp]
theorem capacity_await (allocation : Allocation κ) :
    (buffers.await allocation).capacity = buffers.capacity := by
  unfold await
  split <;> rfl

/-- The loop keeps the capacity. -/
theorem capacity_collect (remaining : ℕ) (call : κ) (bufferIds : List ℕ) :
    (buffers.collect remaining call bufferIds).2.capacity = buffers.capacity := by
  rw [collect_eq]
  split
  · rfl
  · exact capacity_await _ _

/-- A release keeps the capacity. -/
@[simp]
theorem capacity_release (bufferId : ℕ) :
    (buffers.release bufferId).capacity = buffers.capacity := by
  unfold release
  dsimp only
  split <;> rfl

/-- A call keeps the capacity. -/
theorem capacity_allocateArray (count : ℕ) (call : κ) :
    (buffers.allocateArray count call).capacity = buffers.capacity := by
  have hcollect := buffers.capacity_collect count call []
  unfold allocateArray
  split <;> rename_i heq <;> rw [heq] at hcollect <;> exact hcollect

/-- A microtask keeps the capacity. -/
theorem capacity_resume {result : κ × Option (List ℕ)} {next : MemoryStaticBuffers κ}
    (h : buffers.resume = some (result, next)) : next.capacity = buffers.capacity := by
  unfold resume at h
  split at h
  · cases h
  · cases h
    exact capacity_collect _ _ _ _

end Capacity

section Settled

variable {buffers : MemoryStaticBuffers κ}

/-- In the beginning there is no completer. -/
theorem settled_create (capacity : ℕ) : (create capacity : MemoryStaticBuffers κ).Settled :=
  ⟨Nat.zero_le 1, fun h => absurd rfl h⟩

/-- Where somebody awaits a completer, no buffer is free. -/
theorem Settled.waiting (h : buffers.Settled) (hwait : buffers.finalizers.flatten ≠ []) :
    buffers.available = 0 := by
  refine h.available fun hfinalizers => hwait ?_
  rw [hfinalizers, flatten_nil]

/-- A call awaits only where no buffer is free. -/
theorem Settled.await (h : buffers.Settled) (hids : buffers.ids = []) (allocation : Allocation κ) :
    (buffers.await allocation).Settled := by
  have havail : (buffers.await allocation).available = 0 := by
    unfold MemoryStaticBuffers.available
    rw [ids_await, hids, length_nil]
  refine ⟨?_, fun _ => havail⟩
  unfold MemoryStaticBuffers.await
  split
  · exact Nat.le_refl 1
  · have hlen := h.finalizers
    simp only [length_append, length_dropLast, length_singleton]
    omega

variable {next : MemoryStaticBuffers κ}

/-- The loop takes what is free before it awaits. -/
theorem settled_collect {remaining : ℕ} {call : κ} {bufferIds : List ℕ} {result : Option (List ℕ)}
    (h : buffers.Settled) (hcollect : buffers.collect remaining call bufferIds = (result, next)) :
    next.Settled := by
  rw [collect_eq] at hcollect
  split at hcollect <;> cases hcollect
  · refine ⟨h.finalizers, fun hfinalizers => ?_⟩
    -- No completer is registered while a buffer is free.
    have havail := h.available hfinalizers
    rw [available] at havail ⊢
    rw [length_drop, havail, Nat.zero_sub]
  · have hempty : Settled { buffers with ids := [] } := ⟨h.finalizers, fun _ => rfl⟩
    exact hempty.await rfl _

/-- Of at most one completer none is left. -/
theorem settled_release (h : buffers.Settled) (bufferId : ℕ) :
    (buffers.release bufferId).Settled := by
  obtain ⟨capacity, ids, finalizers, microtasks⟩ := buffers
  have hlen : finalizers.length ≤ 1 := h.finalizers
  match finalizers, hlen with
  | [], _ => exact ⟨Nat.zero_le 1, fun h => absurd rfl h⟩
  | [last], _ => exact ⟨Nat.zero_le 1, fun h => absurd rfl h⟩

/-- A call takes what is free before it awaits. -/
theorem settled_allocateArray (h : buffers.Settled) (count : ℕ) (call : κ) :
    (buffers.allocateArray count call).Settled := by
  unfold allocateArray
  split
  · rename_i hcollect
    have hsettled := settled_collect h hcollect
    exact ⟨hsettled.finalizers, hsettled.available⟩
  · rename_i hcollect
    exact settled_collect h hcollect

/-- So does a call that goes on. -/
theorem settled_resume {call : κ} {result : Option (List ℕ)} (h : buffers.Settled)
    (hresume : buffers.resume = some ((call, result), next)) : next.Settled := by
  unfold resume at hresume
  split at hresume
  · cases hresume
  · rename_i allocation microtasks hmicro
    cases hresume
    have hrest : Settled { buffers with microtasks := microtasks } := ⟨h.finalizers, h.available⟩
    exact settled_collect hrest rfl

end Settled

end MemoryStaticBuffers

end FengShui.Memory
