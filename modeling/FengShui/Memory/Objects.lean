import FengShui.Lib.Binary64
import FengShui.Lib.Transition
import Mathlib.Data.List.Perm.Basic
import Mathlib.Data.List.Nodup

/-!
# The pool of objects (`memory/objects.dart`)

An object is the number of the call of the allocator that made it. The queue is a stack: `allocate`
and the shrinking take its last object, and everything else is added behind that. `allocate` on an
empty queue adds the new object to the queue and returns it as well; `owned_iff` says that this is
the only way in which an object gets two owners.
-/

namespace FengShui.Memory

open Binary64 Transition List

/-- `initialCapacity` is the capacity of the list behind the queue only. -/
structure MemoryObjectsConfiguration where
  minimumAvailableCapacity : ℤ
  maximumAvailableCapacity : ℤ
  preallocation : ℤ
  extensionFactor : Double
  shrinkFactor : Double

/-- A scheduled microtask. -/
inductive MemoryObjectsTask where
  | extend
  | shrink
  deriving DecidableEq, Repr

structure MemoryObjects where
  /-- `_queue`, the last object first. -/
  queue : List ℕ
  /-- The calls of `_allocator` so far. -/
  made : ℕ
  /-- The objects passed to `_releaser` so far. -/
  passed : List ℕ
  tasks : List MemoryObjectsTask
  deriving DecidableEq, Repr

namespace MemoryObjects

section Code

variable (configuration : MemoryObjectsConfiguration)

/-- `_queue.add(_allocator())`. -/
def add (objects : MemoryObjects) : MemoryObjects :=
  { objects with queue := objects.made :: objects.queue, made := objects.made + 1 }

/-- The loop of `_extend`. -/
def extendLoop : ℕ → MemoryObjects → MemoryObjects
  | 0, objects => objects
  | toAllocate + 1, objects =>
    if objects.queue.length < configuration.maximumAvailableCapacity then
      extendLoop toAllocate objects.add
    else objects

/-- `_extend`. -/
def extend (nextCapacity : ℤ) (objects : MemoryObjects) : MemoryObjects :=
  if objects.queue.length ≥ nextCapacity then objects
  else extendLoop configuration (nextCapacity - objects.queue.length).toNat objects

/-- `(_queue.length * _extensionFactor).ceil()`, which may throw. -/
def nextCapacity (objects : MemoryObjects) : Option ℤ :=
  (configuration.extensionFactor.natMul objects.queue.length).ceil

/-- The loop of `_shrink`: what is left of the queue, and what is passed to the releaser. -/
def shrinkLoop : Double → List ℕ → List ℕ × List ℕ
  | _, [] => ([], [])
  | shrink, message :: queue =>
    if shrink.pred.isPos && (queue.length + 1 : ℤ) > configuration.minimumAvailableCapacity then
      let (left, passed) := shrinkLoop shrink.pred queue
      (left, message :: passed)
    else (message :: queue, [])

/-- `_shrink`. -/
def shrink (objects : MemoryObjects) : MemoryObjects :=
  let (left, passed) :=
    shrinkLoop configuration (configuration.shrinkFactor.natMul objects.queue.length) objects.queue
  { objects with queue := left, passed := objects.passed ++ passed }

/-- The constructor. -/
def new : MemoryObjects := extend configuration configuration.preallocation ⟨[], 0, [], []⟩

/-- `allocate`: the object that it returns, if it does not throw. -/
def allocate (objects : MemoryObjects) : Option ℕ × MemoryObjects :=
  match objects.queue with
  | [] =>
    let message := objects.made
    let objects := objects.add
    match nextCapacity configuration objects with
    | none => (none, objects)
    | some next => (some message, extend configuration next objects)
  | allocated :: queue =>
    let objects := { objects with queue := queue }
    if queue.length < configuration.minimumAvailableCapacity then
      (some allocated, { objects with tasks := objects.tasks ++ [.extend] })
    else (some allocated, objects)

def release (message : ℕ) (objects : MemoryObjects) : MemoryObjects :=
  let objects := { objects with queue := message :: objects.queue }
  if objects.queue.length > configuration.maximumAvailableCapacity then
    { objects with tasks := objects.tasks ++ [.shrink] }
  else objects

/-- A microtask; what it throws is an error of its future only. -/
def runTask (objects : MemoryObjects) : MemoryObjectsTask → MemoryObjects
  | .extend =>
    match nextCapacity configuration objects with
    | none => objects
    | some next => extend configuration next objects
  | .shrink => shrink configuration objects

/-- The pool, and the objects that were allocated and not released since. -/
structure State where
  objects : MemoryObjects
  held : List ℕ
  deriving DecidableEq, Repr

inductive Action where
  | allocate
  | release (message : ℕ)
  /-- One of the scheduled microtasks. -/
  | microtask (index : ℕ)
  deriving DecidableEq, Repr

def State.new : State := ⟨MemoryObjects.new configuration, []⟩

/-- Only objects that are allocated are released. -/
def step (state : State) : Action → Option State
  | .allocate =>
    let (message, objects) := allocate configuration state.objects
    some ⟨objects, state.held ++ message.toList⟩
  | .release message =>
    if message ∈ state.held then
      some ⟨release configuration message state.objects, state.held.erase message⟩
    else none
  | .microtask index => do
    let task ← state.objects.tasks[index]?
    let objects := { state.objects with tasks := state.objects.tasks.eraseIdx index }
    return ⟨runTask configuration objects task, state.held⟩

/-- `allocate` finds an object in the queue, or throws. -/
def Finds (state : State) : Action → Prop
  | .allocate => state.objects.queue ≠ [] ∨ (configuration.extensionFactor.natMul 1).ceil = none
  | .release _ | .microtask _ => True

end Code

/-- Every object that is allocated has one owner. -/
structure Owned (state : State) : Prop where
  /-- It is not in the queue. -/
  queue : ∀ message ∈ state.held, message ∉ state.objects.queue
  /-- No other `allocate` has returned it. -/
  held : state.held.Nodup
  /-- It is not passed to the releaser. -/
  apart : ∀ message ∈ state.held, message ∉ state.objects.passed
  /-- No object is passed twice. -/
  passed : state.objects.passed.Nodup

/-- That is so in every state of the run. -/
def OwnedThroughout (configuration : MemoryObjectsConfiguration) (actions : List Action) : Prop :=
  ∀ front back state, actions = front ++ back →
    run (step configuration) (State.new configuration) front = some state → Owned state

/-- Every object that was made is in the queue, allocated, or passed to the releaser. -/
def Placed (objects : MemoryObjects) (held : List ℕ) : Prop :=
  (objects.queue ++ held ++ objects.passed).Perm (List.range objects.made)

variable {configuration : MemoryObjectsConfiguration} {objects : MemoryObjects} {held : List ℕ}
  {state next : State}

theorem Placed.owned (h : Placed state.objects state.held) : Owned state := by
  have hnodup := h.nodup_iff.mpr nodup_range
  rw [append_assoc, nodup_append, nodup_append] at hnodup
  obtain ⟨-, ⟨hheld, hpassed, hapart⟩, hqueue⟩ := hnodup
  exact {
    queue := fun message hmem hqueued =>
      hqueue message hqueued message (mem_append_left _ hmem) rfl
    held := hheld
    apart := fun message hmem hmem' => hapart message hmem message hmem' rfl
    passed := hpassed }

theorem Placed.add (h : Placed objects held) : Placed objects.add held := by
  unfold Placed MemoryObjects.add at *
  dsimp only
  rw [range_succ, append_assoc, cons_append, ← append_assoc]
  exact (h.cons objects.made).trans (perm_append_singleton _ _).symm

theorem Placed.extendLoop (h : Placed objects held) (toAllocate : ℕ) :
    Placed (extendLoop configuration toAllocate objects) held := by
  induction toAllocate generalizing objects with
  | zero => exact h
  | succ toAllocate ih =>
    rw [MemoryObjects.extendLoop]
    split
    · exact ih h.add
    · exact h

theorem Placed.extend (h : Placed objects held) (nextCapacity : ℤ) :
    Placed (extend configuration nextCapacity objects) held := by
  unfold MemoryObjects.extend
  split
  · exact h
  · exact h.extendLoop _

theorem placed_new : Placed (new configuration) [] := by
  have hempty : Placed ⟨[], 0, [], []⟩ [] := List.Perm.refl _
  exact hempty.extend _

theorem append_shrinkLoop (shrink : Double) (queue : List ℕ) :
    (shrinkLoop configuration shrink queue).2 ++ (shrinkLoop configuration shrink queue).1 =
      queue := by
  induction queue generalizing shrink with
  | nil => rfl
  | cons message queue ih =>
    rw [shrinkLoop]
    split
    · exact congrArg (message :: ·) (ih shrink.pred)
    · rfl

theorem Placed.shrink (h : Placed objects held) : Placed (shrink configuration objects) held := by
  have happend := @append_shrinkLoop configuration
    (configuration.shrinkFactor.natMul objects.queue.length) objects.queue
  unfold Placed at h ⊢
  refine List.Perm.trans ?_ h
  unfold MemoryObjects.shrink
  dsimp only
  rw [perm_iff_count]
  intro message
  have hcount := congrArg (List.count message) happend
  simp only [count_append] at hcount ⊢
  omega

theorem Placed.runTask (h : Placed objects held) (task : MemoryObjectsTask) :
    Placed (runTask configuration objects task) held := by
  cases task with
  | extend =>
    rw [MemoryObjects.runTask]
    split
    · exact h
    · exact h.extend _
  | shrink => exact h.shrink

theorem Placed.release (h : Placed objects held) {message : ℕ} (hmem : message ∈ held) :
    Placed (release configuration message objects) (held.erase message) := by
  have hperm : (message :: objects.queue ++ held.erase message ++ objects.passed).Perm
      (objects.queue ++ held ++ objects.passed) := by
    refine List.Perm.append_right _ ?_
    rw [cons_append]
    exact perm_middle.symm.trans ((perm_cons_erase hmem).symm.append_left _)
  unfold MemoryObjects.release
  dsimp only
  split
  · exact hperm.trans h
  · exact hperm.trans h

/-- The last object of the queue is allocated. -/
theorem Placed.allocate (h : Placed objects held) (hqueue : objects.queue ≠ []) :
    Placed (allocate configuration objects).2
      (held ++ (allocate configuration objects).1.toList) := by
  obtain ⟨allocated, queue, hcons⟩ := exists_cons_of_ne_nil hqueue
  have hperm : (queue ++ (held ++ [allocated]) ++ objects.passed).Perm
      (objects.queue ++ held ++ objects.passed) := by
    refine List.Perm.append_right _ ?_
    rw [hcons, cons_append, ← append_assoc]
    exact perm_append_singleton _ _
  unfold MemoryObjects.allocate
  rw [hcons]
  dsimp only
  split
  · exact hperm.trans h
  · exact hperm.trans h

theorem step_allocate (state : State) : step configuration state .allocate =
    some ⟨(allocate configuration state.objects).2,
      state.held ++ (allocate configuration state.objects).1.toList⟩ := rfl

/-- An `allocate` that finds an object or throws keeps the objects in their places. -/
theorem Placed.step {action : Action} (h : Placed state.objects state.held)
    (hfinds : Finds configuration state action)
    (hstep : step configuration state action = some next) : Placed next.objects next.held := by
  cases action with
  | allocate =>
    rw [step_allocate] at hstep
    cases hstep
    by_cases hqueue : state.objects.queue = []
    -- The factor has no next capacity: `ceil` throws.
    · have hthrows := hfinds.resolve_left (not_not_intro hqueue)
      have hcap : nextCapacity configuration state.objects.add = none := by
        rw [nextCapacity, MemoryObjects.add, hqueue]
        exact hthrows
      have halloc : MemoryObjects.allocate configuration state.objects =
          (none, state.objects.add) := by
        rw [MemoryObjects.allocate, hqueue]
        dsimp only
        rw [hcap]
      rw [halloc, Option.toList_none, append_nil]
      exact h.add
    · exact h.allocate hqueue
  | release message =>
    rw [MemoryObjects.step] at hstep
    split at hstep
    · rename_i hmem
      cases hstep
      exact h.release hmem
    · cases hstep
  | microtask index =>
    obtain ⟨task, -, hstep⟩ := Option.bind_eq_some_iff.mp hstep
    cases hstep
    have htasks : Placed { state.objects with tasks := state.objects.tasks.eraseIdx index }
        state.held := h
    exact htasks.runTask task

theorem mem_queue_extendLoop {message : ℕ} (h : message ∈ objects.queue) (toAllocate : ℕ) :
    message ∈ (extendLoop configuration toAllocate objects).queue := by
  induction toAllocate generalizing objects with
  | zero => exact h
  | succ toAllocate ih =>
    rw [extendLoop]
    split
    · exact ih (mem_cons_of_mem _ h)
    · exact h

/-- What an `allocate` returns that does not find an object is in the queue. -/
theorem not_owned_of_not_finds {action : Action} (h : ¬Finds configuration state action)
    (hstep : step configuration state action = some next) : ¬Owned next := by
  cases action with
  | allocate =>
    obtain ⟨hqueue, hreturns⟩ := not_or.mp h
    rw [not_not] at hqueue
    obtain ⟨capacity, hcap⟩ := Option.ne_none_iff_exists'.mp hreturns
    have hnext : nextCapacity configuration state.objects.add = some capacity := by
      rw [nextCapacity, add, hqueue]
      exact hcap
    have halloc : allocate configuration state.objects =
        (some state.objects.made, extend configuration capacity state.objects.add) := by
      rw [allocate, hqueue]
      dsimp only
      rw [hnext]
    rw [step_allocate] at hstep
    cases hstep
    intro howned
    -- The new object is handed out and stays in the queue.
    refine howned.queue state.objects.made ?_ ?_
    · rw [halloc]
      exact mem_append_right _ mem_cons_self
    · rw [halloc]
      have hmem : state.objects.made ∈ state.objects.add.queue := mem_cons_self
      unfold extend
      dsimp only
      split
      · exact hmem
      · exact mem_queue_extendLoop hmem _
  | release message => exact absurd trivial h
  | microtask index => exact absurd trivial h

/-- Every object has one owner throughout a run if and only if no `allocate` of the run comes while
the queue is empty and returns. -/
theorem ownedThroughout_iff (configuration : MemoryObjectsConfiguration) (actions : List Action) :
    OwnedThroughout configuration actions ↔
      Along (step configuration) (Finds configuration) (State.new configuration) actions := by
  constructor
  · intro howned
    by_contra halong
    obtain ⟨front, action, back, state, rfl, -, hrun, hfinds⟩ := exists_of_not_along halong
    obtain ⟨next, hnext⟩ : ∃ next, step configuration state action = some next := by
      cases action with
      | allocate => exact ⟨_, rfl⟩
      | release message => exact absurd trivial hfinds
      | microtask index => exact absurd trivial hfinds
    have hsplit : front ++ action :: back = (front ++ [action]) ++ back := by simp
    exact not_owned_of_not_finds hfinds hnext
      (howned _ back next hsplit (run_concat hrun hnext))
  · rintro halong front back state rfl hrun
    have hplaced := run_induction (fun _ state => Placed state.objects state.held)
      (fun _ state action next h hfinds hstep => h.step hfinds hstep) placed_new
      (along_append halong) hrun
    exact hplaced.owned

/-- A pool without objects of its own. -/
def bare : MemoryObjectsConfiguration := ⟨8, 65536, 0, .finite 2, .finite (1 / 2)⟩

/-- The first object that it returns is in its queue. -/
theorem not_ownedThroughout_bare : ¬OwnedThroughout bare [.allocate] := by
  intro howned
  have hfinds : ¬Finds bare (State.new bare) .allocate := by
    have hmul : Double.natMul 1 (.finite 2) = .finite 2 :=
      Double.natMul_natCast (m := 1) (n := 2) (by norm_num) (by norm_num)
    rintro (hqueue | hthrows)
    · exact hqueue rfl
    · change (Double.natMul 1 (.finite 2)).ceil = none at hthrows
      rw [hmul] at hthrows
      cases hthrows
  exact not_owned_of_not_finds hfinds rfl (howned [.allocate] [] _ rfl rfl)

end MemoryObjects

end FengShui.Memory
