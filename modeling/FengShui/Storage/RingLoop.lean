import FengShui.Executor.Executor

/-!
# The loop of the storage ring (`storage/native/storage/executor.c`)

`storage_executor_start` runs in a fiber. When it is woken up it goes over the completions, runs the
method of each task, takes a submission entry for the answer, and submits all answers at the end.
The completions stay in their queue until then, and others come in while a method yields.
`answers_iff` says for which runs the entries are enough: the loop takes one for every task of a
batch, and does not look whether it is null.

`storage_executor_stop`, which ends the loop, is left out.
-/

namespace FengShui.Storage

open Executors Transition List

/-- `storage_executor` and its ring, with a submission queue of `entries` and a completion queue of
`capacity`. -/
structure StorageExecutor where
  descriptor : ℕ
  entries : ℕ
  capacity : ℕ
  /-- What is prepared and not submitted. -/
  submissions : List RingMessage
  /-- What was submitted so far. -/
  sent : List RingMessage
  /-- The completion queue: the tasks at `user_data`, where that is not null. -/
  completions : List (Option ExecutorTask)
  /-- In a batch: how many of its completions are dealt with. -/
  batch : Option ℕ
  /-- The task whose method is running. -/
  inside : Option ExecutorTask
  /-- The tasks whose methods ran so far. -/
  executed : List ExecutorTask
  /-- The completions by which the queue was advanced so far. -/
  processed : List (Option ExecutorTask)
  /-- How many completions there had been when the loop woke up last. -/
  noticed : ℕ
  deriving DecidableEq, Repr

namespace StorageExecutor

/-- `storage_executor_initialize`. -/
def create (descriptor entries capacity : ℕ) : StorageExecutor :=
  ⟨descriptor, entries, capacity, [], [], [], none, none, [], [], 0⟩

/-- `io_uring_submit`. -/
def submitRing (executor : StorageExecutor) : StorageExecutor :=
  { executor with submissions := [], sent := executor.sent ++ executor.submissions }

/-- `task->source = executor.descriptor`, `task->target = target` and `io_uring_prep_msg_ring`. -/
def answerTo (executor : StorageExecutor) (task : ExecutorTask) : RingMessage :=
  .callback { task with source := executor.descriptor, target := task.source }

inductive RingAction where
  /-- The kernel posts a completion. -/
  | arrive (completion : Option ExecutorTask)
  /-- `fiber_yield` returns, and the loop goes round. -/
  | wake
  /-- `io_uring_for_each_cqe` takes the next completion. -/
  | turn
  /-- `pointer(task)` returns. -/
  | answer
  /-- `io_uring_for_each_cqe` finds no further completion. -/
  | finish
  deriving DecidableEq, Repr

open RingAction

/-- A step. The answer of a task whose entry is null is undefined. -/
def step (executor : StorageExecutor) : RingAction → Option StorageExecutor
  | arrive completion =>
    if executor.completions.length < executor.capacity then
      some { executor with completions := executor.completions ++ [completion] }
    else none
  | wake =>
    if executor.batch = none then
      let executor := { executor.submitRing with
        noticed := executor.processed.length + executor.completions.length }
      some (if executor.completions = [] then executor else { executor with batch := some 0 })
    else none
  | turn =>
    match executor.batch, executor.inside with
    | some count, none =>
      match executor.completions[count]? with
      | some (some task) =>
        some { executor with inside := some task, executed := executor.executed ++ [task] }
      | some none => some { executor with batch := some (count + 1) }
      | none => none
    | _, _ => none
  | answer =>
    match executor.batch, executor.inside with
    | some count, some task =>
      if executor.submissions.length < executor.entries then
        some { executor with
          batch := some (count + 1)
          inside := none
          submissions := executor.submissions ++ [executor.answerTo task] }
      else none
    | _, _ => none
  | finish =>
    match executor.batch, executor.inside with
    | some count, none =>
      if executor.completions[count]? = none then
        some { executor.submitRing with
          batch := none
          completions := executor.completions.drop count
          processed := executor.processed ++ executor.completions.take count }
      else none
    | _, _ => none

/-- The steps that the loop does on its own. -/
def RingAction.isOwn : RingAction → Bool
  | turn | answer | finish => true
  | arrive _ | wake => false

/-- The tasks of completions. -/
def tasksOf (completions : List (Option ExecutorTask)) : List ExecutorTask :=
  completions.filterMap id

/-- The completions that are dealt with in the batch. -/
def taken (executor : StorageExecutor) : List (Option ExecutorTask) :=
  executor.completions.take (executor.batch.getD 0)

/-- The tasks that are executed are those of the completions, once each; the messages are their
answers, each with an entry; outside of a batch all are submitted, and nothing that had been there
is left; and a batch can be ended by the loop. -/
structure Answers (executor : StorageExecutor) : Prop where
  executed : executor.executed =
    tasksOf (executor.processed ++ executor.taken) ++ executor.inside.toList
  messages : executor.sent ++ executor.submissions =
    (tasksOf (executor.processed ++ executor.taken)).map executor.answerTo
  entry : executor.inside ≠ none → executor.submissions.length < executor.entries
  submitted : executor.batch = none → executor.submissions = []
  noticed : executor.batch = none → executor.noticed ≤ executor.processed.length
  ends : executor.batch ≠ none → ∃ actions, (∀ action ∈ actions, action.isOwn = true) ∧
    ∃ last, run step executor actions = some last ∧ last.batch = none

/-- No batch has more tasks than the submission queue has entries. -/
def Fits (executor : StorageExecutor) : RingAction → Prop
  | arrive completion => executor.batch ≠ none →
      (tasksOf (executor.completions ++ [completion])).length ≤ executor.entries
  | wake => (tasksOf executor.completions).length ≤ executor.entries
  | turn | answer | finish => True

instance : (executor : StorageExecutor) → (action : RingAction) → Decidable (Fits executor action)
  | _, arrive _ => inferInstanceAs (Decidable (_ → _))
  | _, wake => inferInstanceAs (Decidable (_ ≤ _))
  | _, turn | _, answer | _, finish => inferInstanceAs (Decidable True)

/-! ## The invariant -/

/-- What every step keeps. -/
structure Looping (executor : StorageExecutor) : Prop where
  executed : executor.executed =
    tasksOf (executor.processed ++ executor.taken) ++ executor.inside.toList
  messages : executor.sent ++ executor.submissions =
    (tasksOf (executor.processed ++ executor.taken)).map executor.answerTo
  submissions : executor.submissions.length = (tasksOf executor.taken).length
  count : ∀ count, executor.batch = some count → count ≤ executor.completions.length
  inside : ∀ task, executor.inside = some task →
    ∃ count, executor.batch = some count ∧ executor.completions[count]? = some (some task)
  noticed : executor.noticed ≤ executor.processed.length + executor.completions.length
  outside : executor.batch = none → executor.noticed ≤ executor.processed.length
  room : executor.submissions.length ≤ executor.entries

/-- The batch, if there is one, has entries for all of its tasks. -/
def Roomy (executor : StorageExecutor) : Prop :=
  executor.batch ≠ none → (tasksOf executor.completions).length ≤ executor.entries

variable {executor next : StorageExecutor}

@[simp]
theorem tasksOf_append (front back : List (Option ExecutorTask)) :
    tasksOf (front ++ back) = tasksOf front ++ tasksOf back := filterMap_append

theorem taken_of_outside (h : executor.batch = none) : executor.taken = [] := by
  rw [taken, h]
  rfl

variable {count : ℕ}

theorem taken_of_batch (h : executor.batch = some count) :
    executor.taken = executor.completions.take count := by
  rw [taken, h]
  rfl

theorem looping_create (descriptor entries capacity : ℕ) :
    Looping (create descriptor entries capacity) where
  executed := rfl
  messages := rfl
  submissions := rfl
  count := nofun
  inside := nofun
  noticed := le_rfl
  outside := fun _ => le_rfl
  room := Nat.zero_le _

/-! ## One step -/

theorem of_arrive {completion : Option ExecutorTask}
    (h : step executor (arrive completion) = some next) :
    next = { executor with completions := executor.completions ++ [completion] } := by
  change (if executor.completions.length < executor.capacity then _ else none) = some next at h
  split_ifs at h
  exact (Option.some.inj h).symm

theorem of_wake (h : step executor wake = some next) : executor.batch = none ∧
    next = { executor.submitRing with
      noticed := executor.processed.length + executor.completions.length
      batch := if executor.completions = [] then none else some 0 } := by
  unfold step at h
  by_cases hbatch : executor.batch = none
  · rw [if_pos hbatch] at h
    refine ⟨hbatch, (Option.some.inj h).symm.trans ?_⟩
    change (if executor.completions = [] then _ else _) = _
    by_cases hempty : executor.completions = []
    · rw [if_pos hempty, if_pos hempty, ← hbatch]
      rfl
    · rw [if_neg hempty, if_neg hempty]
  · rw [if_neg hbatch] at h
    cases h

theorem of_turn (h : step executor turn = some next) : ∃ count completion,
    executor.batch = some count ∧ executor.inside = none ∧
      executor.completions[count]? = some completion ∧
      next = match completion with
        | some task =>
          { executor with inside := some task, executed := executor.executed ++ [task] }
        | none => { executor with batch := some (count + 1) } := by
  unfold step at h
  cases hbatch : executor.batch with
  | none =>
    rw [hbatch] at h
    cases h
  | some count =>
    cases hinside : executor.inside with
    | some task =>
      rw [hbatch, hinside] at h
      cases h
    | none =>
      rw [hbatch, hinside] at h
      dsimp only at h
      cases hnext : executor.completions[count]? with
      | none =>
        rw [hnext] at h
        cases h
      | some completion =>
        rw [hnext] at h
        refine ⟨count, completion, rfl, rfl, hnext, ?_⟩
        cases completion with
        | some task => exact (Option.some.inj h).symm
        | none => exact (Option.some.inj h).symm

theorem of_answer (h : step executor answer = some next) : ∃ count task,
    executor.batch = some count ∧ executor.inside = some task ∧
      executor.submissions.length < executor.entries ∧
      next = { executor with
        batch := some (count + 1)
        inside := none
        submissions := executor.submissions ++ [executor.answerTo task] } := by
  unfold step at h
  cases hbatch : executor.batch with
  | none =>
    rw [hbatch] at h
    cases h
  | some count =>
    cases hinside : executor.inside with
    | none =>
      rw [hbatch, hinside] at h
      cases h
    | some task =>
      rw [hbatch, hinside] at h
      dsimp only at h
      split_ifs at h with hent
      exact ⟨count, task, rfl, rfl, hent, (Option.some.inj h).symm⟩

theorem of_finish (h : step executor finish = some next) : ∃ count,
    executor.batch = some count ∧ executor.inside = none ∧ executor.completions.length ≤ count ∧
      next = { executor.submitRing with
        batch := none
        completions := executor.completions.drop count
        processed := executor.processed ++ executor.completions.take count } := by
  unfold step at h
  cases hbatch : executor.batch with
  | none =>
    rw [hbatch] at h
    cases h
  | some count =>
    cases hinside : executor.inside with
    | some task =>
      rw [hbatch, hinside] at h
      cases h
    | none =>
      rw [hbatch, hinside] at h
      dsimp only at h
      split_ifs at h with hend
      exact ⟨count, rfl, rfl, List.getElem?_eq_none_iff.mp hend, (Option.some.inj h).symm⟩

namespace Looping

variable {completion : Option ExecutorTask}

/-- A completion goes behind those that are taken. -/
theorem arrive (h : Looping executor) (hstep : step executor (.arrive completion) = some next) :
    Looping next := by
  obtain rfl := of_arrive hstep
  have htaken : taken { executor with completions := executor.completions ++ [completion] } =
      executor.taken := by
    show (executor.completions ++ [completion]).take (executor.batch.getD 0) = _
    apply take_append_of_le_length
    cases hbatch : executor.batch with
    | none => exact Nat.zero_le _
    | some count => exact h.count count hbatch
  refine ⟨?_, ?_, ?_, fun count hcount => ?_, fun task htask => ?_, ?_, h.outside, h.room⟩
  · rw [htaken]
    exact h.executed
  · rw [htaken]
    exact h.messages
  · rw [htaken]
    exact h.submissions
  · have hle := h.count count hcount
    rw [length_append]
    omega
  · obtain ⟨count, hbatch, hnext⟩ := h.inside task htask
    refine ⟨count, hbatch, ?_⟩
    rw [getElem?_append_left (List.getElem?_eq_some_iff.mp hnext).1]
    exact hnext
  · have hnoticed := h.noticed
    dsimp only
    rw [length_append]
    omega

/-- Outside a batch nothing is taken and nothing prepared. -/
theorem submissions_eq_nil (h : Looping executor) (hbatch : executor.batch = none) :
    executor.submissions = [] := by
  apply length_eq_zero_iff.mp
  rw [h.submissions, taken_of_outside hbatch]
  rfl

theorem inside_eq_none (h : Looping executor) (hbatch : executor.batch = none) :
    executor.inside = none := by
  cases hinside : executor.inside with
  | none => rfl
  | some task =>
    obtain ⟨count, hcount, -⟩ := h.inside task hinside
    cases hbatch.symm.trans hcount

theorem wake (h : Looping executor) (hstep : step executor .wake = some next) : Looping next := by
  obtain ⟨hbatch, rfl⟩ := of_wake hstep
  have hnone := h.submissions_eq_nil hbatch
  have hinside := h.inside_eq_none hbatch
  have htaken (batch : Option ℕ) (hzero : batch.getD 0 = 0) : taken { executor.submitRing with
      noticed := executor.processed.length + executor.completions.length, batch := batch } =
          [] := by
    show executor.completions.take (batch.getD 0) = []
    rw [hzero, take_zero]
  have hzero : (if executor.completions = [] then none else some 0 : Option ℕ).getD 0 = 0 := by
    split_ifs <;> rfl
  have hexec := h.executed
  have hmsgs := h.messages
  rw [taken_of_outside hbatch, append_nil] at hexec hmsgs
  refine ⟨?_, ?_, ?_, fun count hcount => ?_, fun task htask => ?_, le_rfl, fun hout => ?_,
    Nat.zero_le _⟩
  · rw [htaken _ hzero, append_nil]
    exact hexec
  · rw [htaken _ hzero, append_nil]
    show (executor.sent ++ executor.submissions) ++ [] = _
    rw [append_nil]
    exact hmsgs
  · rw [htaken _ hzero]
    rfl
  · dsimp only at hcount
    split_ifs at hcount
    cases hcount
    exact Nat.zero_le _
  · cases hinside.symm.trans htask
  · dsimp only at hout
    split_ifs at hout with hempty
    show executor.processed.length + executor.completions.length ≤ executor.processed.length
    rw [hempty]
    exact le_rfl

/-- The completions that are taken, with one more. -/
theorem take_succ {count : ℕ} (hnext : executor.completions[count]? = some completion) :
    executor.completions.take (count + 1) = executor.completions.take count ++ [completion] := by
  rw [take_add_one, hnext]
  rfl

theorem turn (h : Looping executor) (hstep : step executor .turn = some next) : Looping next := by
  obtain ⟨count, completion, hbatch, hinside, hnext, rfl⟩ := of_turn hstep
  have hlt : count < executor.completions.length := (List.getElem?_eq_some_iff.mp hnext).1
  have hexec := h.executed
  have hmsgs := h.messages
  have hsubs := h.submissions
  rw [hinside, Option.toList_none, append_nil] at hexec
  cases completion with
  | some task =>
    refine ⟨?_, hmsgs, hsubs, h.count, fun other hother => ?_, h.noticed, h.outside, h.room⟩
    · show executor.executed ++ [task] = tasksOf (executor.processed ++ executor.taken) ++ [task]
      rw [hexec]
    · obtain rfl : task = other := Option.some.inj hother
      exact ⟨count, hbatch, hnext⟩
  | none =>
    -- No task is taken.
    have htaken : taken { executor with batch := some (count + 1) } = executor.taken ++ [none] := by
      rw [taken_of_batch hbatch]
      exact take_succ hnext
    have hnone : tasksOf [none] = [] := rfl
    refine ⟨?_, ?_, ?_, fun other hother => ?_, fun task htask => ?_,
      h.noticed, fun hout => ?_, h.room⟩
    · rw [htaken, ← append_assoc, tasksOf_append, hnone, append_nil]
      show executor.executed = _ ++ executor.inside.toList
      rw [hinside, Option.toList_none, append_nil]
      exact hexec
    · rw [htaken, ← append_assoc, tasksOf_append, hnone, append_nil]
      exact hmsgs
    · rw [htaken, tasksOf_append, hnone, append_nil]
      exact hsubs
    · obtain rfl : count + 1 = other := Option.some.inj hother
      exact hlt
    · cases hinside.symm.trans htask
    · cases hout

theorem answer (h : Looping executor) (hstep : step executor .answer = some next) :
    Looping next := by
  obtain ⟨count, task, hbatch, hinside, hent, rfl⟩ := of_answer hstep
  obtain ⟨position, hpos, hnext⟩ := h.inside task hinside
  obtain rfl : count = position := Option.some.inj (hbatch.symm.trans hpos)
  have hexec := h.executed
  rw [hinside] at hexec
  have htaken : taken { executor with
      batch := some (count + 1)
      inside := none
      submissions := executor.submissions ++ [executor.answerTo task] } =
          executor.taken ++ [some task] := by
    rw [taken_of_batch hbatch]
    exact take_succ hnext
  have hone : tasksOf [some task] = [task] := rfl
  refine ⟨?_, ?_, ?_, fun other hother => ?_, fun other hother => ?_, h.noticed, fun hout => ?_, ?_⟩
  · rw [htaken, ← append_assoc, tasksOf_append, hone]
    show executor.executed = _ ++ []
    rw [append_nil]
    exact hexec
  · rw [htaken, ← append_assoc _ executor.taken, tasksOf_append, hone, map_append,
      map_singleton]
    show executor.sent ++ (executor.submissions ++ [executor.answerTo task]) =
      _ ++ [executor.answerTo task]
    rw [← append_assoc, h.messages]
    rfl
  · rw [htaken, tasksOf_append, hone, length_append, length_append, h.submissions]
    rfl
  · obtain rfl : count + 1 = other := Option.some.inj hother
    exact (List.getElem?_eq_some_iff.mp hnext).1
  · cases hother
  · cases hout
  · rw [length_append, length_singleton]
    exact hent

theorem finish (h : Looping executor) (hstep : step executor .finish = some next) :
    Looping next := by
  obtain ⟨count, hbatch, hinside, hend, rfl⟩ := of_finish hstep
  have hexec := h.executed
  have hmsgs := h.messages
  rw [taken_of_batch hbatch] at hexec hmsgs
  have hout (executor' : StorageExecutor) (hnone : executor'.batch = none) :
      executor'.processed ++ executor'.taken = executor'.processed := by
    rw [taken_of_outside hnone, append_nil]
  have hnoticed :
      executor.noticed ≤ (executor.processed ++ executor.completions.take count).length := by
    have hle := h.noticed
    rw [length_append, take_of_length_le hend]
    exact hle
  refine ⟨?_, ?_, ?_, fun other hother => ?_, fun task htask => ?_, ?_, fun _ => hnoticed,
    Nat.zero_le _⟩
  · rw [hout _ rfl]
    exact hexec
  · rw [hout _ rfl]
    show (executor.sent ++ executor.submissions) ++ [] = _
    rw [append_nil]
    exact hmsgs
  · rw [taken_of_outside rfl]
    rfl
  · cases hother
  · cases hinside.symm.trans htask
  · exact hnoticed.trans (Nat.le_add_right _ _)

theorem step (h : Looping executor) {action : RingAction}
    (hstep : executor.step action = some next) : Looping next := by
  cases action with
  | arrive completion => exact h.arrive hstep
  | wake => exact h.wake hstep
  | turn => exact h.turn hstep
  | answer => exact h.answer hstep
  | finish => exact h.finish hstep

end Looping

/-! ## The entries of a batch -/

theorem tasks_take_lt {task : ExecutorTask}
    (hnext : executor.completions[count]? = some (some task)) :
    (tasksOf (executor.completions.take count)).length < (tasksOf executor.completions).length := by
  have hone : tasksOf [some task] = [task] := rfl
  calc (tasksOf (executor.completions.take count)).length
      < (tasksOf (executor.completions.take (count + 1))).length := by
        rw [Looping.take_succ hnext, tasksOf_append, hone, length_append, length_singleton]
        exact Nat.lt_succ_self _
    _ ≤ (tasksOf (executor.completions.take (count + 1)) ++
          tasksOf (executor.completions.drop (count + 1))).length := by
        rw [length_append]
        exact Nat.le_add_right _ _
    _ = (tasksOf executor.completions).length := by
        rw [← tasksOf_append, take_append_drop]

/-- In a batch that fits there is an entry for the task whose method is running. -/
theorem Looping.entry (h : Looping executor) (hroomy : Roomy executor)
    (hinside : executor.inside ≠ none) : executor.submissions.length < executor.entries := by
  obtain ⟨task, htask⟩ := Option.ne_none_iff_exists'.mp hinside
  obtain ⟨count, hbatch, hnext⟩ := h.inside task htask
  have hfits : (tasksOf executor.completions).length ≤ executor.entries :=
    hroomy (by rw [hbatch]; exact Option.some_ne_none count)
  calc executor.submissions.length = (tasksOf executor.taken).length := h.submissions
    _ = (tasksOf (executor.completions.take count)).length := by rw [taken_of_batch hbatch]
    _ < (tasksOf executor.completions).length := tasks_take_lt hnext
    _ ≤ executor.entries := hfits

theorem Roomy.step (hroomy : Roomy executor) {action : RingAction}
    (hfits : Fits executor action) (hstep : executor.step action = some next) : Roomy next := by
  intro hbatch
  cases action with
  | arrive completion =>
    obtain rfl := of_arrive hstep
    exact hfits hbatch
  | wake =>
    obtain ⟨-, rfl⟩ := of_wake hstep
    exact hfits
  | turn =>
    obtain ⟨count, completion, hcount, -, -, rfl⟩ := of_turn hstep
    have hbefore := hroomy (by rw [hcount]; exact Option.some_ne_none count)
    cases completion with
    | some task => exact hbefore
    | none => exact hbefore
  | answer =>
    obtain ⟨count, task, hcount, -, -, rfl⟩ := of_answer hstep
    exact hroomy (by rw [hcount]; exact Option.some_ne_none count)
  | finish =>
    obtain ⟨count, -, -, -, rfl⟩ := of_finish hstep
    exact absurd rfl hbatch

/-- How many steps are left in a batch, at the most. -/
def left (executor : StorageExecutor) (count : ℕ) : ℕ :=
  2 * (executor.completions.length - count) + if executor.inside = none then 1 else 0

/-- The loop goes on in a batch that fits. -/
theorem Looping.exists_own_step (h : Looping executor) (hroomy : Roomy executor)
    (hbatch : executor.batch = some count) : ∃ action next, action.isOwn = true ∧
      executor.step action = some next ∧
      (next.batch = none ∨ ∃ count', next.batch = some count' ∧
        next.left count' < executor.left count) := by
  cases hinside : executor.inside with
  | some task =>
    obtain ⟨position, hpos, hnext⟩ := h.inside task hinside
    obtain rfl : count = position := Option.some.inj (hbatch.symm.trans hpos)
    have hent := h.entry hroomy (by rw [hinside]; exact Option.some_ne_none task)
    have hlt : count < executor.completions.length := (List.getElem?_eq_some_iff.mp hnext).1
    have hstep : executor.step .answer = some { executor with
        batch := some (count + 1)
        inside := none
        submissions := executor.submissions ++ [executor.answerTo task] } := by
      unfold StorageExecutor.step
      rw [hbatch, hinside]
      exact if_pos hent
    refine ⟨.answer, _, rfl, hstep, .inr ⟨count + 1, rfl, ?_⟩⟩
    show 2 * (executor.completions.length - (count + 1)) + 1 <
      2 * (executor.completions.length - count) + if executor.inside = none then 1 else 0
    rw [hinside, if_neg (Option.some_ne_none task)]
    omega
  | none =>
    cases hnext : executor.completions[count]? with
    | none =>
      have hstep : executor.step .finish = some { executor.submitRing with
          batch := none
          completions := executor.completions.drop count
          processed := executor.processed ++ executor.completions.take count } := by
        unfold StorageExecutor.step
        rw [hbatch, hinside]
        exact if_pos hnext
      exact ⟨.finish, _, rfl, hstep, .inl rfl⟩
    | some completion =>
      have hlt : count < executor.completions.length := (List.getElem?_eq_some_iff.mp hnext).1
      cases completion with
      | some task =>
        have hstep : executor.step .turn = some { executor with
            inside := some task, executed := executor.executed ++ [task] } := by
          unfold StorageExecutor.step
          rw [hbatch, hinside]
          dsimp only
          rw [hnext]
        refine ⟨.turn, _, rfl, hstep, .inr ⟨count, hbatch, ?_⟩⟩
        show 2 * (executor.completions.length - count) + 0 <
          2 * (executor.completions.length - count) + if executor.inside = none then 1 else 0
        rw [hinside, if_pos rfl]
        omega
      | none =>
        have hstep : executor.step .turn = some { executor with batch := some (count + 1) } := by
          unfold StorageExecutor.step
          rw [hbatch, hinside]
          dsimp only
          rw [hnext]
        refine ⟨.turn, _, rfl, hstep, .inr ⟨count + 1, rfl, ?_⟩⟩
        unfold left
        dsimp only
        rw [hinside, if_pos rfl]
        omega

/-- A batch that fits is ended by the loop. -/
theorem Looping.exists_end (h : Looping executor) (hroomy : Roomy executor)
    (hbatch : executor.batch ≠ none) :
    ∃ actions, (∀ action ∈ actions, action.isOwn = true) ∧
      ∃ last, run StorageExecutor.step executor actions = some last ∧ last.batch = none := by
  obtain ⟨count, hcount⟩ := Option.ne_none_iff_exists'.mp hbatch
  induction hleft :
    executor.left count using Nat.strong_induction_on generalizing executor count with
  | _ steps ih =>
    obtain ⟨action, next, hown, hstep, hcases⟩ := h.exists_own_step hroomy hcount
    have hfits : Fits executor action := by
      cases action with
      | arrive completion => cases hown
      | wake => cases hown
      | turn | answer | finish => trivial
    rcases hcases with hdone | ⟨count', hcount', hlt⟩
    · refine ⟨[action], forall_mem_singleton.mpr hown, next, ?_, hdone⟩
      rw [run_cons, hstep]
      rfl
    · have hnext : next.batch ≠ none := by rw [hcount']; exact Option.some_ne_none count'
      obtain ⟨actions, howns, last, hrun, hlast⟩ :=
        ih _ (hleft ▸ hlt) (h.step hstep) (hroomy.step hfits hstep) hnext count' hcount' rfl
      exact ⟨action :: actions, forall_mem_cons.mpr ⟨hown, howns⟩, last,
        run_cons_eq_some.mpr ⟨next, hstep, hrun⟩, hlast⟩

/-- A batch that is ended had an entry for each of its tasks. -/
theorem Looping.tasks_le (h : Looping executor) (hbatch : executor.batch ≠ none)
    {actions : List RingAction} (hown : ∀ action ∈ actions, action.isOwn = true)
    {last : StorageExecutor} (hrun : run StorageExecutor.step executor actions = some last)
    (hlast : last.batch = none) : (tasksOf executor.completions).length ≤ executor.entries := by
  induction actions generalizing executor with
  | nil =>
    obtain rfl : executor = last := Option.some.inj hrun
    exact absurd hlast hbatch
  | cons action actions ih =>
    obtain ⟨next, hstep, hrest⟩ := run_cons_eq_some.mp hrun
    obtain ⟨hfirst, howns⟩ := forall_mem_cons.mp hown
    have hnext := h.step hstep
    cases action with
    | arrive completion => cases hfirst
    | wake => cases hfirst
    | turn =>
      obtain ⟨count, completion, hcount, -, -, rfl⟩ := of_turn hstep
      cases completion with
      | some task =>
        have hle := ih hnext hbatch howns hrest
        exact hle
      | none =>
        have hle := ih hnext (Option.some_ne_none _) howns hrest
        exact hle
    | answer =>
      obtain ⟨count, task, -, -, -, rfl⟩ := of_answer hstep
      have hle := ih hnext (Option.some_ne_none _) howns hrest
      exact hle
    | finish =>
      -- All completions are taken, with an entry for each task.
      obtain ⟨count, hcount, -, hend, -⟩ := of_finish hstep
      calc (tasksOf executor.completions).length
          = (tasksOf (executor.completions.take count)).length := by rw [take_of_length_le hend]
        _ = executor.submissions.length := by rw [h.submissions, taken_of_batch hcount]
        _ ≤ executor.entries := h.room

/-! ## Runs -/

theorem Looping.answers (h : Looping executor) (hroomy : Roomy executor) : Answers executor where
  executed := h.executed
  messages := h.messages
  entry := h.entry hroomy
  submitted := h.submissions_eq_nil
  noticed := h.outside
  ends := h.exists_end hroomy

/-- A batch with too many tasks is not ended. -/
theorem Looping.not_answers (h : Looping executor) {action : RingAction}
    (hfits : ¬Fits executor action) (hstep : executor.step action = some next) : ¬Answers next := by
  intro hanswers
  have hnext := h.step hstep
  have hle (hbatch : next.batch ≠ none) : (tasksOf next.completions).length ≤ next.entries := by
    obtain ⟨actions, hown, last, hrun, hlast⟩ := hanswers.ends hbatch
    exact hnext.tasks_le hbatch hown hrun hlast
  cases action with
  | arrive completion =>
    obtain rfl := of_arrive hstep
    exact hfits hle
  | wake =>
    obtain ⟨-, rfl⟩ := of_wake hstep
    have hmany : ¬(tasksOf executor.completions).length ≤ executor.entries := hfits
    have hsome : executor.completions ≠ [] := by
      intro hempty
      rw [hempty] at hmany
      exact hmany (Nat.zero_le _)
    refine hmany (hle ?_)
    show (if executor.completions = [] then none else some 0 : Option ℕ) ≠ none
    rw [if_neg hsome]
    exact Option.some_ne_none 0
  | turn => exact hfits trivial
  | answer => exact hfits trivial
  | finish => exact hfits trivial

/-- Along a run of the loop every task is answered if and only if no batch has more tasks than the
submission queue has entries. -/
theorem answers_iff (descriptor entries capacity : ℕ) (actions : List RingAction)
    (last : StorageExecutor)
    (hrun : run step (create descriptor entries capacity) actions = some last) :
    Throughout step Answers (create descriptor entries capacity) actions ↔
      Along step Fits (create descriptor entries capacity) actions := by
  refine throughout_iff (fun executor => Looping executor ∧ Roomy executor)
    (fun executor h => h.1.answers h.2) (fun executor action next h hfits hstep => ?_)
    (fun executor action next h hfits hstep => ?_)
    ⟨looping_create descriptor entries capacity, fun hbatch => absurd rfl hbatch⟩ hrun
  · exact ⟨h.1.step hstep, h.2.step hfits hstep⟩
  · exact h.1.not_answers hfits hstep

/-- A task, which asks for the answer at the ring 5. -/
def asked (id : ℕ) : ExecutorTask := ⟨id, 5, 7, 0, 0, false⟩

/-- Two tasks, one batch after the other. -/
theorem answers_of_two : Throughout step Answers (create 7 1 2)
    [arrive (some (asked 1)), wake, turn, answer, finish, arrive (some (asked 2)), wake, turn,
      answer, finish] :=
  (answers_iff 7 1 2 _ _ rfl).mpr (by decide)

/-- The ring of one entry, with two tasks in its completion queue. -/
def twoAsked : StorageExecutor :=
  { create 7 1 2 with completions := [some (asked 1), some (asked 2)] }

/-- Two tasks that are there when the loop wakes up, and a ring with one entry: the second answer
has none. -/
theorem two_tasks_one_entry : ¬∀ descriptor entries capacity actions last, entries < capacity →
    run step (create descriptor entries capacity) actions = some last →
      Throughout step Answers (create descriptor entries capacity) actions := by
  intro h
  have hfirst : (create 7 1 2).step (arrive (some (asked 1))) =
      some { create 7 1 2 with completions := [some (asked 1)] } := rfl
  have hsecond :
    step { create 7 1 2 with completions := [some (asked 1)] } (arrive (some (asked 2))) =
      some twoAsked := rfl
  have hlooping : Looping twoAsked := ((looping_create 7 1 2).step hfirst).step hsecond
  have hwake : twoAsked.step wake = some { twoAsked with noticed := 2, batch := some 0 } := rfl
  have hfits : ¬Fits twoAsked wake := by decide
  apply hlooping.not_answers hfits hwake
  exact h 7 1 2 [arrive (some (asked 1)), arrive (some (asked 2)), wake] _ (by decide) rfl
    [arrive (some (asked 1)), arrive (some (asked 2)), wake] [] _ rfl rfl

end StorageExecutor

end FengShui.Storage
