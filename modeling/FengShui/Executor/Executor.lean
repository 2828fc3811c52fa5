import FengShui.Core.DartMap
import FengShui.Lib.Transition

/-!
# Executors (`executor/executor.c`, `executor/executor.dart`, `executor/broker.dart`)

An executor is a ring with a state word, the Dart object on top of it, and the consumers and
producers of its broker. A wakeup is one uninterrupted piece of code, `_awake`, but the callbacks of
the application run in its middle: it is `awake`, a `turn` for each completion, the calls of the
application inside a callback, and `finish`. Between wakeups futures end, the application calls, and
other threads post completions, which they do at any time.

`_registry`, ports and the memory of an executor are left out: no step happens once it is destroyed.
-/

namespace FengShui.Executors

/-- `executor->state`, of which one bit is set at any time. -/
inductive ExecutorState where
  | paused
  | idle
  | waking
  | stopping
  | stopped
  deriving DecidableEq, Repr

/-- `executor_task`, without what the application puts in and takes out. -/
structure ExecutorTask where
  id : ℕ
  source : ℕ
  target : ℕ
  owner : ℕ
  method : ℕ
  /-- `flags & executorTaskOutputEvent`. -/
  outputEvent : Bool
  deriving DecidableEq, Repr

/-- A completion: the task at `user_data`, where that is positive, and `res`. -/
structure Completion where
  task : Option ExecutorTask
  result : ℤ
  deriving DecidableEq, Repr

/-- `result & executorCall != 0`. -/
def Completion.isCall (completion : Completion) : Bool := completion.result % 2 ≠ 0

/-- `result & executorCallback != 0`. -/
def Completion.isCallback (completion : Completion) : Bool := completion.result / 2 % 2 ≠ 0

/-- What `io_uring_prep_msg_ring` sends: to the scheduler, or to the target of a task. -/
inductive RingMessage where
  | register
  | poll
  | unregister
  | call (task : ExecutorTask)
  | callback (task : ExecutorTask)
  deriving DecidableEq, Repr

/-- What a function that may throw does. -/
inductive Outcome where
  | returns
  | throws
  deriving DecidableEq, Repr

/-! ## The native side -/

/-- What `io_uring_queue_init` makes of a number of entries: the next power of two. -/
def ringEntries (ringSize : ℕ) : ℕ :=
  ((List.range ringSize).find? fun power => ringSize ≤ 2 ^ power).elim 0 (2 ^ ·)

structure ExecutorInstance where
  descriptor : ℕ
  ringSize : ℕ
  /-- The submission queue has so many entries. -/
  entries : ℕ
  state : ExecutorState
  /-- What is prepared and not submitted. -/
  submissions : List RingMessage
  /-- What was submitted so far. -/
  sent : List RingMessage
  /-- The completion queue. -/
  completions : List Completion
  /-- By how much the completion queue was advanced so far. -/
  advanced : ℕ
  deriving DecidableEq, Repr

namespace ExecutorInstance

/-- `executor_create`. -/
def create (descriptor ringSize : ℕ) : ExecutorInstance :=
  ⟨descriptor, ringSize, ringEntries ringSize, .paused, [], [], [], 0⟩

/-- `io_uring_get_sqe`, which may be null, and `io_uring_prep_msg_ring`. -/
def prepare (message : RingMessage) (executor : ExecutorInstance) : Option ExecutorInstance :=
  if executor.submissions.length < executor.entries then
    some { executor with submissions := executor.submissions ++ [message] }
  else none

/-- `io_uring_submit`. -/
def submitRing (executor : ExecutorInstance) : ExecutorInstance :=
  { executor with submissions := [], sent := executor.sent ++ executor.submissions }

/-- `executor_submit`. -/
def submit (executor : ExecutorInstance) : ExecutorInstance :=
  if executor.state = .idle then executor.submitRing else executor

/-- `executor_register_on_scheduler`. -/
def registerOnScheduler (executor : ExecutorInstance) : Outcome × ExecutorInstance :=
  let executor := { executor with state := .idle }
  match executor.prepare .register with
  | none => (.throws, executor)
  | some executor => (.returns, executor.submitRing)

/-- `executor_unregister_from_scheduler`. -/
def unregisterFromScheduler (stop : Bool) (executor : ExecutorInstance) :
    Outcome × ExecutorInstance :=
  let executor := { executor with state := if stop then .stopped else .paused }
  match executor.prepare .unregister with
  | none => (.throws, executor)
  | some executor => (.returns, executor.submitRing)

/-- `executor_awake_begin`. -/
def awakeBegin (executor : ExecutorInstance) : Outcome × ExecutorInstance :=
  let executor := { executor with state := .waking }
  match executor.prepare .poll with
  | none => (.throws, executor)
  | some executor => (.returns, executor)

/-- `executor_peek`. -/
def peek (executor : ExecutorInstance) : ℕ × ExecutorInstance :=
  (min executor.completions.length executor.ringSize, executor.submitRing)

/-- `executor_awake_complete`. -/
def awakeComplete (completions : ℕ) (executor : ExecutorInstance) : ExecutorInstance :=
  let executor := { executor with
    completions := executor.completions.drop completions
    advanced := executor.advanced + completions }
  { executor.submitRing with state := .idle }

/-- `executor_call_native`. -/
def callNative (target : ℕ) (task : ExecutorTask) (executor : ExecutorInstance) :
    Outcome × ExecutorInstance :=
  match executor.prepare (.call { task with source := executor.descriptor, target := target }) with
  | none => (.throws, executor)
  | some executor => (.returns, executor.submit)

/-- `executor_callback_to_native`. -/
def callbackToNative (task : ExecutorTask) (executor : ExecutorInstance) :
    Outcome × ExecutorInstance :=
  match executor.prepare
    (.callback { task with source := executor.descriptor, target := task.source }) with
  | none => (.throws, executor)
  | some executor => (.returns, executor.submit)

end ExecutorInstance

/-! ## The broker -/

/-- The completer of a call. -/
inductive CallState where
  | waiting
  | completed
  | failed
  deriving DecidableEq, Repr

/-- The consumers with the `_pending` of each callback, the number of producers, and the `_calls` of
all methods, by producer, method and task. -/
structure ExecutorBroker where
  consumers : List (List ℕ)
  producers : ℕ
  calls : DartMap (ℕ × ℕ × ℕ) CallState

namespace ExecutorBroker

/-- `_producers.pending + _consumers.pending`. -/
def pending (broker : ExecutorBroker) : ℕ :=
  broker.calls.entries.length + broker.consumers.flatten.sum

/-- A change of the `_pending` of a callback. -/
def updatePending (owner method : ℕ) (update : ℕ → ℕ) (broker : ExecutorBroker) : ExecutorBroker :=
  { broker with consumers := broker.consumers.modify owner fun callbacks =>
      callbacks.modify method update }

/-- `_consumers[owner]` and `_callbacks[method]` are there. -/
def isConsumer (task : ExecutorTask) (broker : ExecutorBroker) : Bool :=
  (broker.consumers[task.owner]?.bind fun callbacks => callbacks[task.method]?).isSome

/-- `ExecutorProducerRegistry.callback`. -/
def callback (task : ExecutorTask) (broker : ExecutorBroker) : Outcome × ExecutorBroker :=
  if broker.producers ≤ task.owner then (.throws, broker)
  else
    let key := (task.owner, task.method, task.id)
    match broker.calls.get? key with
    | none => (.returns, broker)
    | some .waiting =>
      let state := if task.outputEvent then .failed else .completed
      (.returns, { broker with calls := broker.calls.set key state })
    -- The completer is already completed.
    | some _ => (.throws, broker)

end ExecutorBroker

/-! ## The executor -/

/-- A batch of completions in `_process`: how many turns are over, how many there are, and the task
of the next one, if its callback runs. -/
structure Batch where
  index : ℕ
  count : ℕ
  inside : Option ExecutorTask
  deriving DecidableEq, Repr

structure Executor where
  native : ExecutorInstance
  broker : ExecutorBroker
  /-- `_stopper.isCompleted`. -/
  stopped : Bool
  /-- The calls of `shutdown` that wait for `_stopper`. -/
  waiting : ℕ
  destroyed : Bool
  batch : Option Batch
  /-- The tasks of the callbacks whose future has not ended. -/
  futures : List ExecutorTask
  /-- `shutdown` was called. -/
  stopping : Bool
  /-- The completions that were dispatched so far, by their place in the whole completion queue. -/
  dispatched : List ℕ

/-- What the application calls. -/
inductive UserCall where
  | shutdown
  | activate
  | deactivate
  /-- `ExecutorMethodImplementation.call`. -/
  | call (owner method target address : ℕ)
  deriving DecidableEq, Repr

inductive Action where
  /-- Another thread posts a completion. -/
  | post (completion : Completion)
  /-- The message of the scheduler arrives: `_awake` up to the first turn. -/
  | awake
  /-- A turn of `_process`, up to the callback of the application if there is one. -/
  | turn
  /-- The callback of the application returns, with a value or a future, or throws. -/
  | leave (outcome : Outcome)
  /-- `_awake` behind the last turn. -/
  | finish
  | user (call : UserCall)
  /-- The future of a callback ends. -/
  | settle (index : ℕ) (succeeded : Bool)
  /-- `_onComplete`. -/
  | complete (owner method id : ℕ)
  /-- `shutdown` goes on behind `_stopper`. -/
  | proceed
  deriving DecidableEq, Repr

namespace Executor

/-- A new executor with a broker of callbacks and producers. -/
def create (native : ExecutorInstance) (callbacks : List ℕ) (producers : ℕ) : Executor where
  native := native
  broker := ⟨callbacks.map fun count => List.replicate count 0, producers, .empty⟩
  stopped := false
  waiting := 0
  destroyed := false
  batch := none
  futures := []
  stopping := false
  dispatched := []

def pending (executor : Executor) : ℕ := executor.broker.pending

/-- `shutdown`, up to its `await`. -/
def shutdown (executor : Executor) : Executor :=
  let executor := { executor with
    native := { executor.native with state := .stopping }
    stopping := true }
  if executor.pending ≠ 0 then { executor with waiting := executor.waiting + 1 }
  else { executor with destroyed := true }

def userCall (executor : Executor) : UserCall → Executor
  | .shutdown => executor.shutdown
  | .activate => { executor with native := executor.native.registerOnScheduler.2 }
  | .deactivate => { executor with native := (executor.native.unregisterFromScheduler false).2 }
  | .call owner method target address =>
    match executor.native.callNative target ⟨address, 0, 0, owner, method, false⟩ with
    | (.throws, native) => { executor with native := native }
    | (.returns, native) => { executor with
        native := native
        broker := { executor.broker with
          calls := executor.broker.calls.set (owner, method, address) .waiting } }

/-- `_awake`, up to the first turn. -/
def awake (executor : Executor) : Executor :=
  match executor.native.state with
  | .stopped => { executor with stopped := true }
  | .paused => executor
  | .idle | .waking | .stopping =>
    match executor.native.awakeBegin with
    | (.throws, native) => { executor with native := native }
    | (.returns, native) =>
      let (count, native) := native.peek
      if count = 0 then { executor with native := native.awakeComplete count }
      else { executor with native := native, batch := some ⟨0, count, none⟩ }

/-- The body of the loop of `_process`, up to the callback of the application. -/
def turn (batch : Batch) (completion : Completion) (executor : Executor) : Executor :=
  let executor := { executor with
    dispatched := executor.dispatched ++ [executor.native.advanced + batch.index] }
  let next := { executor with batch := some { batch with index := batch.index + 1 } }
  match completion.task with
  | none => next
  | some task =>
    if completion.isCall then
      if executor.broker.isConsumer task then
        { executor with
          broker := executor.broker.updatePending task.owner task.method (· + 1)
          batch := some { batch with inside := some task } }
      else { executor with batch := none }
    else if completion.isCallback then
      match executor.broker.callback task with
      | (.throws, broker) => { executor with broker := broker, batch := none }
      | (.returns, broker) => { next with broker := broker }
    else next

/-- `_awake`, behind the last turn. -/
def finish (count : ℕ) (executor : Executor) : Executor :=
  let executor := { executor with native := executor.native.awakeComplete count, batch := none }
  if executor.native.state = .stopping && executor.pending = 0 then
    { executor with native := (executor.native.unregisterFromScheduler true).2 }
  else executor

/-- The end of the future of a callback: `_respond` if it succeeded, and `--_pending`. -/
def settle (task : ExecutorTask) (succeeded : Bool) (executor : Executor) : Executor :=
  { executor with
    native := if succeeded then (executor.native.callbackToNative task).2 else executor.native
    broker := executor.broker.updatePending task.owner task.method (· - 1) }

/-- The application runs: between wakeups, or inside a callback. -/
def isOutside (executor : Executor) : Bool :=
  match executor.batch with
  | none => true
  | some batch => batch.inside.isSome

/-- One action, `none` when it cannot happen. -/
def step (executor : Executor) (action : Action) : Option Executor :=
  if executor.destroyed then none
  else
    match action, executor.batch with
    | .post completion, _ =>
      some { executor with native := { executor.native with
        completions := executor.native.completions ++ [completion] } }
    | .awake, none => some executor.awake
    | .turn, some ⟨index, count, none⟩ =>
      if index < count then
        executor.native.completions[index]?.map fun completion =>
          executor.turn ⟨index, count, none⟩ completion
      else none
    -- The code of the application comes back, with a future, or throws into the loop.
    | .leave .returns, some ⟨index, count, some task⟩ =>
      some { executor with
        batch := some ⟨index + 1, count, none⟩
        futures := executor.futures ++ [task] }
    | .leave .throws, some ⟨_, _, some _⟩ => some { executor with batch := none }
    | .finish, some ⟨index, count, none⟩ =>
      if index = count then some (executor.finish count) else none
    -- The application runs between wakeups or inside a callback, not between the turns.
    | .user call, _ => if executor.isOutside then some (executor.userCall call) else none
    | .settle index succeeded, none =>
      executor.futures[index]?.map fun task =>
        settle task succeeded { executor with futures := executor.futures.eraseIdx index }
    | .complete owner method id, none =>
      if executor.broker.calls.get? (owner, method, id) = some .completed then
        some { executor with broker := { executor.broker with
          calls := executor.broker.calls.remove (owner, method, id) } }
      else none
    | .proceed, none =>
      if executor.stopped && 0 < executor.waiting then some { executor with destroyed := true }
      else none
    | _, _ => none

end Executor

end FengShui.Executors
