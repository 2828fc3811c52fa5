import FengShui.Executor.Executor
import Mathlib.Logic.Function.Basic

/-!
# The scheduler (`executor/scheduler.c`)

The scheduler has a ring of its own and a thread that listens to it: it arms a poll on the ring of
every executor that registers, posts to the isolate of the executor when the poll completes, and
arms the next one for the message that the executor sends with its next wakeup. Here it runs with
any number of executors: the messages of each one come to its ring one behind the other, the posts
to the isolates in any order. Its shutdown, which the module calls behind those of the executors, is
left out.

The application sees a wakeup as one piece; other threads see the executor behind
`executor_awake_begin` as well, of which the message is not submitted before `executor_peek`. What
executors send to each other comes in as posts of other threads.
-/

namespace FengShui.Executors

/-- `io_uring_prep_poll_add` and `io_uring_prep_poll_remove`, by the executor. -/
inductive PollRequest where
  | add (index : ℕ)
  | remove (index : ℕ)
  deriving DecidableEq, Repr

/-- A completion of the ring of the scheduler: what its `res` is, by the executor. -/
inductive SchedulerCompletion where
  | register (index : ℕ)
  | poll (index : ℕ)
  | unregister (index : ℕ)
  /-- `POLLIN`. -/
  | pollin (index : ℕ)
  /-- A negative `res`. -/
  | failed
  deriving DecidableEq, Repr

structure Scheduler where
  /-- The submission queue has so many entries. -/
  entries : ℕ
  /-- What is prepared and not submitted. -/
  submissions : List PollRequest
  /-- The polls that the kernel has. -/
  polls : List ℕ
  completions : List SchedulerCompletion
  /-- Whether `executors[id]` is not zero. -/
  executors : ℕ → Bool

/-- The kernel takes a submission. A poll that is removed fails, and so does the removal if there is
none; a removal that succeeds has no completion. -/
def PollRequest.take (scheduler : Scheduler) : PollRequest → Scheduler
  | add index => { scheduler with polls := scheduler.polls ++ [index] }
  | remove index => { scheduler with
      polls := scheduler.polls.erase index
      completions := scheduler.completions ++ [.failed] }

namespace Scheduler

/-- The ring; the array of executors is as it is on the stack of the thread. -/
def create (ringSize : ℕ) (executors : ℕ → Bool) : Scheduler :=
  ⟨ringEntries ringSize, [], [], [], executors⟩

/-- `io_uring_submit_and_wait`. -/
def submit (scheduler : Scheduler) : Scheduler :=
  scheduler.submissions.foldl PollRequest.take { scheduler with submissions := [] }

/-- `executor_scheduler_provide_sqe` and the request. -/
def prepare (request : PollRequest) (scheduler : Scheduler) : Scheduler :=
  let scheduler :=
    if scheduler.submissions.length < scheduler.entries then scheduler else scheduler.submit
  { scheduler with submissions := scheduler.submissions ++ [request] }

/-- The body of the loop of `executor_scheduler_listen`, with the executors that it posts to. -/
def handle (completion : SchedulerCompletion) (scheduler : Scheduler) : List ℕ × Scheduler :=
  match completion with
  | .failed => ([], scheduler)
  | .pollin index => (if scheduler.executors index then [index] else [], scheduler)
  | .poll index =>
    ([], if scheduler.executors index then scheduler.prepare (.add index) else scheduler)
  | .register index =>
    ([], { scheduler.prepare (.add index) with
      executors := Function.update scheduler.executors index true })
  | .unregister index =>
    if scheduler.executors index then
      ([index], { scheduler.prepare (.remove index) with
        executors := Function.update scheduler.executors index false })
    else ([], scheduler)

end Scheduler

/-- The completion that a message is at the scheduler. -/
def RingMessage.completion (index : ℕ) : RingMessage → Option SchedulerCompletion
  | register => some (.register index)
  | poll => some (.poll index)
  | unregister => some (.unregister index)
  | call _ | callback _ => none

namespace Executor

/-- `_awake` up to the end of `executor_awake_begin`, and whether it goes on. -/
def awakeBegin (executor : Executor) : Bool × Executor :=
  match executor.native.state with
  | .stopped => (false, { executor with stopped := true })
  | .paused => (false, executor)
  | .idle | .waking | .stopping =>
    match executor.native.awakeBegin with
    | (.throws, native) => (false, { executor with native := native })
    | (.returns, native) => (true, { executor with native := native })

/-- `_awake` from `executor_peek` up to the first turn. -/
def awakePeek (executor : Executor) : Executor :=
  let (count, native) := executor.native.peek
  if count = 0 then { executor with native := native.awakeComplete count }
  else { executor with native := native, batch := some ⟨0, count, none⟩ }

end Executor

/-- An executor at its scheduler. -/
structure Scheduled where
  executor : Executor
  /-- A wakeup is behind `executor_awake_begin`, and not at `executor_peek`. -/
  begun : Bool
  /-- How many of the messages that were submitted have come to their rings. -/
  delivered : ℕ
  /-- `_registry[id]` is not null. -/
  slot : Bool
  /-- `_callback` is open. -/
  port : Bool

namespace Scheduled

/-- A new executor that is initialized. -/
def create (descriptor ringSize : ℕ) (callbacks : List ℕ) (producers : ℕ) : Scheduled where
  executor := .create (.create descriptor ringSize) callbacks producers
  begun := false
  delivered := 0
  slot := true
  port := true

/-- The end of `shutdown` gives up the slot and the port with the native executor. -/
def update (executor : Executor) (scheduled : Scheduled) : Scheduled :=
  { scheduled with
    executor := executor
    slot := scheduled.slot && !executor.destroyed
    port := scheduled.port && !executor.destroyed }

end Scheduled

/-- A scheduler with its executors. -/
structure Scheduling where
  scheduler : Scheduler
  /-- The executors by their ids. -/
  executors : List Scheduled
  /-- The ids that were posted and not received. -/
  posted : List ℕ

inductive SchedulingAction where
  /-- A new executor. -/
  | create (descriptor ringSize : ℕ) (callbacks : List ℕ) (producers : ℕ)
  /-- A step of an executor, but for its wakeups. -/
  | act (index : ℕ) (action : Action)
  /-- The isolate of an executor receives a post. -/
  | awake (index : ℕ)
  /-- A wakeup goes on with `executor_peek`. -/
  | peek (index : ℕ)
  /-- The next message of an executor comes to its ring. -/
  | deliver (index : ℕ)
  /-- The kernel completes a poll. -/
  | pollin (index : ℕ)
  /-- The scheduler takes its next completion. -/
  | handle
  /-- The scheduler submits. -/
  | submit

namespace Scheduling

def create (ringSize : ℕ) (executors : ℕ → Bool) : Scheduling :=
  ⟨.create ringSize executors, [], []⟩

def setScheduled (index : ℕ) (scheduled : Scheduled) (scheduling : Scheduling) : Scheduling :=
  { scheduling with executors := scheduling.executors.set index scheduled }

/-- `Dart_PostInteger` finds the port open. -/
def isOpen (scheduling : Scheduling) (index : ℕ) : Bool :=
  (scheduling.executors[index]?).any Scheduled.port

/-- The actions of the executor while a wakeup has begun: its thread is in native code. -/
def permits (scheduled : Scheduled) : Action → Bool
  | .post _ => true
  | .awake => false
  | .turn | .leave _ | .finish | .user _ | .settle .. | .complete .. | .proceed => !scheduled.begun

def act (index : ℕ) (action : Action) (scheduling : Scheduling) : Option Scheduling :=
  (scheduling.executors[index]?).bind fun scheduled =>
    if permits scheduled action then
      (scheduled.executor.step action).map fun executor =>
        scheduling.setScheduled index (scheduled.update executor)
    else none

/-- The port of an executor that is gone drops the post, and `_registry[id]!` throws at an empty
slot. -/
def awake (index : ℕ) (scheduling : Scheduling) : Option Scheduling :=
  if index ∈ scheduling.posted then
    let received := { scheduling with posted := scheduling.posted.erase index }
    (scheduling.executors[index]?).bind fun scheduled =>
      if scheduled.port && scheduled.slot then
        if scheduled.executor.batch = none ∧ scheduled.begun = false then
          some (received.setScheduled index { scheduled with
            executor := scheduled.executor.awakeBegin.2
            begun := scheduled.executor.awakeBegin.1 })
        else none
      else some received
  else none

def peek (index : ℕ) (scheduling : Scheduling) : Option Scheduling :=
  (scheduling.executors[index]?).bind fun scheduled =>
    if scheduled.begun then
      some (scheduling.setScheduled index { scheduled with
        executor := scheduled.executor.awakePeek
        begun := false })
    else none

def deliver (index : ℕ) (scheduling : Scheduling) : Option Scheduling :=
  (scheduling.executors[index]?).bind fun scheduled =>
    (scheduled.executor.native.sent[scheduled.delivered]?).map fun message =>
      { scheduling.setScheduled index { scheduled with delivered := scheduled.delivered + 1 } with
        scheduler := { scheduling.scheduler with
          completions := scheduling.scheduler.completions ++ (message.completion index).toList } }

def pollin (index : ℕ) (scheduling : Scheduling) : Option Scheduling :=
  if index ∈ scheduling.scheduler.polls then
    some { scheduling with scheduler := { scheduling.scheduler with
      polls := scheduling.scheduler.polls.erase index
      completions := scheduling.scheduler.completions ++ [.pollin index] } }
  else none

def handle (scheduling : Scheduling) : Option Scheduling :=
  match scheduling.scheduler.completions with
  | [] => none
  | completion :: completions =>
    let (posts, scheduler) :=
      { scheduling.scheduler with completions := completions }.handle completion
    some { scheduling with
      scheduler := scheduler
      posted := scheduling.posted ++ posts.filter scheduling.isOpen }

/-- A step of the scheduler, the executors or the kernel, `none` where it is not enabled. -/
def step (scheduling : Scheduling) : SchedulingAction → Option Scheduling
  | .create descriptor ringSize callbacks producers =>
    some { scheduling with
      executors := scheduling.executors ++ [.create descriptor ringSize callbacks producers] }
  | .act index action => scheduling.act index action
  | .awake index => scheduling.awake index
  | .peek index => scheduling.peek index
  | .deliver index => scheduling.deliver index
  | .pollin index => scheduling.pollin index
  | .handle => scheduling.handle
  | .submit => some { scheduling with scheduler := scheduling.scheduler.submit }

end Scheduling

end FengShui.Executors
