import FengShui.Executor.Executor

/-!
# Wakeups and shutdown (`executor/executor.dart`)

`step_move` says once what a step can do. Two things follow. The state word is overwritten by the
beginning and the end of every wakeup, so that the mark of `shutdown` survives exactly as long as
nothing of the kind happens (`stopsThroughout_iff`). And the end of a wakeup is skipped by whatever
is thrown in its middle, so that completions are dispatched once each exactly as long as nothing is
thrown (`dispatchedThroughout_iff`).
-/

namespace FengShui.Executors

open Transition

namespace Executor

variable {executor next : Executor} {action : Action}

/-! ## What the parts of a step touch -/

/-- A message that is prepared touches the submissions only. -/
theorem prepare_eq_some {message : RingMessage} {native prepared : ExecutorInstance}
    (h : native.prepare message = some prepared) :
    prepared = { native with submissions := native.submissions ++ [message] } := by
  unfold ExecutorInstance.prepare at h
  split at h
  · exact (Option.some.inj h).symm
  · cases h

/-- Two native executors that differ in what is submitted at most. -/
structure SameQueue (native other : ExecutorInstance) : Prop where
  state : other.state = native.state
  completions : other.completions = native.completions
  advanced : other.advanced = native.advanced

theorem sameQueue_submit (native : ExecutorInstance) : SameQueue native native.submit := by
  unfold ExecutorInstance.submit
  split <;> exact ⟨rfl, rfl, rfl⟩

theorem sameQueue_callNative (target : ℕ) (task : ExecutorTask) (native : ExecutorInstance) :
    SameQueue native (native.callNative target task).2 := by
  unfold ExecutorInstance.callNative
  split
  · exact ⟨rfl, rfl, rfl⟩
  · rename_i prepared hprepare
    obtain rfl := prepare_eq_some hprepare
    have hsame := sameQueue_submit { native with submissions := native.submissions ++
      [.call { task with source := native.descriptor, target := target }] }
    exact ⟨hsame.state, hsame.completions, hsame.advanced⟩

theorem sameQueue_callbackToNative (task : ExecutorTask) (native : ExecutorInstance) :
    SameQueue native (native.callbackToNative task).2 := by
  unfold ExecutorInstance.callbackToNative
  split
  · exact ⟨rfl, rfl, rfl⟩
  · rename_i prepared hprepare
    obtain rfl := prepare_eq_some hprepare
    have hsame := sameQueue_submit { native with submissions := native.submissions ++
      [.callback { task with source := native.descriptor, target := task.source }] }
    exact ⟨hsame.state, hsame.completions, hsame.advanced⟩

/-- The state word behind the registration, whether a submission entry is free or not. -/
theorem registerOnScheduler_eq (native : ExecutorInstance) :
    native.registerOnScheduler.2.state = .idle ∧
      native.registerOnScheduler.2.advanced = native.advanced := by
  unfold ExecutorInstance.registerOnScheduler
  dsimp only
  split
  · exact ⟨rfl, rfl⟩
  · rename_i hprepare
    obtain rfl := prepare_eq_some hprepare
    exact ⟨rfl, rfl⟩

theorem unregisterFromScheduler_eq (stop : Bool) (native : ExecutorInstance) :
    (native.unregisterFromScheduler stop).2.state = (if stop then .stopped else .paused) ∧
      (native.unregisterFromScheduler stop).2.advanced = native.advanced := by
  unfold ExecutorInstance.unregisterFromScheduler
  dsimp only
  split
  · exact ⟨rfl, rfl⟩
  · rename_i hprepare
    obtain rfl := prepare_eq_some hprepare
    exact ⟨rfl, rfl⟩

/-- The end of a wakeup leaves the executor idle: the check for the mark of `shutdown` behind it
never succeeds. -/
theorem finish_eq (executor : Executor) (count : ℕ) : executor.finish count =
    { executor with native := executor.native.awakeComplete count, batch := none } := by
  unfold finish
  dsimp only
  rw [if_neg (by simp [ExecutorInstance.awakeComplete])]

/-- A turn does not touch the ring. -/
theorem native_turn (batch : Batch) (completion : Completion) (executor : Executor) :
    (executor.turn batch completion).native = executor.native := by
  unfold turn
  dsimp only
  repeat' split
  all_goals rfl

theorem stopping_turn (batch : Batch) (completion : Completion) (executor : Executor) :
    (executor.turn batch completion).stopping = executor.stopping := by
  unfold turn
  dsimp only
  repeat' split
  all_goals rfl

/-- A call of another executor. -/
theorem userCall_call (executor : Executor) (owner method target address : ℕ) :
    ∃ native broker, executor.userCall (.call owner method target address) =
      { executor with native := native, broker := broker } ∧ SameQueue executor.native native := by
  have hsame := sameQueue_callNative target ⟨address, 0, 0, owner, method, false⟩ executor.native
  unfold userCall
  dsimp only
  split <;> rename_i hcall <;> rw [hcall] at hsame
  · exact ⟨_, _, rfl, hsame⟩
  · exact ⟨_, _, rfl, hsame⟩

/-- The wakeup does not find the executor stopped or paused. -/
def Wakes (executor : Executor) : Prop :=
  executor.native.state ≠ .stopped ∧ executor.native.state ≠ .paused

/-- How the first part of a wakeup ends. -/
inductive Awakes (executor : Executor) : Executor → Prop where
  | stopped (hstate : executor.native.state = .stopped) :
    Awakes executor { executor with stopped := true }
  | paused (hstate : executor.native.state = .paused) : Awakes executor executor
  /-- There is no submission entry for the poll. -/
  | full (hwakes : executor.Wakes)
      (hfull : executor.native.entries ≤ executor.native.submissions.length) :
    Awakes executor { executor with native := { executor.native with state := .waking } }
  /-- There is no completion. -/
  | nothing (hwakes : executor.Wakes)
      (hfree : executor.native.submissions.length < executor.native.entries)
      {native : ExecutorInstance} (hadvanced : native.advanced = executor.native.advanced)
      (hstate : native.state = .idle) : Awakes executor { executor with native := native }
  | batch (hwakes : executor.Wakes)
      (hfree : executor.native.submissions.length < executor.native.entries)
      {native : ExecutorInstance} {count : ℕ}
        (hadvanced : native.advanced = executor.native.advanced)
      (hstate : native.state = .waking) :
    Awakes executor { executor with native := native, batch := some ⟨0, count, none⟩ }

section Awake

variable {executor : Executor} {native : ExecutorInstance}

theorem awake_of_throws (hwakes : executor.Wakes)
    (hbegin : executor.native.awakeBegin = (.throws, native)) :
    executor.awake = { executor with native := native } := by
  unfold awake
  split
  · exact absurd ‹_› hwakes.1
  · exact absurd ‹_› hwakes.2
  all_goals rw [hbegin]

theorem awake_of_returns (hwakes : executor.Wakes)
    (hbegin : executor.native.awakeBegin = (.returns, native)) :
    executor.awake =
      if native.peek.1 =
        0 then { executor with native := native.peek.2.awakeComplete native.peek.1 }
      else { executor with native := native.peek.2, batch := some ⟨0, native.peek.1, none⟩ } := by
  unfold awake
  split
  · exact absurd ‹_› hwakes.1
  · exact absurd ‹_› hwakes.2
  all_goals rw [hbegin]

end Awake

theorem awakes_awake (executor : Executor) : Awakes executor executor.awake := by
  by_cases hstopped : executor.native.state = .stopped
  · have hawake : executor.awake = { executor with stopped := true } := by
      unfold awake
      rw [hstopped]
    rw [hawake]
    exact .stopped hstopped
  by_cases hpaused : executor.native.state = .paused
  · have hawake : executor.awake = executor := by
      unfold awake
      rw [hpaused]
    rw [hawake]
    exact .paused hpaused
  -- The loop begins with a batch if the ring has an entry free.
  have hwakes : executor.Wakes := ⟨hstopped, hpaused⟩
  by_cases hfree : executor.native.submissions.length < executor.native.entries
  · rw [awake_of_returns hwakes (by
      unfold ExecutorInstance.awakeBegin ExecutorInstance.prepare
      dsimp only
      rw [if_pos hfree])]
    split
    · rename_i hcount
      rw [hcount]
      exact .nothing hwakes hfree rfl rfl
    · exact .batch hwakes hfree rfl rfl
  · rw [awake_of_throws hwakes (by
      unfold ExecutorInstance.awakeBegin ExecutorInstance.prepare
      dsimp only
      rw [if_neg hfree])]
    exact .full hwakes (Nat.le_of_not_lt hfree)

end Executor

/-! ## What a step can do -/

/-- What a step can do. -/
inductive Move (executor : Executor) : Action → Executor → Prop where
  | post (completion : Completion) :
    Move executor (.post completion) { executor with native := { executor.native with
      completions := executor.native.completions ++ [completion] } }
  | awake {next : Executor} (hbatch : executor.batch = none) (hawakes : executor.Awakes next) :
    Move executor .awake next
  | turn {index count : ℕ} {completion : Completion}
      (hbatch : executor.batch = some ⟨index, count, none⟩)
      (hcompletion : executor.native.completions[index]? = some completion) :
    Move executor .turn (executor.turn ⟨index, count, none⟩ completion)
  | returns {index count : ℕ} {task : ExecutorTask}
      (hbatch : executor.batch = some ⟨index, count, some task⟩) :
    Move executor (.leave .returns) { executor with
      batch := some ⟨index + 1, count, none⟩
      futures := executor.futures ++ [task] }
  | throws {index count : ℕ} {task : ExecutorTask}
      (hbatch : executor.batch = some ⟨index, count, some task⟩) :
    Move executor (.leave .throws) { executor with batch := none }
  | finish {count : ℕ} (hbatch : executor.batch = some ⟨count, count, none⟩) :
    Move executor .finish (executor.finish count)
  | user (call : UserCall) : Move executor (.user call) (executor.userCall call)
  | settle {index : ℕ} {task : ExecutorTask} (hbatch : executor.batch = none) (succeeded : Bool) :
    Move executor (.settle index succeeded)
      (Executor.settle task succeeded { executor with futures := executor.futures.eraseIdx index })
  | complete {owner method id : ℕ} (hbatch : executor.batch = none) :
    Move executor (.complete owner method id) { executor with broker := { executor.broker with
      calls := executor.broker.calls.remove (owner, method, id) } }
  | proceed (hbatch : executor.batch = none) :
    Move executor .proceed { executor with destroyed := true }

namespace Executor

variable {executor next : Executor} {action : Action}

theorem step_move (h : step executor action = some next) :
    executor.destroyed = false ∧ Move executor action next := by
  unfold step at h
  split at h
  · cases h
  rename_i hdestr
  refine ⟨by simpa using hdestr, ?_⟩
  split at h
  · cases h
    exact .post _
  · rename_i hbatch
    cases h
    exact .awake hbatch (awakes_awake executor)
  · rename_i hbatch
    split at h
    -- The rounds of the loop.
    · obtain ⟨completion, hcomp, rfl⟩ := Option.map_eq_some_iff.mp h
      exact .turn hbatch hcomp
    · cases h
  · rename_i hbatch
    cases h
    exact .returns hbatch
  · rename_i hbatch
    cases h
    exact .throws hbatch
  · rename_i hbatch
    split at h
    · rename_i hidx
      cases h
      exact .finish (hidx ▸ hbatch)
    · cases h
  · split at h
    · cases h
      exact .user _
    · cases h
  · rename_i hbatch
    obtain ⟨task, -, rfl⟩ := Option.map_eq_some_iff.mp h
    exact .settle hbatch _
  · rename_i hbatch
    split at h
    · cases h
      exact .complete hbatch
    · cases h
  · rename_i hbatch
    split at h
    · cases h
      exact .proceed hbatch
    · cases h
  · cases h

/-! ## The mark of `shutdown` -/

/-- Once `shutdown` was called, the executor is stopping or stopped. -/
def Stopping (executor : Executor) : Prop :=
  executor.stopping = true → executor.destroyed = false →
    executor.native.state = .stopping ∨ executor.native.state = .stopped

/-- Nothing overwrites the mark of `shutdown`. -/
def Undisturbed (executor : Executor) : Action → Prop
  | .awake => executor.stopping = false ∨ executor.native.state = .stopped
  | .finish | .user .activate | .user .deactivate => executor.stopping = false
  | _ => True

/-- The mark survives throughout a run, and a batch behind it that leaves nothing pending stops the
executor. -/
structure StopsThroughout (start : Executor) (actions : List Action) : Prop where
  stopping : ∀ front back executor, actions = front ++ back → run step start front = some executor →
    executor.Stopping
  stopped : ∀ front back executor next, actions = front ++ .finish :: back →
    run step start front = some executor → step executor .finish = some next →
      next.stopping = true → next.pending = 0 → next.native.state = .stopped

theorem Stopping.step (h : executor.Stopping) (hundisturbed : executor.Undisturbed action)
    (hstep : step executor action = some next) : next.Stopping := by
  obtain ⟨hdestr, hmove⟩ := step_move hstep
  -- Either the native state is as before.
  have hkeeps {other : Executor} (hstop : other.stopping = executor.stopping)
      (hstate : other.native.state = executor.native.state) : other.Stopping := by
    intro hother _
    rw [hstate]
    exact h (hstop ▸ hother) hdestr
  -- Or `shutdown` was not called yet.
  have hopen {other : Executor} (hstop : other.stopping = executor.stopping)
      (hclosed : executor.stopping = false) : other.Stopping := by
    intro hother
    rw [hstop, hclosed] at hother
    cases hother
  cases hmove with
  | post => exact hkeeps rfl rfl
  | awake hbatch hawakes =>
    have hclosed (hwakes : executor.Wakes) : executor.stopping = false :=
      hundisturbed.resolve_right hwakes.1
    cases hawakes with
    | stopped => exact hkeeps rfl rfl
    | paused => exact h
    | full hwakes => exact hopen rfl (hclosed hwakes)
    | nothing hwakes => exact hopen rfl (hclosed hwakes)
    | batch hwakes => exact hopen rfl (hclosed hwakes)
  | turn => exact hkeeps (stopping_turn ..) (by rw [native_turn])
  | returns => exact hkeeps rfl rfl
  | throws => exact hkeeps rfl rfl
  | finish =>
    rw [finish_eq]
    exact hopen rfl hundisturbed
  | user call =>
    cases call with
    | shutdown =>
      intro _ _
      unfold userCall shutdown
      dsimp only
      split <;> exact .inl rfl
    | activate => exact hopen rfl hundisturbed
    | deactivate => exact hopen rfl hundisturbed
    | call owner method target address =>
      obtain ⟨native, broker, hcall, hsame⟩ := executor.userCall_call owner method target address
      rw [hcall]
      exact hkeeps rfl hsame.state
  | settle hbatch succeeded =>
    refine hkeeps rfl ?_
    cases succeeded with
    | false => rfl
    | true => exact (sameQueue_callbackToNative _ executor.native).state
  | complete => exact hkeeps rfl rfl
  | proceed => exact nofun

/-- What overwrites the mark is seen in the state behind it. -/
theorem not_stopping_of_disturbed (hdisturbed : ¬executor.Undisturbed action)
    (hstep : step executor action = some next) (h : executor.Stopping) : ¬next.Stopping := by
  obtain ⟨hdestr, hmove⟩ := step_move hstep
  -- Another native state hides that the executor is stopping.
  have hlost {other : Executor} (hstop : other.stopping = true)
      (hopen : other.destroyed = false) (hstate : other.native.state ≠ .stopping)
      (hstate' : other.native.state ≠ .stopped) : ¬other.Stopping :=
    fun hother => (hother hstop hopen).elim hstate hstate'
  cases hmove with
  | awake hbatch hawakes =>
    obtain ⟨hstop, hstopped⟩ := not_or.mp hdisturbed
    rw [Bool.not_eq_false] at hstop
    have hstate := (h hstop hdestr).resolve_right hstopped
    cases hawakes with
    | stopped hother => exact absurd hother hstopped
    | paused hother =>
      rw [hstate] at hother
      cases hother
    | full => exact hlost hstop hdestr nofun nofun
    | nothing _ _ _ hidle =>
      exact hlost hstop hdestr (by rw [hidle]; nofun) (by rw [hidle]; nofun)
    | batch _ _ _ hwaking =>
      exact hlost hstop hdestr (by rw [hwaking]; nofun) (by rw [hwaking]; nofun)
  | finish =>
    have hstop : executor.stopping = true := by simpa [Undisturbed] using hdisturbed
    rw [finish_eq]
    exact hlost hstop hdestr nofun nofun
  | user call =>
    cases call with
    | activate =>
      have hstop : executor.stopping = true := by simpa [Undisturbed] using hdisturbed
      have hidle := (registerOnScheduler_eq executor.native).1
      exact hlost hstop hdestr (by rw [userCall, hidle]; nofun)
        (by rw [userCall, hidle]; nofun)
    | deactivate =>
      have hstop : executor.stopping = true := by simpa [Undisturbed] using hdisturbed
      have hpaused := (unregisterFromScheduler_eq false executor.native).1
      exact hlost hstop hdestr (by rw [userCall, hpaused]; nofun)
        (by rw [userCall, hpaused]; nofun)
    | shutdown => exact absurd trivial hdisturbed
    | call => exact absurd trivial hdisturbed
  | _ => exact absurd trivial hdisturbed

theorem stopping_create (native : ExecutorInstance) (callbacks : List ℕ) (producers : ℕ) :
    (create native callbacks producers).Stopping := nofun

/-- The mark of `shutdown` survives a run if and only if nothing of the run overwrites it. -/
theorem stopsThroughout_iff (descriptor ringSize : ℕ) (callbacks : List ℕ) (producers : ℕ)
    {actions : List Action} {last : Executor}
    (hrun : run step (create (.create descriptor ringSize) callbacks producers) actions =
      some last) :
    StopsThroughout (create (.create descriptor ringSize) callbacks producers) actions ↔
      Along step Undisturbed (create (.create descriptor ringSize) callbacks producers)
        actions := by
  constructor
  · intro hstops
    by_contra halong
    obtain ⟨front, action, back, executor, rfl, -, hfront, hdisturbed⟩ := exists_of_not_along halong
    obtain ⟨next, hnext⟩ := exists_step_of_run hrun hfront
    have hstopping := hstops.stopping front _ executor rfl hfront
    refine not_stopping_of_disturbed hdisturbed hnext hstopping ?_
    exact hstops.stopping (front ++ [action]) back next (by simp) (run_concat hfront hnext)
  · intro halong
    constructor
    · rintro front back executor rfl hfront
      exact run_induction (fun _ => Stopping)
        (fun _ executor action next h hundisturbed hstep => h.step hundisturbed hstep)
        (stopping_create _ callbacks producers) (along_append halong) hfront
    · rintro front back executor next rfl hfront hnext hstopping -
      -- No batch ends once `shutdown` was called.
      have hclosed : executor.stopping = false := halong.at_step hfront
      obtain ⟨-, hmove⟩ := step_move hnext
      cases hmove
      rw [finish_eq] at hstopping
      exact absurd hstopping (by rw [hclosed]; nofun)

/-- A call of a task. -/
def callCompletion (owner method : ℕ) : Completion := ⟨some ⟨7, 5, 3, owner, method, false⟩, 1⟩

/-- A callback is pending when `shutdown` is called, and is settled behind it. -/
theorem stopsThroughout_iff_pending : StopsThroughout (create (.create 3 8) [1] 1)
    [.user .activate, .post (callCompletion 0 0), .awake, .turn, .leave .returns, .finish,
      .user .shutdown, .settle 0 true] := by
  refine (stopsThroughout_iff 3 8 [1] 1 rfl).mpr ?_
  refine (along_cons_of_step rfl).mpr ⟨rfl, (along_cons_of_step rfl).mpr ⟨trivial, ?_⟩⟩
  refine (along_cons_of_step rfl).mpr ⟨.inl rfl, (along_cons_of_step rfl).mpr ⟨trivial, ?_⟩⟩
  refine (along_cons_of_step rfl).mpr ⟨trivial, (along_cons_of_step rfl).mpr ⟨?_, ?_⟩⟩
  · exact (rfl : false = false)
  exact (along_cons_of_step rfl).mpr ⟨trivial, (along_cons_of_step rfl).mpr ⟨trivial, trivial⟩⟩

/-- A callback is pending when `shutdown` is called, and its wakeup ends as if nothing had
happened. -/
theorem not_stopsThroughout_pending :
    ¬StopsThroughout (create (.create 3 8) [1] 1) [.user .activate, .post (callCompletion 0 0),
      .awake, .turn, .leave .returns, .finish, .user .shutdown, .settle 0 true, .awake] := by
  intro hstops
  have hlast := hstops.stopping _ [] _ (List.append_nil _).symm rfl
  exact absurd (hlast rfl rfl) (by decide)

/-! ## The dispatch of completions -/

/-- The turns of the batch that were begun. -/
def begun (executor : Executor) : ℕ :=
  match executor.batch with
  | none => 0
  | some batch => batch.index + if batch.inside.isSome then 1 else 0

/-- Between wakeups every completion that was taken from the ring was dispatched once, in order, the
queue is advanced by these, and the executor is not waking. -/
structure Dispatched (executor : Executor) : Prop where
  dispatched : executor.batch = none →
    executor.dispatched = List.range executor.native.advanced
  waking : executor.batch = none → executor.native.state ≠ .waking

/-- That is so throughout a run. -/
def DispatchedThroughout (start : Executor) (actions : List Action) : Prop :=
  ∀ front back executor, actions = front ++ back → run step start front = some executor →
    executor.Dispatched

/-- The dispatch of a completion throws nothing of its own: its callback is registered, and its call
is not answered yet. -/
def Answerable (executor : Executor) (completion : Completion) : Prop :=
  ∀ task, completion.task = some task →
    (completion.isCall = true → executor.broker.isConsumer task = true) ∧
    (completion.isCall = false → completion.isCallback = true →
      task.owner < executor.broker.producers ∧
        (executor.broker.calls.get? (task.owner, task.method, task.id) = none ∨
          executor.broker.calls.get? (task.owner, task.method, task.id) = some .waiting))

/-- Nothing is thrown in a wakeup: there is an entry for the poll, the completion of a turn is
answerable, and the callback does not throw. -/
def Calm (executor : Executor) : Action → Prop
  | .awake => executor.Wakes → executor.native.submissions.length < executor.native.entries
  | .turn => ∀ index count completion, executor.batch = some ⟨index, count, none⟩ →
      executor.native.completions[index]? = some completion → executor.Answerable completion
  | .leave outcome => outcome = .returns
  | _ => True

/-- The turns that were begun are dispatched, and nothing else. -/
structure InOrder (executor : Executor) : Prop where
  dispatched : executor.dispatched = List.range (executor.native.advanced + executor.begun)
  waking : executor.batch = none → executor.native.state ≠ .waking

theorem InOrder.done (h : InOrder executor) : executor.Dispatched := by
  refine ⟨fun hbatch => ?_, h.waking⟩
  have hdispatched := h.dispatched
  unfold begun at hdispatched
  rwa [hbatch] at hdispatched

/-- The call is there and not answered, or there is none. -/
theorem callback_returns {broker : ExecutorBroker} {task : ExecutorTask}
    (howner : task.owner < broker.producers)
    (hcalls : broker.calls.get? (task.owner, task.method, task.id) = none ∨
      broker.calls.get? (task.owner, task.method, task.id) = some .waiting) :
    ∃ next, broker.callback task = (.returns, next) := by
  unfold ExecutorBroker.callback
  rw [if_neg (Nat.not_le.mpr howner)]
  dsimp only
  rcases hcalls with hcalls | hcalls
  · rw [hcalls]
    exact ⟨_, rfl⟩
  · rw [hcalls]
    exact ⟨_, rfl⟩

theorem callback_throws {broker : ExecutorBroker} {task : ExecutorTask}
    (h : ¬(task.owner < broker.producers ∧
      (broker.calls.get? (task.owner, task.method, task.id) = none ∨
        broker.calls.get? (task.owner, task.method, task.id) = some .waiting))) :
    broker.callback task = (.throws, broker) := by
  unfold ExecutorBroker.callback
  by_cases howner : broker.producers ≤ task.owner
  · rw [if_pos howner]
  · rw [if_neg howner]
    dsimp only
    split
    · rename_i hcalls
      exact absurd ⟨Nat.lt_of_not_le howner, .inl hcalls⟩ h
    · rename_i hcalls
      exact absurd ⟨Nat.lt_of_not_le howner, .inr hcalls⟩ h
    · rfl

/-- A turn of an answerable completion leads to its callback, or to the next turn. -/
theorem turn_of_answerable {index count : ℕ} {completion : Completion}
    (h : executor.Answerable completion) :
    ∃ broker batch, executor.turn ⟨index, count, none⟩ completion =
        { executor with
          broker := broker
          batch := some batch
          dispatched := executor.dispatched ++ [executor.native.advanced + index] } ∧
      batch.index + (if batch.inside.isSome then 1 else 0) = index + 1 := by
  unfold turn
  dsimp only
  cases htask : completion.task with
  | none => exact ⟨_, _, rfl, rfl⟩
  | some task =>
    -- The owner of the call is there, and so is the method.
    obtain ⟨hconsumer, hprod⟩ := h task htask
    dsimp only
    cases hcall : completion.isCall with
    | true =>
      rw [if_pos rfl, if_pos (hconsumer hcall)]
      exact ⟨_, _, rfl, rfl⟩
    | false =>
      rw [if_neg Bool.false_ne_true]
      cases hcb : completion.isCallback with
      | false =>
        rw [if_neg Bool.false_ne_true]
        exact ⟨_, _, rfl, rfl⟩
      | true =>
        obtain ⟨howner, hcalls⟩ := hprod hcall hcb
        obtain ⟨broker, hreturns⟩ := callback_returns howner hcalls
        rw [if_pos rfl, hreturns]
        exact ⟨_, _, rfl, rfl⟩

/-- A turn of another completion throws. -/
theorem turn_of_not_answerable {index count : ℕ} {completion : Completion}
    (h : ¬executor.Answerable completion) :
    executor.turn ⟨index, count, none⟩ completion =
      { executor with
        batch := none
        dispatched := executor.dispatched ++ [executor.native.advanced + index] } := by
  unfold Answerable at h
  push Not at h
  obtain ⟨task, htask, h⟩ := h
  unfold turn
  dsimp only
  rw [htask]
  dsimp only
  by_cases hconsumer : completion.isCall = true → executor.broker.isConsumer task = true
  · obtain ⟨hcall, hcb, hanswered⟩ := h hconsumer
    have hthrows := @callback_throws executor.broker task
      (fun hand => hand.2.elim (hanswered hand.1).1 (hanswered hand.1).2)
    rw [hcall, if_neg Bool.false_ne_true, if_pos hcb, hthrows]
  · push Not at hconsumer
    obtain ⟨hcall, hnone⟩ := hconsumer
    rw [if_pos hcall, if_neg hnone]

theorem InOrder.step (h : InOrder executor) (hcalm : executor.Calm action)
    (hstep : step executor action = some next) : next.InOrder := by
  obtain ⟨-, hmove⟩ := step_move hstep
  have hdispatched := h.dispatched
  have hidle (hbatch : executor.batch = none) :
      executor.dispatched = List.range executor.native.advanced := (h.done).dispatched hbatch
  -- What touches neither the queue nor the batch.
  have hkeeps {other : Executor} (hbatch : other.batch = executor.batch)
      (hother : other.dispatched = executor.dispatched)
      (hadvanced : other.native.advanced = executor.native.advanced)
      (hstate : executor.batch = none → other.native.state ≠ .waking) : other.InOrder := by
    have hbegun : other.begun = executor.begun := by
      unfold begun
      rw [hbatch]
    refine ⟨?_, hbatch ▸ hstate⟩
    rw [hother, hadvanced, hbegun]
    exact hdispatched
  cases hmove with
  | post => exact hkeeps rfl rfl rfl h.waking
  | awake hbatch hawakes =>
    have hfree (hwakes : executor.Wakes) := hcalm hwakes
    cases hawakes with
    | stopped => exact hkeeps rfl rfl rfl h.waking
    | paused => exact h
    | full hwakes hfull => exact absurd (hfree hwakes) (Nat.not_lt.mpr hfull)
    | nothing hwakes _ hadvanced hstate =>
      exact hkeeps rfl rfl hadvanced fun _ => by rw [hstate]; nofun
    | batch hwakes _ hadvanced hstate =>
      refine ⟨?_, nofun⟩
      dsimp only [begun]
      rw [hadvanced]
      exact hidle hbatch
  | @turn index count completion hbatch hcomp =>
    obtain ⟨broker, batch, hturn, hidx⟩ :=
      turn_of_answerable (hcalm _ _ _ hbatch hcomp)
    rw [hturn]
    have hbegun : executor.begun = index := by
      unfold begun
      rw [hbatch]
      rfl
    refine ⟨?_, nofun⟩
    dsimp only [begun]
    rw [hidx, hdispatched, hbegun, ← Nat.add_assoc, List.range_succ]
  | returns hbatch =>
    unfold begun at hdispatched
    rw [hbatch] at hdispatched
    exact ⟨hdispatched, nofun⟩
  | throws => cases hcalm
  | finish hbatch =>
    unfold begun at hdispatched
    rw [hbatch] at hdispatched
    rw [finish_eq]
    exact ⟨hdispatched, fun _ => nofun⟩
  | user call =>
    cases call with
    | shutdown =>
      unfold userCall shutdown
      dsimp only
      split
      · exact hkeeps rfl rfl rfl fun _ => nofun
      · exact hkeeps rfl rfl rfl fun _ => nofun
    | activate =>
      obtain ⟨hstate, hadvanced⟩ := registerOnScheduler_eq executor.native
      exact hkeeps rfl rfl hadvanced fun _ => by rw [userCall, hstate]; nofun
    | deactivate =>
      obtain ⟨hstate, hadvanced⟩ := unregisterFromScheduler_eq false executor.native
      exact hkeeps rfl rfl hadvanced fun _ => by rw [userCall, hstate]; nofun
    | call owner method target address =>
      obtain ⟨native, broker, hcall, hsame⟩ := executor.userCall_call owner method target address
      rw [hcall]
      exact hkeeps rfl rfl hsame.advanced fun hnone => by rw [hsame.state]; exact h.waking hnone
  | @settle index task hbatch succeeded =>
    cases succeeded with
    | false => exact hkeeps rfl rfl rfl h.waking
    | true =>
      have hsame := sameQueue_callbackToNative task executor.native
      exact hkeeps rfl rfl hsame.advanced fun hnone => by
        change (executor.native.callbackToNative task).2.state ≠ _
        rw [hsame.state]
        exact h.waking hnone
  | complete => exact hkeeps rfl rfl rfl h.waking
  | proceed => exact hkeeps rfl rfl rfl h.waking

/-- What is thrown in a wakeup is seen behind it. -/
theorem not_dispatched_of_not_calm (h : InOrder executor) (hthrows : ¬executor.Calm action)
    (hstep : step executor action = some next) : ¬next.Dispatched := by
  obtain ⟨-, hmove⟩ := step_move hstep
  have hdispatched := h.dispatched
  cases hmove with
  | awake hbatch hawakes =>
    obtain ⟨hwakes, hfull⟩ := Classical.not_imp.mp hthrows
    cases hawakes with
    | stopped hstate => exact absurd hstate hwakes.1
    | paused hstate => exact absurd hstate hwakes.2
    | full => exact fun hnext => hnext.waking hbatch rfl
    | nothing _ hfree => exact absurd hfree hfull
    | batch _ hfree => exact absurd hfree hfull
  | @turn index count completion hbatch hcomp =>
    -- The completion of this round is the one that cannot be answered.
    have hanswerable : ¬executor.Answerable completion := fun hanswerable =>
      hthrows fun other count' completion' hbatch' hcomp' => by
        rw [hbatch] at hbatch'
        obtain ⟨rfl, rfl, -⟩ := Batch.mk.inj (Option.some.inj hbatch')
        rw [hcomp] at hcomp'
        cases hcomp'
        exact hanswerable
    rw [turn_of_not_answerable hanswerable]
    intro hnext
    unfold begun at hdispatched
    rw [hbatch] at hdispatched
    -- The turn is dispatched, and the queue is never advanced by it.
    have hlen := congrArg List.length (hnext.dispatched rfl)
    dsimp only at hlen
    rw [hdispatched] at hlen
    simp at hlen
    omega
  | returns => exact absurd rfl hthrows
  | throws hbatch =>
    intro hnext
    unfold begun at hdispatched
    rw [hbatch] at hdispatched
    have hlen := congrArg List.length (hnext.dispatched rfl)
    dsimp only at hlen
    rw [hdispatched] at hlen
    simp at hlen
  | _ => exact absurd trivial hthrows

theorem inOrder_create (descriptor ringSize : ℕ) (callbacks : List ℕ) (producers : ℕ) :
    (create (.create descriptor ringSize) callbacks producers).InOrder :=
  ⟨rfl, fun _ => nofun⟩

/-- Completions are dispatched once each if and only if nothing is thrown in a wakeup. -/
theorem dispatchedThroughout_iff (descriptor ringSize : ℕ) (callbacks : List ℕ) (producers : ℕ)
    {actions : List Action} {last : Executor}
    (hrun : run step (create (.create descriptor ringSize) callbacks producers) actions =
      some last) :
    DispatchedThroughout (create (.create descriptor ringSize) callbacks producers) actions ↔
      Along step Calm (create (.create descriptor ringSize) callbacks producers) actions := by
  have hinv {front : List Action} {executor : Executor}
      (halong : Along step Calm (create (.create descriptor ringSize) callbacks producers) front)
      (hfront : run step (create (.create descriptor ringSize) callbacks producers) front =
        some executor) : executor.InOrder :=
    run_induction (fun _ => InOrder) (fun _ executor action next h hcalm hstep =>
      h.step hcalm hstep) (inOrder_create descriptor ringSize callbacks producers) halong hfront
  constructor
  · intro hthroughout
    by_contra halong
    obtain ⟨front, action, back, executor, rfl, hcalm, hfront, hthrows⟩ :=
      exists_of_not_along halong
    obtain ⟨next, hnext⟩ := exists_step_of_run hrun hfront
    refine not_dispatched_of_not_calm (hinv hcalm hfront) hthrows hnext ?_
    exact hthroughout (front ++ [action]) back next (by simp) (run_concat hfront hnext)
  · rintro halong front back executor rfl hfront
    exact (hinv (along_append halong) hfront).done

/-- One call, whose callback returns. -/
theorem dispatchedThroughout_iff_returns :
    DispatchedThroughout (create (.create 3 8) [1] 1) [.user .activate,
        .post (callCompletion 0 0), .awake, .turn, .leave .returns, .finish] ↔
      Along step Calm (create (.create 3 8) [1] 1) [.user .activate,
        .post (callCompletion 0 0), .awake, .turn, .leave .returns, .finish] :=
  dispatchedThroughout_iff 3 8 [1] 1 rfl

/-- The second of two callbacks throws. -/
theorem not_dispatchedThroughout_throws :
    ¬DispatchedThroughout (create (.create 3 8) [1] 1) [.user .activate,
      .post (callCompletion 0 0), .post (callCompletion 0 0), .awake, .turn, .leave .returns, .turn,
      .leave .throws] := by
  intro hthroughout
  have hlast := hthroughout _ [] _ (List.append_nil _).symm rfl
  exact absurd (hlast.dispatched rfl) (by decide)

end Executor

end FengShui.Executors
