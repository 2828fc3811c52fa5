import FengShui.Executor.SchedulerMoves

/-!
# What the scheduler points to (`executor/executor.dart`, `executor/scheduler.c`)

The scheduler has pointers to executors in its array, in its polls, and in the messages that come to
it. `shutdown` destroys the native executor and tells the scheduler nothing. What it leaves behind
stays there, since no step makes a pointer to an executor that is gone (`Refers.step`). So the
pointers are to live executors if and only if each executor that is destroyed has none left
(`refersToLiveThroughout_iff`). The slot in `_registry` is given up together with the port.
-/

namespace FengShui.Executors

open Transition List

/-! ## Executors that are destroyed -/

namespace Executor

variable {executor next : Executor} {action : Action}

/-- `executor_destroy` is called. -/
def Destroys (executor : Executor) (action : Action) : Prop :=
  action = .user .shutdown ∧ executor.pending = 0 ∨ action = .proceed

theorem destroyed_turn (batch : Batch) (completion : Completion) (executor : Executor) :
    (executor.turn batch completion).destroyed = executor.destroyed := by
  unfold turn
  dsimp only
  repeat' split
  all_goals rfl

theorem shutdown_of_pending (h : executor.pending = 0) : executor.shutdown = { executor with
    native := { executor.native with state := .stopping }, stopping := true, destroyed := true } :=
  if_neg (not_not.mpr h)

theorem shutdown_of_waits (h : executor.pending ≠ 0) : executor.shutdown = { executor with
    native := { executor.native with state := .stopping }
    stopping := true
    waiting := executor.waiting + 1 } := if_pos h

/-- What destroys an executor sends nothing. -/
theorem step_destroyed (hawake : action ≠ .awake) (hstep : step executor action = some next)
    (hdestr : next.destroyed = true) :
    executor.Destroys action ∧ next.native.sent = executor.native.sent := by
  obtain ⟨hlive, hmove⟩ := step_move hstep
  -- The other steps leave it as it is.
  have hkept {later : Executor} (hsame : later.destroyed = executor.destroyed) :
      later.destroyed ≠ true := by
    rw [hsame, hlive]
    exact Bool.false_ne_true
  cases hmove with
  | post | returns | throws | settle | complete => exact absurd hdestr (hkept rfl)
  | awake => exact absurd rfl hawake
  | turn => exact absurd hdestr (hkept (destroyed_turn ..))
  | finish =>
    rw [finish_eq] at hdestr
    exact absurd hdestr (hkept rfl)
  | proceed => exact ⟨.inr rfl, rfl⟩
  | user call =>
    cases call with
    | activate | deactivate => exact absurd hdestr (hkept rfl)
    | call owner method target address =>
      obtain ⟨native, broker, hcall, -⟩ := executor.userCall_call owner method target address
      rw [hcall] at hdestr
      exact absurd hdestr (hkept rfl)
    | shutdown =>
      by_cases hpend : executor.pending = 0
      · exact ⟨.inl ⟨rfl, hpend⟩, by rw [userCall, shutdown_of_pending hpend]⟩
      · rw [userCall, shutdown_of_waits hpend] at hdestr
        exact absurd hdestr (hkept rfl)

theorem destroyed_of_destroys (hdestroys : executor.Destroys action)
    (hstep : step executor action = some next) :
    next.destroyed = true ∧ next.native.sent = executor.native.sent := by
  obtain ⟨-, hmove⟩ := step_move hstep
  rcases hdestroys with ⟨rfl, hpend⟩ | rfl
  · cases hmove
    rw [userCall, shutdown_of_pending hpend]
    exact ⟨rfl, rfl⟩
  · cases hmove
    exact ⟨rfl, rfl⟩

end Executor

/-! ## Pointers -/

/-- The completion has a pointer to the executor. -/
def SchedulerCompletion.RefersTo (index : ℕ) : SchedulerCompletion → Prop
  | register other | poll other | pollin other => other = index
  | unregister _ | failed => False

/-- A message that comes from an executor points to none but it. -/
theorem RingMessage.eq_of_refersTo {index other : ℕ} {message : RingMessage}
    {completion : SchedulerCompletion} (hcomp : message.completion other = some completion)
    (hrefers : completion.RefersTo index) : other = index := by
  cases message with
  | register | poll =>
    cases hcomp
    exact hrefers
  | unregister =>
    cases hcomp
    cases hrefers
  | call | callback => cases hcomp

namespace Scheduler

variable {scheduler : Scheduler} {index : ℕ}

/-- The scheduler has a pointer to the executor. -/
inductive Refers (scheduler : Scheduler) (index : ℕ) : Prop
  | entry (h : scheduler.executors index = true)
  | poll (h : index ∈ scheduler.polls)
  | prepared (h : .add index ∈ scheduler.submissions)
  | completion {completion : SchedulerCompletion} (hmem : completion ∈ scheduler.completions)
    (hrefers : completion.RefersTo index)

theorem Refers.of_submit (h : scheduler.submit.Refers index) : scheduler.Refers index := by
  cases h with
  | entry h =>
    rw [executors_submit] at h
    exact .entry h
  | poll h => exact (mem_polls_of_submit h).elim .poll .prepared
  | prepared h =>
    rw [submissions_submit] at h
    cases h
  | completion hmem hrefers =>
    obtain ⟨count, hcomps⟩ := scheduler.completions_submit
    rw [hcomps] at hmem
    rcases mem_append.mp hmem with hmem | hfailed
    · exact .completion hmem hrefers
    · obtain rfl := eq_of_mem_replicate hfailed
      cases hrefers

/-- A request adds what it is for. -/
theorem Refers.of_prepare {request : PollRequest} (h : (scheduler.prepare request).Refers index) :
    scheduler.Refers index ∨ request = .add index := by
  -- The ring has an entry, or is submitted first.
  have hready {ready : Scheduler} (hbefore : ready.Refers index → scheduler.Refers index)
      (h : Refers { ready with submissions := ready.submissions ++ [request] } index) :
      scheduler.Refers index ∨ request = .add index := by
    cases h with
    | entry h => exact .inl (hbefore (.entry h))
    | poll h => exact .inl (hbefore (.poll h))
    | prepared h =>
      rcases mem_append.mp h with h | h
      · exact .inl (hbefore (.prepared h))
      · exact .inr (mem_singleton.mp h).symm
    | completion hmem hrefers => exact .inl (hbefore (.completion hmem hrefers))
  unfold prepare at h
  dsimp only at h
  split at h
  · exact hready id h
  · exact hready Refers.of_submit h

/-- Another array has the entries that are set in it. -/
theorem Refers.of_executors {executors : ℕ → Bool}
    (h : Refers { scheduler with executors := executors } index) :
    scheduler.Refers index ∨ executors index = true := by
  cases h with
  | entry h => exact .inr h
  | poll h => exact .inl (.poll h)
  | prepared h => exact .inl (.prepared h)
  | completion hmem hrefers => exact .inl (.completion hmem hrefers)

/-- The completion that is handled has the pointers that come of it. -/
theorem Refers.of_handle {completion : SchedulerCompletion} {completions : List SchedulerCompletion}
    (hcomps : scheduler.completions = completion :: completions)
    (h : ({ scheduler with completions := completions }.handle completion).2.Refers index) :
    scheduler.Refers index := by
  have hrest (h : Refers { scheduler with completions := completions } index) :
      scheduler.Refers index := by
    cases h with
    | entry h => exact .entry h
    | poll h => exact .poll h
    | prepared h => exact .prepared h
    | completion hmem hrefers =>
      refine .completion ?_ hrefers
      rw [hcomps]
      exact mem_cons_of_mem _ hmem
  have hfirst (hrefers : completion.RefersTo index) : scheduler.Refers index := by
    refine .completion ?_ hrefers
    rw [hcomps]
    exact mem_cons_self
  -- A poll is armed for the executor that the completion names.
  have hadd {other : ℕ} (hother : other = index → completion.RefersTo index)
      (h : (prepare (.add other) { scheduler with completions := completions }).Refers index) :
      scheduler.Refers index := by
    rcases h.of_prepare with h | heq
    · exact hrest h
    · exact hfirst (hother (PollRequest.add.inj heq))
  cases completion with
  | failed | pollin other => exact hrest h
  | poll other =>
    unfold handle at h
    dsimp only at h
    split at h
    · exact hadd id h
    · exact hrest h
  | register other =>
    rcases Refers.of_executors h with h | hent
    · exact hadd id h
    · by_cases heq : index = other
      · exact hfirst heq.symm
      · rw [Function.update_of_ne heq] at hent
        exact .entry hent
  | unregister other =>
    unfold handle at h
    dsimp only at h
    split at h
    · rcases Refers.of_executors h with h | hent
      · rcases h.of_prepare with h | heq
        · exact hrest h
        · cases heq
      · by_cases heq : index = other
        · rw [heq, Function.update_self] at hent
          cases hent
        · rw [Function.update_of_ne heq] at hent
          exact .entry hent
    · exact hrest h

end Scheduler

/-! ## Executors that are live -/

namespace Scheduling

variable {scheduling next : Scheduling} {action : SchedulingAction} {index : ℕ}

/-- The scheduler, or a message on its way to it, has a pointer to the executor. -/
def Refers (index : ℕ) (scheduling : Scheduling) : Prop :=
  scheduling.scheduler.Refers index ∨ ∃ scheduled, scheduling.executors[index]? = some scheduled ∧
    ∃ completion ∈ scheduled.wire index, completion.RefersTo index

/-- The executor was created, and is not destroyed. -/
def Live (index : ℕ) (scheduling : Scheduling) : Prop :=
  ∃ scheduled, scheduling.executors[index]? = some scheduled ∧ scheduled.executor.destroyed = false

/-- All pointers are to live executors, and the slot of an executor is there as long as its port is
open, so that posts are delivered. -/
structure RefersToLive (scheduling : Scheduling) : Prop where
  live : ∀ index, scheduling.Refers index → scheduling.Live index
  slot : ∀ (index : ℕ) (scheduled : Scheduled), scheduling.executors[index]? = some scheduled →
    scheduled.port = true → scheduled.slot = true

/-- The step destroys the executor. -/
def Destroys (index : ℕ) (scheduling : Scheduling) : SchedulingAction → Prop
  | .act place action => place = index ∧
    ∃ scheduled, scheduling.executors[index]? = some scheduled ∧ scheduled.executor.Destroys action
  | _ => False

/-- An executor that is destroyed has no pointers left. -/
def Released (scheduling : Scheduling) (action : SchedulingAction) : Prop :=
  ∀ index, scheduling.Destroys index action → ¬scheduling.Refers index

variable {completion : SchedulerCompletion}

/-- An executor that sends nothing has the messages that it had. -/
theorem mem_wire_of_sent {scheduled later : Scheduled} (hmem : completion ∈ later.wire index)
    (hsent : later.executor.native.sent = scheduled.executor.native.sent)
    (hdelivered : later.delivered = scheduled.delivered) : completion ∈ scheduled.wire index := by
  unfold Scheduled.wire at hmem ⊢
  rwa [hsent, hdelivered] at hmem

/-- A completion that comes to the ring of the scheduler was on its way there. -/
theorem mem_wire_deliver {scheduled : Scheduled} {message : RingMessage}
    (hmsg : scheduled.executor.native.sent[scheduled.delivered]? = some message)
    (hcomp : message.completion index = some completion) : completion ∈ scheduled.wire index := by
  obtain ⟨hlt, hget⟩ := List.getElem?_eq_some_iff.mp hmsg
  unfold Scheduled.wire
  rw [drop_eq_getElem_cons hlt, hget]
  exact mem_filterMap.mpr ⟨message, mem_cons_self, hcomp⟩

/-- Pointers that come with a step are to an executor that is live behind it. -/
theorem Refers.of_step (hsound : ∀ scheduled ∈ scheduling.executors, scheduled.Sound)
    (hstep : step scheduling action = some next) (h : next.Refers index) :
    scheduling.Refers index ∨ next.Live index := by
  have hmoves := step_moves hstep
  -- The pointer is at the scheduler, or on its way to it.
  rcases h with hscheduler | ⟨scheduled, hsched, completion, hmem, hrefers⟩
  · refine .inl ?_
    cases hmoves with
    | create | act | awake | drop | peek => exact .inl hscheduler
    | handle hcomps => exact .inl (Scheduler.Refers.of_handle hcomps hscheduler)
    | submit => exact .inl hscheduler.of_submit
    | @deliver place old message hold hmsg =>
      cases hscheduler with
      | entry h => exact .inl (.entry h)
      | poll h => exact .inl (.poll h)
      | prepared h => exact .inl (.prepared h)
      | @completion completion hmem hrefers =>
        rcases mem_append.mp hmem with hmem | hmem
        · exact .inl (.completion hmem hrefers)
        · have hcomp := Option.mem_toList.mp hmem
          obtain rfl := RingMessage.eq_of_refersTo hcomp hrefers
          exact .inr ⟨old, hold, completion, mem_wire_deliver hmsg hcomp, hrefers⟩
    | @pollin place hpoll =>
      cases hscheduler with
      | entry h => exact .inl (.entry h)
      | poll h => exact .inl (.poll (mem_of_mem_erase h))
      | prepared h => exact .inl (.prepared h)
      | completion hmem hrefers =>
        rcases mem_append.mp hmem with hmem | hmem
        · exact .inl (.completion hmem hrefers)
        · obtain rfl := mem_singleton.mp hmem
          obtain rfl : place = index := hrefers
          exact .inl (.poll hpoll)
  · cases hmoves with
    | drop | handle | submit | pollin =>
      exact .inl (.inr ⟨scheduled, hsched, completion, hmem, hrefers⟩)
    | create descriptor ringSize callbacks producers =>
      rcases getElem?_concat_eq_some.mp hsched with hsched | ⟨-, rfl⟩
      · exact .inl (.inr ⟨scheduled, hsched, completion, hmem, hrefers⟩)
      · cases hmem
    | @act place action old executor hold hpermits hexec =>
      rcases getElem?_setScheduled hold hsched with ⟨rfl, rfl⟩ | ⟨-, hother⟩
      · cases hdestr : executor.destroyed with
        | false => exact .inr ⟨_, hsched, hdestr⟩
        | true =>
          -- Nothing is sent behind `executor_destroy`.
          have hawake : action ≠ .awake := by
            rintro rfl
            cases hpermits
          obtain ⟨-, hsent⟩ := Executor.step_destroyed hawake hexec hdestr
          exact .inl (.inr ⟨old, hold, completion, mem_wire_of_sent hmem hsent rfl, hrefers⟩)
      · exact .inl (.inr ⟨scheduled, hother, completion, hmem, hrefers⟩)
    | @awake place old hold hopen hbegun =>
      rcases getElem?_setScheduled hold hsched with ⟨rfl, rfl⟩ | ⟨-, hother⟩
      · have hsent := old.executor.begins_awakeBegin.sent
        exact .inl (.inr ⟨old, hold, completion, mem_wire_of_sent hmem hsent rfl, hrefers⟩)
      · exact .inl (.inr ⟨scheduled, hother, completion, hmem, hrefers⟩)
    | @peek place old hold hbegun =>
      rcases getElem?_setScheduled hold hsched with ⟨rfl, rfl⟩ | ⟨-, hother⟩
      · have hlive := (hsound old (mem_of_getElem? hold)).awake hbegun
        obtain ⟨-, -, -, hdestr⟩ := old.executor.awakePeek_eq
        exact .inr ⟨_, hsched, hdestr.trans hlive⟩
      · exact .inl (.inr ⟨scheduled, hother, completion, hmem, hrefers⟩)
    | @deliver place old message hold hmsg =>
      rcases getElem?_setScheduled hold hsched with ⟨rfl, rfl⟩ | ⟨-, hother⟩
      · refine .inl (.inr ⟨old, hold, completion, ?_, hrefers⟩)
        obtain ⟨sent, hsent, hcomp⟩ := mem_filterMap.mp hmem
        rw [← tail_drop] at hsent
        exact mem_filterMap.mpr ⟨sent, mem_of_mem_tail hsent, hcomp⟩
      · exact .inl (.inr ⟨scheduled, hother, completion, hmem, hrefers⟩)

/-- An executor is live as long as no step destroys it. -/
theorem Live.step (h : scheduling.Live index) (hkeeps : ¬scheduling.Destroys index action)
    (hstep : step scheduling action = some next) : next.Live index := by
  obtain ⟨scheduled, hsched, hlive⟩ := h
  have hset {place : ℕ} {old later : Scheduled} (hold : scheduling.executors[place]? = some old)
      (hlater : place = index → old.executor.destroyed = false → later.executor.destroyed = false) :
      (scheduling.setScheduled place later).Live index := by
    by_cases heq : place = index
    · subst heq
      obtain rfl := Option.some.inj (hold.symm.trans hsched)
      exact ⟨later, getElem?_setScheduled_self hold, hlater rfl hlive⟩
    · exact ⟨scheduled, (getElem?_set_ne heq).trans hsched, hlive⟩
  cases step_moves hstep with
  | create =>
    refine ⟨scheduled, ?_, hlive⟩
    exact (getElem?_append_left (List.getElem?_eq_some_iff.mp hsched).1).trans hsched
  | drop | pollin | handle | submit => exact ⟨scheduled, hsched, hlive⟩
  | @act place action old executor hold hpermits hexec =>
    refine hset hold fun heq _ => ?_
    by_contra hdestr
    have hawake : action ≠ .awake := by
      rintro rfl
      cases hpermits
    have hdestroys := Executor.step_destroyed hawake hexec (Bool.eq_true_of_not_eq_false hdestr)
    exact hkeeps ⟨heq, old, heq ▸ hold, hdestroys.1⟩
  | awake hold =>
    exact hset hold fun _ hlive => (Executor.begins_awakeBegin _).destroyed.trans hlive
  | @peek place old hold hbegun =>
    obtain ⟨-, -, -, hdestr⟩ := old.executor.awakePeek_eq
    exact hset hold fun _ hlive => hdestr.trans hlive
  | deliver hold => exact hset hold fun _ hlive => hlive

/-- What destroys an executor leaves its pointers. -/
theorem refers_of_destroys (hdestroys : scheduling.Destroys index action)
    (hstep : step scheduling action = some next) :
    ¬next.Live index ∧ (scheduling.Refers index → next.Refers index) := by
  cases step_moves hstep with
  | @act place action old executor hold hpermits hexec =>
    obtain ⟨rfl, scheduled, hsched, hdestroys⟩ := hdestroys
    obtain rfl := Option.some.inj (hold.symm.trans hsched)
    obtain ⟨hdestr, hsent⟩ := Executor.destroyed_of_destroys hdestroys hexec
    constructor
    · rintro ⟨later, hlater, hlive⟩
      obtain rfl := Option.some.inj ((getElem?_setScheduled_self hold).symm.trans hlater)
      exact absurd (hdestr.symm.trans hlive) Bool.noConfusion
    · rintro (hscheduler | ⟨scheduled, hsched, completion, hmem, hrefers⟩)
      · exact .inl hscheduler
      · obtain rfl := Option.some.inj (hold.symm.trans hsched)
        refine .inr ⟨_, getElem?_setScheduled_self hold, completion, ?_, hrefers⟩
        exact mem_wire_of_sent hmem hsent.symm rfl
  | _ => cases hdestroys

/-- What holds behind every step in which an executor that is destroyed is released. -/
structure Tidy (scheduling : Scheduling) : Prop where
  sound : ∀ scheduled ∈ scheduling.executors, scheduled.Sound
  live : ∀ index, scheduling.Refers index → scheduling.Live index

theorem Tidy.step (h : scheduling.Tidy) (hrel : Released scheduling action)
    (hstep : step scheduling action = some next) : next.Tidy := by
  refine ⟨sound_step h.sound hstep, fun index hrefers => ?_⟩
  -- A pointer from before the step keeps its executor from being destroyed.
  rcases hrefers.of_step h.sound hstep with hrefers | hlive
  · exact (h.live index hrefers).step (fun hdestroys => hrel index hdestroys hrefers) hstep
  · exact hlive

theorem Tidy.refersToLive (h : scheduling.Tidy) : scheduling.RefersToLive := by
  refine ⟨h.live, fun index scheduled hsched hopen => ?_⟩
  have hsound := h.sound scheduled (mem_of_getElem? hsched)
  rw [hsound.slot, ← hsound.port]
  exact hopen

theorem tidy_create (ringSize : ℕ) {executors : ℕ → Bool} (hexecs : ∀ id, executors id = false) :
    (create ringSize executors).Tidy where
  sound := fun _ hmem => by cases hmem
  live := by
    rintro index (hscheduler | ⟨scheduled, hsched, -⟩)
    · cases hscheduler with
      | entry h =>
        have hzero : executors index = true := h
        rw [hexecs index] at hzero
        cases hzero
      | poll h => cases h
      | prepared h => cases h
      | completion hmem => cases hmem
    · cases hsched

/-- All pointers of the scheduler are to live executors, at every moment of a run. -/
def RefersToLiveThroughout (start : Scheduling) (actions : List SchedulingAction) : Prop :=
  ∀ (front back : List SchedulingAction) (scheduling : Scheduling), actions = front ++ back →
    run step start front = some scheduling → scheduling.RefersToLive

/-- The pointers of the scheduler are to live executors if and only if its array is zero in the
beginning and every executor that is destroyed is released. -/
theorem refersToLiveThroughout_iff (ringSize : ℕ) (executors : ℕ → Bool)
    {actions : List SchedulingAction} {last : Scheduling}
    (hrun : run step (create ringSize executors) actions = some last) :
    RefersToLiveThroughout (create ringSize executors) actions ↔
      (∀ id, executors id = false) ∧ Along step Released (create ringSize executors) actions := by
  constructor
  · refine fun hthroughout => ⟨fun id => ?_, ?_⟩
    · -- There are no executors in the beginning.
      by_contra hentry
      have hstart := hthroughout [] actions _ rfl rfl
      obtain ⟨scheduled, hscheduled, -⟩ :=
        hstart.live id (.inl (.entry (Bool.eq_true_of_not_eq_false hentry)))
      cases hscheduled
    · by_contra halong
      obtain ⟨front, action, back, scheduling, rfl, -, hfront, hnot⟩ := exists_of_not_along halong
      obtain ⟨next, hnext⟩ := exists_step_of_run hrun hfront
      unfold Released at hnot
      push Not at hnot
      obtain ⟨index, hdestroys, hrefers⟩ := hnot
      -- The pointers stay, and the executor is gone.
      obtain ⟨hgone, hkeeps⟩ := refers_of_destroys hdestroys hnext
      have hlast := hthroughout (front ++ [action]) back next (by simp) (run_concat hfront hnext)
      exact hgone (hlast.live index (hkeeps hrefers))
  · rintro ⟨hexecutors, halong⟩ front back scheduling rfl hfront
    have htidy : scheduling.Tidy :=
      run_induction (fun _ scheduling => scheduling.Tidy)
        (fun _ _ _ _ h hreleased hstep => h.step hreleased hstep) (tidy_create ringSize hexecutors)
        (along_append halong) hfront
    exact htidy.refersToLive

/-- An executor that is destroyed behind the end of its registration. -/
theorem refersToLiveThroughout_iff_released :
    RefersToLiveThroughout (create 8 fun _ => false) [.create 3 8 [1] 1, .act 0 (.user .activate),
        .deliver 0, .handle, .submit, .act 0 (.user .deactivate), .deliver 0, .handle, .submit,
        .act 0 (.user .shutdown)] ↔
      (∀ id : ℕ, (fun _ => false) id = false) ∧
        Along step Released (create 8 fun _ => false) [.create 3 8 [1] 1, .act 0 (.user .activate),
          .deliver 0, .handle, .submit, .act 0 (.user .deactivate), .deliver 0, .handle, .submit,
          .act 0 (.user .shutdown)] :=
  refersToLiveThroughout_iff 8 (fun _ => false) rfl

/-- `shutdown` without a `deactivate` before it: the entry of the array and the poll stay. -/
theorem not_refersToLiveThroughout : ¬∀ (ringSize : ℕ) (executors : ℕ → Bool)
    (actions : List SchedulingAction) (last : Scheduling),
    run step (create ringSize executors) actions = some last →
      RefersToLiveThroughout (create ringSize executors) actions := by
  intro hall
  have hlast := hall 8 (fun _ => false) [.create 3 8 [1] 1, .act 0 (.user .activate), .deliver 0,
    .handle, .submit, .act 0 (.user .shutdown)] _ rfl _ [] _ (List.append_nil _).symm rfl
  obtain ⟨scheduled, hscheduled, hlive⟩ := hlast.live 0 (.inl (.entry rfl))
  cases hscheduled
  exact absurd hlive (by decide)

end Scheduling

end FengShui.Executors
