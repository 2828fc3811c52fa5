import FengShui.Executor.NoLostWakeup

/-!
# Submissions that are left in the ring (`executor/executor.c`, `executor/consumer.dart`)

A task is submitted at once where its executor is idle, and by the next wakeup otherwise. In a
wakeup that follows in time; behind `shutdown`, `deactivate`, or an exception in a wakeup the
executor is not idle either, and nothing may wake it. `nothingStranded_iff` says when that happens.
-/

namespace FengShui.Executors

open Transition List

/-- The message of `executor_call_native` or `executor_callback_to_native`. -/
def RingMessage.isTask : RingMessage → Bool
  | call _ | callback _ => true
  | register | poll | unregister => false

/-- The executor is not in a wakeup. -/
def Scheduled.Outside (scheduled : Scheduled) : Prop :=
  scheduled.executor.batch = none ∧ scheduled.begun = false

namespace Scheduling

/-- No task is left in the ring. -/
def NoneLeft (native : ExecutorInstance) : Prop :=
  ∀ message ∈ native.submissions, message.isTask = false

/-- A wakeup of the executor follows, and finds the entry that it needs to submit. -/
structure WillSubmit (index : ℕ) (scheduled : Scheduled) (scheduling : Scheduling) : Prop where
  wakes : scheduled.executor.Wakes
  entry : HasEntry scheduled.executor.native
  follows : index ∈ scheduling.posted ∨
    scheduled.executor.native.completions ≠ [] ∧ scheduled.Registered ∧
      scheduling.Wakeable index scheduled

/-- A post is outstanding, or a completion of a registered executor. -/
def Due (index : ℕ) (scheduled : Scheduled) (scheduling : Scheduling) : Prop :=
  index ∈ scheduling.posted ∨ scheduled.executor.native.completions ≠ [] ∧ scheduled.Registered

/-- A task is prepared outside a wakeup, and the executor is not idle. -/
def Leaves (scheduled : Scheduled) : Action → Prop
  | .user (.call ..) | .settle _ true =>
    scheduled.Outside ∧ HasEntry scheduled.executor.native ∧ scheduled.executor.native.state ≠ .idle
  | _ => False

/-- An exception ends a wakeup. -/
def BreaksOff (executor : Executor) : Action → Prop
  | .leave .throws => True
  | .turn => ∃ index count completion, executor.batch = some ⟨index, count, none⟩ ∧
    executor.native.completions[index]? = some completion ∧ ¬executor.Answerable completion
  | _ => False

/-- A task is left in the ring only where a post or a completion is outstanding, the state word is
one of an executor that wakes up, and the ring has an entry besides. -/
def Attends (scheduling : Scheduling) : SchedulingAction → Prop
  | .act index action => ∀ scheduled, scheduling.executors[index]? = some scheduled →
    (Leaves scheduled action → scheduled.executor.Wakes ∧
      scheduled.executor.native.submissions.length + 1 < scheduled.executor.native.entries ∧
      scheduling.Due index scheduled) ∧
    (BreaksOff scheduled.executor action → NoneLeft scheduled.executor.native ∨
      scheduled.executor.Wakes ∧ HasEntry scheduled.executor.native ∧
        scheduling.Due index scheduled)
  | _ => True

end Scheduling

/-! ## What a task does to its ring -/

namespace ExecutorInstance

open Scheduling (HasEntry)

variable {native : ExecutorInstance}

/-- How a task comes to its ring. -/
inductive Puts (native : ExecutorInstance) : ExecutorInstance → Prop
  /-- There is no entry. -/
  | full (hfull : ¬HasEntry native) : Puts native native
  | submitted {message : RingMessage} (htask : message.isTask = true) (hentry : HasEntry native)
      (hstate : native.state = .idle) :
    Puts native { native with
      submissions := [], sent := native.sent ++ (native.submissions ++ [message]) }
  | left {message : RingMessage} (htask : message.isTask = true) (hentry : HasEntry native)
      (hstate : native.state ≠ .idle) :
    Puts native { native with submissions := native.submissions ++ [message] }

/-- A message that is prepared, and submitted by an executor that is idle. -/
theorem puts_prepare {message : RingMessage} (htask : message.isTask = true) :
    Puts native (match native.prepare message with
      | none => native
      | some prepared => prepared.submit) := by
  unfold prepare
  by_cases hent : native.submissions.length < native.entries
  · rw [if_pos hent]
    dsimp only
    unfold submit
    by_cases hstate : native.state = .idle
    · rw [if_pos hstate]
      exact .submitted htask hent hstate
    · rw [if_neg hstate]
      exact .left htask hent hstate
  · rw [if_neg hent]
    exact .full hent

theorem puts_callNative (target : ℕ) (task : ExecutorTask) :
    Puts native (native.callNative target task).2 := by
  have hputs := @puts_prepare native
    (.call { task with source := native.descriptor, target := target }) rfl
  unfold callNative
  cases hprepare :
    native.prepare (.call { task with source := native.descriptor, target := target }) with
  | none =>
    rw [hprepare] at hputs
    exact hputs
  | some prepared =>
    rw [hprepare] at hputs
    exact hputs

theorem puts_callbackToNative (task : ExecutorTask) :
    Puts native (native.callbackToNative task).2 := by
  have hputs := @puts_prepare native
    (.callback { task with source := native.descriptor, target := task.source }) rfl
  unfold callbackToNative
  cases hprepare :
    native.prepare (.callback { task with source := native.descriptor, target := task.source }) with
  | none =>
    rw [hprepare] at hputs
    exact hputs
  | some prepared =>
    rw [hprepare] at hputs
    exact hputs

end ExecutorInstance

/-- A call of another executor, at the ring. -/
theorem Executor.puts_userCall (executor : Executor) (owner method target address : ℕ) :
    ExecutorInstance.Puts executor.native
      (executor.userCall (.call owner method target address)).native := by
  have hputs := @ExecutorInstance.puts_callNative executor.native target
    ⟨address, 0, 0, owner, method, false⟩
  unfold Executor.userCall
  dsimp only
  split
  · next hcall =>
    rw [hcall] at hputs
    exact hputs
  · next hcall =>
    rw [hcall] at hputs
    exact hputs

/-- `shutdown` leaves the ring, but for the mark. -/
theorem Executor.native_shutdown (executor : Executor) :
    executor.shutdown.native = { executor.native with state := .stopping } ∧
      executor.shutdown.batch = executor.batch := by
  unfold Executor.shutdown
  dsimp only
  split
  · exact ⟨rfl, rfl⟩
  · exact ⟨rfl, rfl⟩

/-! ## An executor behind every step -/

namespace Scheduling

open ExecutorInstance

/-- What holds of an executor and its ring, where a post for it is outstanding or not. -/
structure Held (scheduled : Scheduled) (posted : Prop) : Prop where
  entry : scheduled.Registered → 0 < scheduled.executor.native.entries
  begun : scheduled.begun = true → scheduled.executor.batch = none
  /-- Everything else is submitted where it is prepared, but for the poll of a wakeup. -/
  tasks : scheduled.begun = false →
    ∀ message ∈ scheduled.executor.native.submissions, message.isTask = true
  /-- Inside a wakeup `deactivate` may not find an entry, and leaves the mark only. -/
  awakens : scheduled.Registered → scheduled.executor.Wakes ∨
    scheduled.executor.batch ≠ none ∧ ¬HasEntry scheduled.executor.native
  attends : scheduled.Outside → NoneLeft scheduled.executor.native ∨
    scheduled.executor.Wakes ∧ HasEntry scheduled.executor.native ∧
      (posted ∨ scheduled.executor.native.completions ≠ [] ∧ scheduled.Registered)

variable {scheduled later : Scheduled} {posted posted' : Prop}

variable {executor : Executor}

/-- A step that sends nothing leaves the registration. -/
theorem registered_update (hsent : executor.native.sent = scheduled.executor.native.sent) :
    (scheduled.update executor).Registered ↔ scheduled.Registered := by
  unfold Scheduled.Registered Scheduled.update
  rw [hsent]

theorem noneLeft_of_nil {native : ExecutorInstance} (h : native.submissions = []) :
    NoneLeft native := by
  unfold NoneLeft
  rw [h]
  exact nofun

/-- A ring of tasks of which none is left. -/
theorem Held.nil_of_noneLeft (h : Held scheduled posted) (hbegun : scheduled.begun = false)
    (hnone : NoneLeft scheduled.executor.native) : scheduled.executor.native.submissions = [] := by
  apply eq_nil_iff_forall_not_mem.mpr
  intro message hmem
  have htask := h.tasks hbegun message hmem
  rw [hnone message hmem] at htask
  cases htask

/-- The ring of a registered executor is full of tasks. -/
theorem Held.not_noneLeft (h : Held scheduled posted) (hbegun : scheduled.begun = false)
    (hreg : scheduled.Registered) (hfull : ¬HasEntry scheduled.executor.native) :
    ¬NoneLeft scheduled.executor.native := by
  intro hnone
  have hent := h.entry hreg
  apply hfull
  unfold HasEntry
  rwa [h.nil_of_noneLeft hbegun hnone]

/-- Outside its wakeups a full ring has nothing left, so that it has no entries. -/
theorem Held.noneLeft_of_full (h : Held scheduled posted) (houtside : scheduled.Outside)
    (hfull : ¬HasEntry scheduled.executor.native) : NoneLeft scheduled.executor.native := by
  rcases h.attends houtside with hnone | ⟨-, hent, -⟩
  · exact hnone
  · exact absurd hent hfull

/-- A registered executor outside its wakeups has an entry. -/
theorem Held.hasEntry (h : Held scheduled posted) (houtside : scheduled.Outside)
    (hreg : scheduled.Registered) : HasEntry scheduled.executor.native := by
  by_contra hfull
  exact h.not_noneLeft houtside.2 hreg hfull (h.noneLeft_of_full houtside hfull)

/-- A registered executor outside its wakeups wakes up. -/
theorem Held.wakes (h : Held scheduled posted) (hbatch : scheduled.executor.batch = none)
    (hreg : scheduled.Registered) : scheduled.executor.Wakes :=
  (h.awakens hreg).resolve_right fun hinside => hinside.1 hbatch

/-- A post does not go away. -/
theorem Held.mono (h : Held scheduled posted) (himp : posted → posted') :
    Held scheduled posted' := by
  obtain ⟨hent, hbegun, htasks, hawakens, hattends⟩ := h
  refine ⟨hent, hbegun, htasks, hawakens, fun houtside => ?_⟩
  exact (hattends houtside).imp_right fun ⟨hwakes, hfree, hdue⟩ =>
    ⟨hwakes, hfree, hdue.imp_left himp⟩

/-- Everything is submitted, and the executor wakes up. -/
theorem held_of_nil (hent : scheduled.Registered → 0 < scheduled.executor.native.entries)
    (hbegun : scheduled.begun = false) (hsubs : scheduled.executor.native.submissions = [])
    (hwakes : scheduled.Registered → scheduled.executor.Wakes) : Held scheduled posted where
  entry := hent
  begun := fun htrue => by
    rw [hbegun] at htrue
    cases htrue
  tasks := fun _ message hmem => by
    rw [hsubs] at hmem
    cases hmem
  awakens := fun hreg => .inl (hwakes hreg)
  attends := fun _ => .inl (noneLeft_of_nil hsubs)

/-- A step that leaves what is prepared, but for more completions and another mark. -/
theorem Held.keeps (h : Held scheduled posted)
    (hring : executor.native.entries = scheduled.executor.native.entries)
    (hsubs : executor.native.submissions = scheduled.executor.native.submissions)
    (hsent : executor.native.sent = scheduled.executor.native.sent)
    (hcomps : scheduled.executor.native.completions ≠ [] → executor.native.completions ≠ [])
    (hwakes : scheduled.executor.Wakes → executor.Wakes)
    (hbatch : executor.batch = none ↔ scheduled.executor.batch = none) :
    Held (scheduled.update executor) posted := by
  have hreg : (scheduled.update executor).Registered ↔ scheduled.Registered :=
    registered_update hsent
  have hent : HasEntry executor.native ↔ HasEntry scheduled.executor.native := by
    unfold HasEntry
    rw [hring, hsubs]
  constructor
  · intro hlater
    show 0 < executor.native.entries
    rw [hring]
    exact h.entry (hreg.mp hlater)
  · exact fun hbegun => hbatch.mpr (h.begun hbegun)
  · show scheduled.begun = false → ∀ message ∈ executor.native.submissions, message.isTask = true
    rw [hsubs]
    exact h.tasks
  · intro hlater
    show executor.Wakes ∨ executor.batch ≠ none ∧ ¬HasEntry executor.native
    rw [hent, ne_eq, hbatch]
    exact (h.awakens (hreg.mp hlater)).imp_left hwakes
  · rintro ⟨hnone, hbegun⟩
    show NoneLeft executor.native ∨ executor.Wakes ∧ HasEntry executor.native ∧
      (posted ∨ executor.native.completions ≠ [] ∧ (scheduled.update executor).Registered)
    unfold NoneLeft
    rw [hsubs, hent, hreg]
    apply (h.attends ⟨hbatch.mp hnone, hbegun⟩).imp_right
    rintro ⟨hbefore, hfree, hdue⟩
    exact ⟨hwakes hbefore, hfree, hdue.imp_right fun ⟨hsome, hin⟩ => ⟨hcomps hsome, hin⟩⟩

/-- A step that leaves the ring as it is, but for the mark. -/
theorem Held.marks (h : Held scheduled posted) {state : ExecutorState}
    (hnative : executor.native = { scheduled.executor.native with state := state })
    (hwakes : scheduled.executor.Wakes → executor.Wakes)
    (hbatch : executor.batch = none ↔ scheduled.executor.batch = none) :
    Held (scheduled.update executor) posted := by
  apply h.keeps
  · rw [hnative]
  · rw [hnative]
  · rw [hnative]
  · rw [hnative]
    exact id
  · exact hwakes
  · exact hbatch

/-- A step that leaves the ring as it is. -/
theorem Held.keeps_native (h : Held scheduled posted)
    (hnative : executor.native = scheduled.executor.native)
    (hbatch : executor.batch = none ↔ scheduled.executor.batch = none) :
    Held (scheduled.update executor) posted := by
  apply h.marks hnative
  · exact (wakes_congr (by rw [hnative])).mpr
  · exact hbatch

/-- A wakeup ends with an exception. -/
theorem Held.breaks (h : Held scheduled posted) (hbegun : scheduled.begun = false)
    (hnative : executor.native = scheduled.executor.native)
    (hbreaks : NoneLeft scheduled.executor.native ∨
      scheduled.executor.Wakes ∧ HasEntry scheduled.executor.native ∧
        (posted ∨ scheduled.executor.native.completions ≠ [] ∧ scheduled.Registered)) :
    Held (scheduled.update executor) posted := by
  have hreg : (scheduled.update executor).Registered ↔ scheduled.Registered :=
    registered_update (by rw [hnative])
  have hwakes : executor.Wakes ↔ scheduled.executor.Wakes := wakes_congr (by rw [hnative])
  constructor
  · rw [hreg]
    exact fun hbefore => hnative ▸ h.entry hbefore
  · intro htrue
    exact absurd (hbegun.symm.trans htrue) Bool.false_ne_true
  · intro _
    show ∀ message ∈ executor.native.submissions, message.isTask = true
    rw [hnative]
    exact h.tasks hbegun
  · intro hlater
    have hbefore := hreg.mp hlater
    apply Or.inl
    apply hwakes.mpr
    rcases h.awakens hbefore with hwakes | ⟨-, hfull⟩
    · exact hwakes
    · rcases hbreaks with hnone | ⟨hwakes, -⟩
      · exact absurd hnone (h.not_noneLeft hbegun hbefore hfull)
      · exact hwakes
  · intro _
    show NoneLeft executor.native ∨ executor.Wakes ∧ HasEntry executor.native ∧
      (posted ∨ executor.native.completions ≠ [] ∧ (scheduled.update executor).Registered)
    rw [hreg, hwakes, hnative]
    exact hbreaks

/-- A task comes to the ring. -/
theorem Held.puts (h : Held scheduled posted) (hbegun : scheduled.begun = false)
    (hputs : ExecutorInstance.Puts scheduled.executor.native executor.native)
    (hbatch : executor.batch = scheduled.executor.batch)
    (hleaves : scheduled.Outside → HasEntry scheduled.executor.native →
      scheduled.executor.native.state ≠ .idle → scheduled.executor.Wakes ∧
        scheduled.executor.native.submissions.length + 1 < scheduled.executor.native.entries ∧
        (posted ∨ scheduled.executor.native.completions ≠ [] ∧ scheduled.Registered)) :
    Held (scheduled.update executor) posted := by
  generalize hnative : executor.native = native at hputs
  cases hputs with
  | full => exact h.keeps_native hnative (by rw [hbatch])
  | @submitted message htask hent hstate =>
    apply held_of_nil
    · intro _
      show 0 < executor.native.entries
      rw [hnative]
      exact Nat.zero_lt_of_lt hent
    · exact hbegun
    · show executor.native.submissions = []
      rw [hnative]
    · intro _
      show executor.Wakes
      apply wakes_of_idle
      rw [hnative]
      exact hstate
  | @left message htask hent hstate =>
    have hreg : (scheduled.update executor).Registered ↔ scheduled.Registered :=
      registered_update (by rw [hnative])
    have hwakes : executor.Wakes ↔ scheduled.executor.Wakes := wakes_congr (by rw [hnative])
    constructor
    · rw [hreg]
      exact fun hbefore => hnative ▸ h.entry hbefore
    · intro htrue
      exact absurd (hbegun.symm.trans htrue) Bool.false_ne_true
    · intro _
      show ∀ other ∈ executor.native.submissions, other.isTask = true
      rw [hnative]
      exact forall_mem_append.mpr ⟨h.tasks hbegun, forall_mem_singleton.mpr htask⟩
    · intro hlater
      apply Or.inl
      apply hwakes.mpr
      -- There was an entry, so that `deactivate` left nothing but the mark.
      exact (h.awakens (hreg.mp hlater)).resolve_right fun hfull => hfull.2 hent
    · rintro ⟨hnone, -⟩
      have houtside : scheduled.Outside := ⟨hbatch.symm.trans hnone, hbegun⟩
      obtain ⟨hbefore, hfree, hdue⟩ := hleaves houtside hent hstate
      apply Or.inr
      refine ⟨hwakes.mpr hbefore, ?_, ?_⟩
      · show executor.native.submissions.length < executor.native.entries
        rw [hnative]
        dsimp only
        rwa [length_append, length_singleton]
      · rw [hreg]
        show posted ∨ executor.native.completions ≠ [] ∧ scheduled.Registered
        rw [hnative]
        exact hdue

/-- `executor_register_on_scheduler` comes to the ring. -/
theorem Held.activates (h : Held scheduled posted) (hbegun : scheduled.begun = false) :
    Held (scheduled.update (scheduled.executor.userCall .activate)) posted := by
  by_cases hent : HasEntry scheduled.executor.native
  · have hnative : scheduled.executor.native.registerOnScheduler.2 =
        { scheduled.executor.native with
          state := .idle
          submissions := []
          sent := scheduled.executor.native.sent ++
              (scheduled.executor.native.submissions ++ [.register]) } := by
      unfold registerOnScheduler prepare
      dsimp only
      rw [if_pos (show scheduled.executor.native.submissions.length <
        scheduled.executor.native.entries from hent)]
      rfl
    apply held_of_nil
    · intro _
      show 0 < scheduled.executor.native.registerOnScheduler.2.entries
      rw [hnative]
      exact Nat.zero_lt_of_lt hent
    · exact hbegun
    · show scheduled.executor.native.registerOnScheduler.2.submissions = []
      rw [hnative]
    · exact fun _ => wakes_of_idle (Executor.registerOnScheduler_eq _).1
  -- The executor is idle from here on, with what it had.
  · have hnative : (scheduled.executor.userCall .activate).native =
        { scheduled.executor.native with state := .idle } := by
      show scheduled.executor.native.registerOnScheduler.2 = _
      unfold registerOnScheduler prepare
      dsimp only
      rw [if_neg (show ¬scheduled.executor.native.submissions.length <
        scheduled.executor.native.entries from hent)]
    apply h.marks hnative
    · exact fun _ => wakes_of_idle (congrArg ExecutorInstance.state hnative)
    · exact Iff.rfl

/-- `executor_unregister_from_scheduler` comes to the ring. -/
theorem Held.deactivates (h : Held scheduled posted) (hbegun : scheduled.begun = false) :
    Held (scheduled.update (scheduled.executor.userCall .deactivate)) posted := by
  by_cases hent : HasEntry scheduled.executor.native
  · have hnative : (scheduled.executor.native.unregisterFromScheduler false).2 =
        { scheduled.executor.native with
          state := .paused
          submissions := []
          sent := scheduled.executor.native.sent ++
            (scheduled.executor.native.submissions ++ [.unregister]) } := by
      unfold unregisterFromScheduler prepare
      dsimp only
      rw [if_pos (show scheduled.executor.native.submissions.length <
        scheduled.executor.native.entries from hent)]
      rfl
    have hnot : ¬(scheduled.update (scheduled.executor.userCall .deactivate)).Registered := by
      apply Scheduled.not_registered_of_sent
      show (scheduled.executor.native.unregisterFromScheduler false).2.sent = _
      rw [hnative]
      exact (append_assoc ..).symm
    apply held_of_nil
    · exact fun hreg => absurd hreg hnot
    · exact hbegun
    · show (scheduled.executor.native.unregisterFromScheduler false).2.submissions = []
      rw [hnative]
    · exact fun hreg => absurd hreg hnot
  -- The mark is all that is left.
  · have hnative : (scheduled.executor.userCall .deactivate).native =
        { scheduled.executor.native with state := .paused } := by
      show (scheduled.executor.native.unregisterFromScheduler false).2 = _
      unfold unregisterFromScheduler prepare
      dsimp only
      rw [if_neg (show ¬scheduled.executor.native.submissions.length <
        scheduled.executor.native.entries from hent)]
      rfl
    have hreg : (scheduled.update (scheduled.executor.userCall .deactivate)).Registered ↔
        scheduled.Registered := registered_update (by rw [hnative])
    constructor
    · rw [hreg]
      show scheduled.Registered → 0 < (scheduled.executor.userCall .deactivate).native.entries
      rw [hnative]
      exact h.entry
    · exact h.begun
    · show scheduled.begun = false →
        ∀ message ∈ (scheduled.executor.userCall .deactivate).native.submissions,
          message.isTask = true
      rw [hnative]
      exact h.tasks
    · intro hlater
      apply Or.inr
      constructor
      · intro hnone
        exact hent (h.hasEntry ⟨hnone, hbegun⟩ (hreg.mp hlater))
      · show ¬HasEntry (scheduled.executor.userCall .deactivate).native
        rw [hnative]
        exact hent
    · intro houtside
      apply Or.inl
      show NoneLeft (scheduled.executor.userCall .deactivate).native
      rw [hnative]
      exact h.noneLeft_of_full houtside hent

/-- A task is no message about a registration. -/
theorem registration_of_isTask {message : RingMessage} (h : message.isTask = true) :
    message.registration = none := by
  cases message with
  | register | poll | unregister => cases h
  | call | callback => rfl

/-- The end of a wakeup submits. -/
theorem Held.finishes (h : Held scheduled posted) (hbegun : scheduled.begun = false) (count : ℕ) :
    Held (scheduled.update (scheduled.executor.finish count)) posted := by
  rw [Executor.finish_eq]
  apply held_of_nil
  · intro hlater
    have hplain : ∀ message ∈ scheduled.executor.native.submissions, message.registration = none :=
      fun message hmem => registration_of_isTask (h.tasks hbegun message hmem)
    exact h.entry ((Scheduled.registered_of_sent rfl hplain).mp hlater)
  · exact hbegun
  · rfl
  · exact fun _ => wakes_of_idle rfl

/-- A step of an executor, but for its wakeups. -/
theorem Held.act {scheduling : Scheduling} {index : ℕ} {action : Action}
    (h : Held scheduled (index ∈ scheduling.posted))
    (hsched : scheduling.executors[index]? = some scheduled)
    (hpermits : permits scheduled action = true)
    (hattends : scheduling.Attends (.act index action))
    (hstep : scheduled.executor.step action = some executor) :
    Held (scheduled.update executor) (index ∈ scheduling.posted) := by
  obtain ⟨hleaves, hbreaks⟩ := hattends scheduled hsched
  obtain ⟨-, hmove⟩ := Executor.step_move hstep
  have hbegun (hpost : ∀ completion, action ≠ .post completion) : scheduled.begun = false := by
    cases action with
    | post completion => exact absurd rfl (hpost completion)
    | awake => cases hpermits
    | turn | leave | finish | user | settle | complete | proceed => simpa [permits] using hpermits
  cases hmove with
  | post completion =>
    apply h.keeps
    · rfl
    · rfl
    · rfl
    · exact fun _ => append_ne_nil_of_right_ne_nil _ (cons_ne_nil _ _)
    · exact id
    · exact Iff.rfl
  | awake => cases hpermits
  | @turn place count completion hbatch hcomp =>
    by_cases hanswerable : scheduled.executor.Answerable completion
    · obtain ⟨broker, batch, hturn, -⟩ :=
        @Executor.turn_of_answerable _ place count completion hanswerable
      rw [hturn]
      apply h.keeps_native
      · rfl
      · rw [hbatch]
        exact iff_of_false (Option.some_ne_none _) (Option.some_ne_none _)
    · apply h.breaks (hbegun (by simp)) (Executor.native_turn _ _ _)
      exact hbreaks ⟨place, count, completion, hbatch, hcomp, hanswerable⟩
  | returns hbatch =>
    apply h.keeps_native
    · rfl
    · rw [hbatch]
      exact iff_of_false (Option.some_ne_none _) (Option.some_ne_none _)
  | throws => exact h.breaks (hbegun (by simp)) rfl (hbreaks trivial)
  | finish => exact h.finishes (hbegun (by simp)) _
  | user call =>
    cases call with
    | shutdown =>
      obtain ⟨hnative, hbatch⟩ := scheduled.executor.native_shutdown
      have hlater : (scheduled.executor.userCall .shutdown).native =
          { scheduled.executor.native with state := .stopping } := hnative
      apply h.marks hlater
      · exact wakes_of_calm (.inr (.inr (congrArg ExecutorInstance.state hlater)))
      · exact Iff.of_eq (congrArg (· = none) hbatch)
    | activate => exact h.activates (hbegun (by simp))
    | deactivate => exact h.deactivates (hbegun (by simp))
    | call owner method target address =>
      apply h.puts (hbegun (by simp)) (Executor.puts_userCall ..)
      · obtain ⟨native, broker, hcall, -⟩ :=
          scheduled.executor.userCall_call owner method target address
        rw [hcall]
      · exact fun houtside hent hstate => hleaves ⟨houtside, hent, hstate⟩
  | @settle place task hbatch succeeded =>
    cases succeeded with
    | false => exact h.keeps_native rfl Iff.rfl
    | true =>
      apply h.puts (hbegun (by simp))
      · exact puts_callbackToNative task
      · rfl
      · exact fun houtside hent hstate => hleaves ⟨houtside, hent, hstate⟩
  | complete => exact h.keeps_native rfl Iff.rfl
  | proceed => exact h.keeps_native rfl Iff.rfl

/-- A wakeup begins. -/
theorem Held.awakeBegin (h : Held scheduled posted) (hbatch : scheduled.executor.batch = none)
    (hbegun : scheduled.begun = false) :
    Held { scheduled with
      executor := scheduled.executor.awakeBegin.2, begun :=
  scheduled.executor.awakeBegin.1 } posted' := by
  have hbegins := scheduled.executor.begins_awakeBegin
  have hwakes := h.wakes hbatch
  have hent := h.hasEntry ⟨hbatch, hbegun⟩
  have hattends := h.attends ⟨hbatch, hbegun⟩
  generalize scheduled.executor.awakeBegin = result at hbegins ⊢
  cases hbegins with
  | stopped hstate =>
    have hnot : ¬scheduled.executor.Wakes := fun hwakes => hwakes.1 hstate
    refine ⟨h.entry, fun _ => hbatch, fun _ => h.tasks hbegun, fun hreg => ?_, fun _ => ?_⟩
    · exact absurd (hwakes hreg) hnot
    · exact hattends.imp_right fun ⟨hbefore, _⟩ => absurd hbefore hnot
  | paused hstate =>
    have hnot : ¬scheduled.executor.Wakes := fun hwakes => hwakes.2 hstate
    refine ⟨h.entry, fun _ => hbatch, fun _ => h.tasks hbegun, fun hreg => ?_, fun _ => ?_⟩
    · exact absurd (hwakes hreg) hnot
    · exact hattends.imp_right fun ⟨hbefore, _⟩ => absurd hbefore hnot
  | full _ hfull =>
    have hnot : ¬HasEntry scheduled.executor.native := Nat.not_lt.mpr hfull
    refine ⟨h.entry, fun _ => hbatch, fun _ => h.tasks hbegun, fun hreg => ?_, fun _ => ?_⟩
    · exact absurd (hent hreg) hnot
    · exact .inl (h.noneLeft_of_full ⟨hbatch, hbegun⟩ hnot)
  | begins =>
    constructor
    · exact h.entry
    · exact fun _ => hbatch
    · intro hfalse
      cases hfalse
    · exact fun _ => .inl (wakes_of_waking rfl)
    · intro houtside
      cases houtside.2

/-- With `executor_peek` everything is submitted. -/
theorem Held.awakePeek (h : Held scheduled posted) (hsound : scheduled.Sound)
    (hbegun : scheduled.begun = true) :
    Held { scheduled with executor := scheduled.executor.awakePeek, begun := false } posted' := by
  obtain ⟨hsent, hsubs, hstate, -⟩ := scheduled.executor.awakePeek_eq
  have hring : scheduled.executor.awakePeek.native.entries = scheduled.executor.native.entries := by
    unfold Executor.awakePeek ExecutorInstance.peek
    dsimp only
    split
    · rfl
    · rfl
  have hreg (hlater : Scheduled.Registered
      { scheduled with executor := scheduled.executor.awakePeek, begun := false }) :
      scheduled.Registered :=
    (Scheduled.registered_of_sent hsent hsound.plain).mp hlater
  apply held_of_nil
  · intro hlater
    show 0 < scheduled.executor.awakePeek.native.entries
    rw [hring]
    exact h.entry (hreg hlater)
  · rfl
  · exact hsubs
  · intro hlater
    exact wakes_of_calm (hstate.imp_right .inl) (h.wakes (h.begun hbegun) (hreg hlater))

end Scheduling

/-! ## What stirs an executor, whatever its mark -/

/-- The executor as if it were in a wakeup. -/
def Scheduled.roused (scheduled : Scheduled) : Scheduled :=
  { scheduled with executor := { scheduled.executor with
      native := { scheduled.executor.native with state := .waking } } }

theorem Scheduled.Sound.roused {scheduled : Scheduled} (h : scheduled.Sound) :
    scheduled.roused.Sound :=
  ⟨h.plain, h.delivered, h.begun, h.awake, h.port, h.slot⟩

theorem Scheduled.wakes_roused (scheduled : Scheduled) : scheduled.roused.executor.Wakes :=
  Scheduling.wakes_of_waking rfl

namespace Scheduling

open ExecutorInstance

variable {scheduling next : Scheduling} {action : SchedulingAction} {index : ℕ}
  {scheduled later : Scheduled}

/-- The mark, and the other executors, are no part of it. -/
theorem Watched.rouse (h : scheduling.Watched index scheduled)
    (hlater : later.roused = scheduled.roused)
    (hscheduler : next.scheduler = scheduling.scheduler)
    (hposted : next.posted = scheduling.posted) : next.Watched index later.roused := by
  obtain ⟨scheduler, others, posts⟩ := next
  obtain rfl : scheduler = scheduling.scheduler := hscheduler
  obtain rfl : posts = scheduling.posted := hposted
  rw [hlater]
  exact h.mono Iff.rfl rfl rfl (fun _ => scheduled.wakes_roused) id id

variable {executor : Executor}

/-- A step of the executor, but for its wakeups. -/
theorem Watched.act_roused {action : Action} (h : scheduling.Watched index scheduled.roused)
    (hsound : scheduled.Sound) (hdestr : scheduled.executor.destroyed = false)
    (hrings : Rings scheduled.executor.native action executor.native) :
    (scheduling.setScheduled index (scheduled.update executor)).Watched index
      (scheduled.update executor).roused := by
  have hcalm {messages : List RingMessage}
      (hsent : executor.native.sent = scheduled.executor.native.sent ++ messages)
      (hmsgs : ∀ message ∈ messages, message.registration = none) :
      (scheduling.setScheduled index (scheduled.update executor)).Watched index
        (scheduled.update executor).roused := by
    have hroused : (scheduled.update executor).roused.executor.native.sent =
        scheduled.roused.executor.native.sent ++ messages := hsent
    refine h.of_calm hsound.roused rfl rfl hroused hmsgs ?_ ?_ ?_
    · exact fun _ => Scheduled.wakes_roused _
    · exact fun _ => hdestr
    · intro hstirs
      exact hstirs.imp_left fun hstirs => hstirs.of_sent hsound.roused rfl id rfl hroused
  generalize hnative : executor.native = native at hrings
  cases hrings with
  | calm hbefore =>
    obtain ⟨messages, hsent, hmsgs⟩ := hbefore.sent
    exact hcalm (hnative ▸ hsent) hmsgs
  | registers =>
    have hregisters : Rings scheduled.roused.executor.native (.user .activate) executor.native := by
      rw [hnative]
      exact .registers
    have hwatched := h.act hsound.roused hdestr hregisters nofun
    exact hwatched.rouse rfl rfl rfl
  | unregisters =>
    apply Watched.of_not_registered
    apply Scheduled.not_registered_of_sent
    show executor.native.sent = _
    rw [hnative]
    exact (append_assoc ..).symm
  | full =>
    apply @hcalm []
    · rw [hnative, append_nil]
    · exact nofun

/-- The beginning of a wakeup. -/
theorem Watched.awakeBegin_roused {posted : Prop} (h : scheduling.Watched index scheduled.roused)
    (hheld : Held scheduled posted) (hbatch : scheduled.executor.batch = none)
    (hbegun : scheduled.begun = false) :
    Watched index
      (Scheduled.roused { scheduled with
        executor := scheduled.executor.awakeBegin.2, begun := scheduled.executor.awakeBegin.1 })
      (setScheduled index
        { scheduled with
          executor := scheduled.executor.awakeBegin.2, begun := scheduled.executor.awakeBegin.1 }
        { scheduling with posted := scheduling.posted.erase index }) := by
  have hbegins := scheduled.executor.begins_awakeBegin
  have hwakes := hheld.wakes hbatch
  have hent := hheld.hasEntry ⟨hbatch, hbegun⟩
  generalize scheduled.executor.awakeBegin = result at hbegins ⊢
  cases hbegins with
  | stopped hstate => exact .of_not_registered fun hreg => (hwakes hreg).1 hstate
  | paused hstate => exact .of_not_registered fun hreg => (hwakes hreg).2 hstate
  | full _ hfull => exact .of_not_registered fun hreg => Nat.not_lt.mpr hfull (hent hreg)
  | begins => exact h.mono Iff.rfl rfl rfl (fun _ => Scheduled.wakes_roused _) id fun _ => .inr rfl

/-- The mark is no part of what `executor_peek` does. -/
theorem roused_awakePeek (scheduled : Scheduled) :
    Scheduled.roused { scheduled with executor := scheduled.executor.awakePeek, begun := false } =
      Scheduled.roused { scheduled.roused with
        executor := scheduled.roused.executor.awakePeek, begun := false } := by
  unfold Scheduled.roused Executor.awakePeek ExecutorInstance.peek
  dsimp only
  split
  · rfl
  · rfl

/-- What holds of an executor that is not destroyed, behind every step. -/
structure Tended (index : ℕ) (scheduled : Scheduled) (scheduling : Scheduling) : Prop where
  held : Held scheduled (index ∈ scheduling.posted)
  watched : scheduling.Watched index scheduled.roused

/-- What holds of all executors behind every step. -/
structure AllTended (scheduling : Scheduling) : Prop where
  sound : ∀ scheduled ∈ scheduling.executors, scheduled.Sound
  tended : ∀ (index : ℕ) (scheduled : Scheduled), scheduling.executors[index]? = some scheduled →
    scheduled.executor.destroyed = false → scheduling.Tended index scheduled

theorem tended_create (descriptor ringSize : ℕ) (callbacks : List ℕ) (producers : ℕ) :
    scheduling.Tended index (.create descriptor ringSize callbacks producers) where
  held := held_of_nil nofun rfl rfl nofun
  watched := .of_not_registered nofun

/-- A post is received by its own executor. -/
theorem Moves.posted (h : Moves scheduling action next)
    (hother : ∀ place, action = .awake place → index ≠ place)
    (hposted : index ∈ scheduling.posted) : index ∈ next.posted := by
  cases h with
  | create | act | peek | deliver | pollin | submit => exact hposted
  | awake => exact (mem_erase_of_ne (hother _ rfl)).mpr hposted
  | drop => exact (mem_erase_of_ne (hother _ rfl)).mpr hposted
  | handle => exact mem_append_left _ hposted

/-- A post is received outside the wakeups. -/
theorem batch_of_awake (hsched : scheduling.executors[index]? = some scheduled)
    (hsound : scheduled.Sound) (hport : scheduled.port = true)
    (hstep : step scheduling (.awake index) = some next) : scheduled.executor.batch = none := by
  obtain ⟨-, hbind⟩ := Option.ite_none_right_eq_some.mp hstep
  obtain ⟨old, hold, hif⟩ := Option.bind_eq_some_iff.mp hbind
  obtain rfl := Option.some.inj (hsched.symm.trans hold)
  have hslot : scheduled.slot = true := hsound.slot.trans (hsound.port.symm.trans hport)
  rw [hport, hslot, if_pos (by rfl)] at hif
  exact (Option.ite_none_right_eq_some.mp hif).1.1

theorem AllTended.step (h : scheduling.AllTended) (hattends : Attends scheduling action)
    (hstep : step scheduling action = some next) : next.AllTended := by
  refine ⟨sound_step h.sound hstep, fun index scheduled hsched hlive => ?_⟩
  have hmoves := step_moves hstep
  have hother (hold : scheduling.executors[index]? = some scheduled)
      (hne : ∀ place, action = .awake place ∨ action = .deliver place → index ≠ place) :
      next.Tended index scheduled := by
    obtain ⟨hheld, hwatched⟩ := h.tended index scheduled hold hlive
    have hsound := h.sound scheduled (mem_of_getElem? hold)
    constructor
    · exact hheld.mono (hmoves.posted fun place haction => hne place (.inl haction))
    · exact hwatched.other (fun _ => isOpen_of_sound hold hsound hlive) hmoves hne
  -- The step is one of this executor, of another, or of the scheduler.
  cases hmoves with
  | create descriptor ringSize callbacks producers =>
    rcases getElem?_concat_eq_some.mp hsched with hsched | ⟨-, rfl⟩
    · exact hother hsched (by simp)
    · exact tended_create descriptor ringSize callbacks producers
  | @act place action old executor hold hpermits hexec =>
    rcases getElem?_setScheduled hold hsched with ⟨rfl, rfl⟩ | ⟨-, hsame⟩
    · have hsound := h.sound old (mem_of_getElem? hold)
      have hbefore := (Executor.step_move hexec).1
      obtain ⟨hheld, hwatched⟩ := h.tended index old hold hbefore
      have hawake : action ≠ .awake := by
        rintro rfl
        cases hpermits
      constructor
      · exact hheld.act hold hpermits hattends hexec
      · exact hwatched.act_roused hsound hbefore (Executor.rings_step hsound.plain hawake hexec)
    · exact hother hsame (by simp)
  | @awake place old hold hport hbegun =>
    rcases getElem?_setScheduled hold hsched with ⟨rfl, rfl⟩ | ⟨hne, hsame⟩
    · have hsound := h.sound old (mem_of_getElem? hold)
      have hbatch := batch_of_awake hold hsound hport hstep
      obtain ⟨hheld, hwatched⟩ := h.tended index old hold (hsound.not_destroyed hport)
      constructor
      · exact hheld.awakeBegin hbatch hbegun
      · exact hwatched.awakeBegin_roused hheld hbatch hbegun
    · exact hother hsame (by simpa using hne)
  | @drop place old hold hclosed =>
    by_cases heq : index = place
    · -- The port of an executor that is not destroyed is open.
      subst heq
      obtain rfl := Option.some.inj (hold.symm.trans hsched)
      have hsound := h.sound old (mem_of_getElem? hold)
      rw [hsound.port, hsound.slot, or_self, hlive] at hclosed
      cases hclosed
    · exact hother hsched (by simpa using heq)
  | @peek place old hold hbegun =>
    rcases getElem?_setScheduled hold hsched with ⟨rfl, rfl⟩ | ⟨-, hsame⟩
    · have hsound := h.sound old (mem_of_getElem? hold)
      obtain ⟨hheld, hwatched⟩ := h.tended index old hold (hsound.awake hbegun)
      constructor
      · exact hheld.awakePeek hsound hbegun
      · have hpeek := hwatched.awakePeek hsound.roused
        exact hpeek.rouse (roused_awakePeek old) rfl rfl
    · exact hother hsame (by simp)
  | @deliver place old message hold hmsg =>
    rcases getElem?_setScheduled hold hsched with ⟨rfl, rfl⟩ | ⟨hne, hsame⟩
    · obtain ⟨⟨hent, hbegun, htasks, hawakens, hholds⟩, hwatched⟩ := h.tended index old hold hlive
      constructor
      · exact ⟨hent, hbegun, htasks, hawakens, hholds⟩
      · exact (hwatched.deliver hmsg).rouse rfl rfl rfl
    · exact hother hsame (by simpa using hne)
  | pollin | handle | submit => exact hother hsched (by simp)

section WillSubmit

variable {executor : Executor}

/-- What is outstanding behind a step was so before it. -/
theorem WillSubmit.due
    (h : (scheduling.setScheduled index (scheduled.update executor)).WillSubmit index
      (scheduled.update executor))
    (hcomps : executor.native.completions = scheduled.executor.native.completions)
    (hsent : executor.native.sent = scheduled.executor.native.sent) :
    scheduling.Due index scheduled := by
  apply h.follows.imp_right
  rintro ⟨hsome, hreg, -⟩
  constructor
  · rw [← hcomps]
    exact hsome
  · exact (registered_update hsent).mp hreg

end WillSubmit

end Scheduling

end FengShui.Executors
