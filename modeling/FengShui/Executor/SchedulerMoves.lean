import FengShui.Executor.Scheduler
import FengShui.Executor.Wakeups

/-!
# What the steps of a scheduler and its executors do

`step_moves` says what a step can do, and `rings_step` what a step of an executor does to its ring:
it sends a registration, or the end of one, or nothing of the kind. The messages of an executor that
the scheduler has not handled are `inFlight`, in their order.
-/

namespace FengShui.Executors

open Transition List

/-! ## Rings -/

/-- What a message does to the registration of its executor. -/
def RingMessage.registration : RingMessage → Option Bool
  | register => some true
  | unregister => some false
  | poll | call _ | callback _ => none

/-- What a completion does to the registration of an executor. -/
def SchedulerCompletion.registration (index : ℕ) : SchedulerCompletion → Option Bool
  | register other => if other = index then some true else none
  | unregister other => if other = index then some false else none
  | poll _ | pollin _ | failed => none

/-- A message is at the scheduler what it was. -/
theorem RingMessage.registration_completion (index : ℕ) (message : RingMessage) :
    (message.completion index).bind (SchedulerCompletion.registration index) =
      message.registration := by
  cases message with
  | register | unregister => exact if_pos rfl
  | poll | call | callback => rfl

theorem RingMessage.registration_completion_of_ne {index other : ℕ} (h : other ≠ index)
    (message : RingMessage) :
    (message.completion other).bind (SchedulerCompletion.registration index) = none := by
  cases message with
  | register | unregister => exact if_neg h
  | poll | call | callback => rfl

namespace ExecutorInstance

variable {native next : ExecutorInstance}

/-- Nothing that is prepared is about a registration. -/
def Plain (native : ExecutorInstance) : Prop :=
  ∀ message ∈ native.submissions, message.registration = none

/-- A ring that sends nothing about its registration. -/
structure Calm (native next : ExecutorInstance) : Prop where
  state : next.state = native.state ∨ next.state = .idle ∨ next.state = .stopping
  sent : ∃ messages, next.sent = native.sent ++ messages ∧
    ∀ message ∈ messages, message.registration = none
  plain : next.Plain

/-- What the steps of an executor do to its ring. -/
inductive Rings (native : ExecutorInstance) : Action → ExecutorInstance → Prop
  | calm {action : Action} {next : ExecutorInstance} (hcalm : Calm native next) :
    Rings native action next
  | registers : Rings native (.user .activate) { native with
      state := .idle, submissions := [], sent :=
        native.sent ++ (native.submissions ++ [.register]) }
  | unregisters : Rings native (.user .deactivate) { native with
      state := .paused
      submissions := []
      sent := native.sent ++ (native.submissions ++ [.unregister]) }
  /-- There is no entry for the message. -/
  | full (hfull : native.entries ≤ native.submissions.length) :
    Rings native (.user .deactivate) { native with state := .paused }

theorem Rings.grows {action : Action} (h : Rings native action next) :
    ∃ messages, next.sent = native.sent ++ messages := by
  cases h with
  | calm hcalm =>
    obtain ⟨messages, hsent, -⟩ := hcalm.sent
    exact ⟨messages, hsent⟩
  | registers | unregisters => exact ⟨_, rfl⟩
  | full => exact ⟨[], (append_nil _).symm⟩

theorem Rings.plain {action : Action} (h : Rings native action next) (hplain : native.Plain) :
    next.Plain := by
  cases h with
  | calm hcalm => exact hcalm.plain
  | registers | unregisters => exact nofun
  | full => exact hplain

theorem Calm.refl (hplain : native.Plain) : Calm native native :=
  ⟨.inl rfl, ⟨[], (append_nil _).symm, nofun⟩, hplain⟩

/-- A task is prepared, and submitted where the ring is idle. -/
theorem Calm.task {message : RingMessage} {prepared : ExecutorInstance} (hplain : native.Plain)
    (hmsg : message.registration = none) (hprepared : native.prepare message = some prepared) :
    Calm native prepared.submit := by
  have hboth : ∀ other ∈ native.submissions ++ [message], other.registration = none :=
    forall_mem_append.mpr ⟨hplain, forall_mem_singleton.mpr hmsg⟩
  obtain rfl := Executor.prepare_eq_some hprepared
  unfold submit
  split
  · exact ⟨.inl rfl, ⟨_, rfl, hboth⟩, nofun⟩
  · exact ⟨.inl rfl, ⟨[], (append_nil _).symm, nofun⟩, hboth⟩

theorem calm_callNative (hplain : native.Plain) (target : ℕ) (task : ExecutorTask) :
    Calm native (native.callNative target task).2 := by
  unfold callNative
  split
  · exact .refl hplain
  · rename_i prepared hprepared
    exact .task hplain rfl hprepared

theorem calm_callbackToNative (hplain : native.Plain) (task : ExecutorTask) :
    Calm native (native.callbackToNative task).2 := by
  unfold callbackToNative
  split
  · exact .refl hplain
  · rename_i prepared hprepared
    exact .task hplain rfl hprepared

/-- The end of a wakeup submits. -/
theorem calm_awakeComplete (hplain : native.Plain) (count : ℕ) :
    Calm native (native.awakeComplete count) :=
  ⟨.inr (.inl rfl), ⟨native.submissions, rfl, hplain⟩, nofun⟩

theorem rings_registerOnScheduler (hplain : native.Plain) :
    Rings native (.user .activate) native.registerOnScheduler.2 := by
  unfold registerOnScheduler
  dsimp only
  split
  · exact .calm ⟨.inr (.inl rfl), ⟨[], (append_nil _).symm, nofun⟩, hplain⟩
  · rename_i prepared hprepared
    obtain rfl := Executor.prepare_eq_some hprepared
    exact .registers

theorem rings_unregisterFromScheduler :
    Rings native (.user .deactivate) (native.unregisterFromScheduler false).2 := by
  unfold unregisterFromScheduler
  dsimp only
  split
  · rename_i hprepare
    refine .full ?_
    by_contra hfree
    unfold prepare at hprepare
    rw [if_pos (Nat.lt_of_not_le hfree)] at hprepare
    cases hprepare
  · rename_i prepared hprepared
    obtain rfl := Executor.prepare_eq_some hprepared
    exact .unregisters

end ExecutorInstance

namespace Executor

variable {executor next : Executor} {action : Action}

open ExecutorInstance

/-- What a step of an executor does to its ring, but for the wakeups. -/
theorem rings_step (hplain : executor.native.Plain) (hawake : action ≠ .awake)
    (hstep : step executor action = some next) : Rings executor.native action next.native := by
  obtain ⟨-, hmove⟩ := step_move hstep
  cases hmove with
  | post =>
    exact .calm ⟨.inl rfl, ⟨[], (append_nil _).symm, nofun⟩, hplain⟩
  | awake => exact absurd rfl hawake
  | turn =>
    rw [native_turn]
    exact .calm (.refl hplain)
  | returns | throws | complete | proceed => exact .calm (.refl hplain)
  | finish =>
    rw [finish_eq]
    exact .calm (calm_awakeComplete hplain _)
  | settle hbatch succeeded =>
    cases succeeded with
    | false => exact .calm (.refl hplain)
    | true => exact .calm (calm_callbackToNative hplain _)
  | user call =>
    cases call with
    | shutdown =>
      -- `shutdown` marks the executor, and leaves its ring.
      have hstop : (executor.userCall .shutdown).native =
          { executor.native with state := .stopping } := by
        unfold userCall shutdown
        dsimp only
        split <;> rfl
      rw [hstop]
      exact .calm ⟨.inr (.inr rfl), ⟨[], (append_nil _).symm, nofun⟩, hplain⟩
    | activate => exact rings_registerOnScheduler hplain
    | deactivate => exact rings_unregisterFromScheduler
    | call owner method target address =>
      have hcalm := calm_callNative hplain target ⟨address, 0, 0, owner, method, false⟩
      unfold userCall
      dsimp only
      split
      all_goals
        rename_i hcall
        rw [hcall] at hcalm
        exact .calm hcalm

/-- How the first part of a wakeup ends. -/
inductive Begins (executor : Executor) : Bool × Executor → Prop
  | stopped (hstate : executor.native.state = .stopped) :
    Begins executor (false, { executor with stopped := true })
  | paused (hstate : executor.native.state = .paused) : Begins executor (false, executor)
  /-- There is no submission entry for the poll. -/
  | full (hwakes : executor.Wakes)
      (hfull : executor.native.entries ≤ executor.native.submissions.length) :
    Begins executor (false, { executor with native := { executor.native with state := .waking } })
  | begins (hwakes : executor.Wakes) :
    Begins executor (true, { executor with native := { executor.native with
      state := .waking, submissions := executor.native.submissions ++ [.poll] } })

theorem Begins.sent {result : Bool × Executor} (h : Begins executor result) :
    result.2.native.sent = executor.native.sent := by
  cases h <;> rfl

theorem Begins.destroyed {result : Bool × Executor} (h : Begins executor result) :
    result.2.destroyed = executor.destroyed := by
  cases h <;> rfl

variable {native : ExecutorInstance}

theorem awakeBegin_of_throws (hwakes : executor.Wakes)
    (hbegin : executor.native.awakeBegin = (.throws, native)) :
    executor.awakeBegin = (false, { executor with native := native }) := by
  unfold awakeBegin
  split
  · exact absurd ‹_› hwakes.1
  · exact absurd ‹_› hwakes.2
  all_goals rw [hbegin]

theorem awakeBegin_of_returns (hwakes : executor.Wakes)
    (hbegin : executor.native.awakeBegin = (.returns, native)) :
    executor.awakeBegin = (true, { executor with native := native }) := by
  unfold awakeBegin
  split
  · exact absurd ‹_› hwakes.1
  · exact absurd ‹_› hwakes.2
  all_goals rw [hbegin]

theorem begins_awakeBegin (executor : Executor) : Begins executor executor.awakeBegin := by
  by_cases hstopped : executor.native.state = .stopped
  · have hawake : executor.awakeBegin = (false, { executor with stopped := true }) := by
      unfold awakeBegin
      rw [hstopped]
    rw [hawake]
    exact .stopped hstopped
  by_cases hpaused : executor.native.state = .paused
  · have hawake : executor.awakeBegin = (false, executor) := by
      unfold awakeBegin
      rw [hpaused]
    rw [hawake]
    exact .paused hpaused
  have hwakes : executor.Wakes := ⟨hstopped, hpaused⟩
  by_cases hfree : executor.native.submissions.length < executor.native.entries
  · rw [awakeBegin_of_returns hwakes (by
      unfold ExecutorInstance.awakeBegin ExecutorInstance.prepare
      dsimp only
      rw [if_pos hfree])]
    exact .begins hwakes
  · rw [awakeBegin_of_throws hwakes (by
      unfold ExecutorInstance.awakeBegin ExecutorInstance.prepare
      dsimp only
      rw [if_neg hfree])]
    exact .full hwakes (Nat.le_of_not_lt hfree)

/-- The second part of a wakeup submits. -/
theorem awakePeek_eq (executor : Executor) :
    executor.awakePeek.native.sent = executor.native.sent ++ executor.native.submissions ∧
      executor.awakePeek.native.submissions = [] ∧
      (executor.awakePeek.native.state = executor.native.state ∨
        executor.awakePeek.native.state = .idle) ∧
      executor.awakePeek.destroyed = executor.destroyed := by
  unfold awakePeek ExecutorInstance.peek
  dsimp only
  split
  · exact ⟨append_nil _, rfl, .inr rfl, rfl⟩
  · exact ⟨rfl, rfl, .inl rfl, rfl⟩

end Executor

/-! ## The scheduler -/

namespace Scheduler

variable {scheduler : Scheduler}

/-- What the kernel takes leaves the executors as they are, and only adds completions that
failed. -/
theorem take_foldl (requests : List PollRequest) (scheduler : Scheduler) :
    (requests.foldl PollRequest.take scheduler).submissions = scheduler.submissions ∧
      (requests.foldl PollRequest.take scheduler).executors = scheduler.executors ∧
      ∃ count, (requests.foldl PollRequest.take scheduler).completions =
        scheduler.completions ++ List.replicate count .failed := by
  induction requests generalizing scheduler with
  | nil => exact ⟨rfl, rfl, 0, (append_nil _).symm⟩
  | cons request requests ih =>
    obtain ⟨hsubs, hexecs, count, hcomps⟩ := ih (request.take scheduler)
    rw [foldl_cons]
    cases request with
    | add index => exact ⟨hsubs, hexecs, count, hcomps⟩
    | remove index =>
      refine ⟨hsubs, hexecs, count + 1, hcomps.trans ?_⟩
      rw [replicate_succ, PollRequest.take, append_assoc]
      rfl

@[simp]
theorem submissions_submit (scheduler : Scheduler) : scheduler.submit.submissions = [] :=
  (take_foldl scheduler.submissions _).1

@[simp]
theorem executors_submit (scheduler : Scheduler) :
    scheduler.submit.executors = scheduler.executors :=
  (take_foldl scheduler.submissions _).2.1

theorem completions_submit (scheduler : Scheduler) : ∃ count,
    scheduler.submit.completions = scheduler.completions ++ List.replicate count .failed :=
  (take_foldl scheduler.submissions _).2.2

/-- The polls depend on the requests and on the polls before them. -/
theorem polls_take_congr {other : Scheduler} (request : PollRequest)
    (h : scheduler.polls = other.polls) :
    (request.take scheduler).polls = (request.take other).polls := by
  cases request with
  | add index => exact congrArg (· ++ [index]) h
  | remove index => exact congrArg (·.erase index) h

variable {other index : ℕ}

theorem mem_polls_submit {other : Scheduler} (h : index ∈ scheduler.submit.polls)
    (hsubs : other.submissions = scheduler.submissions)
    (hpolls : other.polls = scheduler.polls) : index ∈ other.submit.polls := by
  have hfoldl (requests : List PollRequest) : ∀ scheduler other : Scheduler,
      scheduler.polls = other.polls →
        (requests.foldl PollRequest.take scheduler).polls =
          (requests.foldl PollRequest.take other).polls := by
    induction requests with
    | nil => exact fun _ _ h => h
    | cons request requests ih => exact fun _ _ h => ih _ _ (polls_take_congr request h)
  unfold submit at h ⊢
  rw [hsubs, hfoldl _ { other with submissions := [] } { scheduler with submissions := [] } hpolls]
  exact h

/-- A poll that completes is no other one. -/
theorem mem_polls_submit_erase (hne : index ≠ other) (h : index ∈ scheduler.submit.polls) :
    index ∈ (submit { scheduler with polls := scheduler.polls.erase other }).polls := by
  -- Each request changes how often the poll is there by the same on both sides.
  have hfoldl (requests : List PollRequest) : ∀ scheduler other : Scheduler,
      scheduler.polls.count index = other.polls.count index →
        (requests.foldl PollRequest.take scheduler).polls.count index =
          (requests.foldl PollRequest.take other).polls.count index := by
    induction requests with
    | nil => exact fun _ _ h => h
    | cons request requests ih =>
      refine fun scheduler other hcount => ih _ _ ?_
      cases request with
      | add added =>
        unfold PollRequest.take
        dsimp only
        rw [count_append, count_append, hcount]
      | remove removed =>
        unfold PollRequest.take
        dsimp only
        rw [count_erase, count_erase, hcount]
  have hcount : (scheduler.polls.erase other).count index = scheduler.polls.count index := by
    rw [count_erase_of_ne hne]
  have hsame := hfoldl scheduler.submissions
    { scheduler with submissions := [], polls := scheduler.polls.erase other }
    { scheduler with submissions := [] } hcount
  refine count_pos_iff.mp ?_
  unfold submit
  dsimp only
  rw [hsame]
  exact count_pos_iff.mpr h

/-- The polls behind a submission were there or are asked for. -/
theorem mem_polls_of_submit (h : index ∈ scheduler.submit.polls) :
    index ∈ scheduler.polls ∨ .add index ∈ scheduler.submissions := by
  have hfoldl (requests : List PollRequest) : ∀ scheduler : Scheduler,
      index ∈ (requests.foldl PollRequest.take scheduler).polls →
        index ∈ scheduler.polls ∨ .add index ∈ requests := by
    induction requests with
    | nil => exact fun _ h => .inl h
    | cons request requests ih =>
      intro scheduler hmem
      -- A removal takes a poll away, and an addition is one of the requests.
      rcases ih _ hmem with hpolls | hreq
      · cases request with
        | add added =>
          rcases mem_append.mp hpolls with hpolls | hadded
          · exact .inl hpolls
          · exact .inr (mem_singleton.mp hadded ▸ mem_cons_self)
        | remove removed => exact .inl (mem_of_mem_erase hpolls)
      · exact .inr (mem_cons_of_mem _ hreq)
  exact hfoldl _ { scheduler with submissions := [] } h

theorem submit_of_nil (h : scheduler.submissions = []) : scheduler.submit = scheduler := by
  obtain ⟨ringSize, submissions, polls, completions, executors⟩ := scheduler
  obtain rfl : submissions = [] := h
  rfl

/-- A request behind the others. -/
theorem submit_append (request : PollRequest) (scheduler : Scheduler) :
    submit { scheduler with submissions := scheduler.submissions ++ [request] } =
      request.take scheduler.submit := by
  unfold submit
  rw [foldl_append]
  rfl

/-- What a request that is prepared comes to, whether or not the ring is full. -/
theorem submit_prepare (request : PollRequest) (scheduler : Scheduler) :
    (scheduler.prepare request).submit = request.take scheduler.submit := by
  unfold prepare
  dsimp only
  split
  · exact submit_append request scheduler
  -- The ring was full, and is empty behind the submission.
  · have hagain := submit_append request scheduler.submit
    rw [submit_of_nil (submissions_submit scheduler)] at hagain
    exact hagain

/-- The polls behind a submission with one that is added. -/
theorem mem_polls_prepare_add :
    index ∈ (scheduler.prepare (.add other)).submit.polls ↔
      index ∈ scheduler.submit.polls ∨ index = other := by
  rw [submit_prepare]
  unfold PollRequest.take
  dsimp only
  rw [mem_append, mem_singleton]

/-- The poll that is removed is no other one. -/
theorem mem_polls_prepare_remove (hne : index ≠ other) (h : index ∈ scheduler.submit.polls) :
    index ∈ (scheduler.prepare (.remove other)).submit.polls := by
  rw [submit_prepare]
  exact (mem_erase_of_ne hne).mpr h

theorem executors_prepare (request : PollRequest) (scheduler : Scheduler) :
    (scheduler.prepare request).executors = scheduler.executors := by
  unfold prepare
  dsimp only
  split
  · rfl
  · exact executors_submit scheduler

theorem completions_prepare (request : PollRequest) (scheduler : Scheduler) : ∃ count,
    (scheduler.prepare request).completions =
      scheduler.completions ++ List.replicate count .failed := by
  unfold prepare
  dsimp only
  split
  · exact ⟨0, (append_nil _).symm⟩
  · exact completions_submit scheduler

end Scheduler

/-! ## Steps -/

namespace Scheduling

variable {scheduling next : Scheduling} {action : SchedulingAction}

/-- What a step can do. -/
inductive Moves (scheduling : Scheduling) : SchedulingAction → Scheduling → Prop
  | create (descriptor ringSize : ℕ) (callbacks : List ℕ) (producers : ℕ) :
    Moves scheduling (.create descriptor ringSize callbacks producers) { scheduling with
      executors := scheduling.executors ++ [.create descriptor ringSize callbacks producers] }
  | act {index : ℕ} {action : Action} {scheduled : Scheduled} {executor : Executor}
      (hscheduled : scheduling.executors[index]? = some scheduled)
      (hpermits : permits scheduled action = true)
      (hstep : scheduled.executor.step action = some executor) :
    Moves scheduling (.act index action) (scheduling.setScheduled index (scheduled.update executor))
  | awake {index : ℕ} {scheduled : Scheduled}
      (hscheduled : scheduling.executors[index]? = some scheduled) (hport : scheduled.port = true)
      (hbegun : scheduled.begun = false) :
    Moves scheduling (.awake index)
      (setScheduled index
        { scheduled with
          executor := scheduled.executor.awakeBegin.2
          begun := scheduled.executor.awakeBegin.1 }
        { scheduling with posted := scheduling.posted.erase index })
  | drop {index : ℕ} {scheduled : Scheduled}
      (hscheduled : scheduling.executors[index]? = some scheduled)
      (hclosed : scheduled.port = false ∨ scheduled.slot = false) :
    Moves scheduling (.awake index) { scheduling with posted := scheduling.posted.erase index }
  | peek {index : ℕ} {scheduled : Scheduled}
      (hscheduled : scheduling.executors[index]? = some scheduled)
        (hbegun : scheduled.begun = true) :
    Moves scheduling (.peek index)
      (scheduling.setScheduled index
        { scheduled with executor := scheduled.executor.awakePeek, begun := false })
  | deliver {index : ℕ} {scheduled : Scheduled} {message : RingMessage}
      (hscheduled : scheduling.executors[index]? = some scheduled)
      (hmessage : scheduled.executor.native.sent[scheduled.delivered]? = some message) :
    Moves scheduling (.deliver index)
      { scheduling.setScheduled index { scheduled with delivered := scheduled.delivered + 1 } with
        scheduler := { scheduling.scheduler with
          completions := scheduling.scheduler.completions ++ (message.completion index).toList } }
  | pollin {index : ℕ} (hpoll : index ∈ scheduling.scheduler.polls) :
    Moves scheduling (.pollin index) { scheduling with scheduler := { scheduling.scheduler with
      polls := scheduling.scheduler.polls.erase index
      completions := scheduling.scheduler.completions ++ [.pollin index] } }
  | handle {completion : SchedulerCompletion} {completions : List SchedulerCompletion}
      (hcompletions : scheduling.scheduler.completions = completion :: completions) :
    Moves scheduling .handle { scheduling with
      scheduler := ({ scheduling.scheduler with completions := completions }.handle completion).2
      posted := scheduling.posted ++
        ({ scheduling.scheduler with completions := completions }.handle completion).1.filter
          scheduling.isOpen }
  | submit : Moves scheduling .submit { scheduling with scheduler := scheduling.scheduler.submit }

theorem step_moves (h : step scheduling action = some next) : Moves scheduling action next := by
  cases action with
  | create descriptor ringSize callbacks producers =>
    cases h
    exact .create descriptor ringSize callbacks producers
  | act index action =>
    obtain ⟨scheduled, hsched, hif⟩ := Option.bind_eq_some_iff.mp h
    obtain ⟨hpermits, hmap⟩ := Option.ite_none_right_eq_some.mp hif
    obtain ⟨executor, hstep, rfl⟩ := Option.map_eq_some_iff.mp hmap
    exact .act hsched hpermits hstep
  | awake index =>
    obtain ⟨-, hbind⟩ := Option.ite_none_right_eq_some.mp h
    obtain ⟨scheduled, hsched, hif⟩ := Option.bind_eq_some_iff.mp hbind
    split at hif
    · rename_i hopen
      obtain ⟨⟨-, hbegun⟩, hsome⟩ := Option.ite_none_right_eq_some.mp hif
      cases hsome
      exact .awake hsched (Bool.and_eq_true_iff.mp hopen).1 hbegun
    -- A closed port drops the post, and an empty slot throws.
    · rename_i hclosed
      cases hif
      rw [Bool.not_eq_true, Bool.and_eq_false_iff] at hclosed
      exact .drop hsched hclosed
  | peek index =>
    obtain ⟨scheduled, hsched, hif⟩ := Option.bind_eq_some_iff.mp h
    obtain ⟨hbegun, hsome⟩ := Option.ite_none_right_eq_some.mp hif
    cases hsome
    exact .peek hsched hbegun
  | deliver index =>
    obtain ⟨scheduled, hsched, hmap⟩ := Option.bind_eq_some_iff.mp h
    obtain ⟨message, hmsg, rfl⟩ := Option.map_eq_some_iff.mp hmap
    exact .deliver hsched hmsg
  | pollin index =>
    obtain ⟨hpoll, hsome⟩ := Option.ite_none_right_eq_some.mp h
    cases hsome
    exact .pollin hpoll
  | handle =>
    unfold step handle at h
    dsimp only at h
    split at h
    · cases h
    · rename_i completion completions hcomps
      cases h
      exact .handle hcomps
  | submit =>
    cases h
    exact .submit

end Scheduling

/-! ## Messages in flight -/

/-- The messages of an executor that have not come to the ring of the scheduler, as they will be
there. -/
def Scheduled.wire (index : ℕ) (scheduled : Scheduled) : List SchedulerCompletion :=
  (scheduled.executor.native.sent.drop scheduled.delivered).filterMap (RingMessage.completion index)

namespace Scheduling

/-- What the scheduler has to handle, and behind it what comes from an executor. -/
def inFlight (index : ℕ) (scheduled : Scheduled) (scheduling : Scheduling) :
    List SchedulerCompletion := scheduling.scheduler.completions ++ scheduled.wire index

/-- A poll on the ring of the executor is armed: prepared, at the kernel, or completed and not
handled. -/
def Armed (index : ℕ) (scheduling : Scheduling) : Prop :=
  index ∈ scheduling.scheduler.polls ∨ .add index ∈ scheduling.scheduler.submissions ∨
    .pollin index ∈ scheduling.scheduler.completions

/-- The registrations of an executor in flight. -/
def registrations (index : ℕ) (scheduled : Scheduled) (scheduling : Scheduling) : List Bool :=
  (scheduling.inFlight index scheduled).filterMap (SchedulerCompletion.registration index)

end Scheduling

namespace Scheduled

/-- The executor was registered last, and not unregistered since. -/
def Registered (scheduled : Scheduled) : Prop :=
  (scheduled.executor.native.sent.filterMap RingMessage.registration).getLast? = some true

instance (scheduled : Scheduled) : Decidable scheduled.Registered := by
  unfold Registered
  infer_instance

end Scheduled

/-! ## Executors behind every step -/

namespace Scheduled

open ExecutorInstance

variable {scheduled : Scheduled}

/-- What holds of an executor at its scheduler behind every step. -/
structure Sound (scheduled : Scheduled) : Prop where
  plain : scheduled.executor.native.Plain
  delivered : scheduled.delivered ≤ scheduled.executor.native.sent.length
  begun : scheduled.begun = true → .poll ∈ scheduled.executor.native.submissions
  /-- Nothing is destroyed inside a wakeup that has begun. -/
  awake : scheduled.begun = true → scheduled.executor.destroyed = false
  port : scheduled.port = !scheduled.executor.destroyed
  slot : scheduled.slot = !scheduled.executor.destroyed

theorem sound_create (descriptor ringSize : ℕ) (callbacks : List ℕ) (producers : ℕ) :
    (create descriptor ringSize callbacks producers).Sound where
  plain := nofun
  delivered := Nat.le_refl 0
  begun h := by cases h
  awake h := by cases h
  port := rfl
  slot := rfl

variable {messages : List RingMessage}

/-- The messages in flight behind others that are sent. -/
theorem wire_of_sent {next : Scheduled} (index : ℕ) (hsound : scheduled.Sound)
    (hdelivered : next.delivered = scheduled.delivered)
    (hsent : next.executor.native.sent = scheduled.executor.native.sent ++ messages) :
    next.wire index =
      scheduled.wire index ++ messages.filterMap (RingMessage.completion index) := by
  unfold wire
  rw [hsent, hdelivered, drop_append_of_le_length hsound.delivered, filterMap_append]

/-- The registrations among the messages of an executor. -/
theorem filterMap_registration (index : ℕ) (messages : List RingMessage) :
    (messages.filterMap (RingMessage.completion index)).filterMap
        (SchedulerCompletion.registration index) =
      messages.filterMap RingMessage.registration := by
  rw [filterMap_filterMap]
  exact congrArg (List.filterMap · messages)
    (funext fun message => RingMessage.registration_completion index message)

theorem filterMap_eq_nil_of_plain (h : ∀ message ∈ messages, message.registration = none) :
    messages.filterMap RingMessage.registration = [] :=
  filterMap_eq_nil_iff.mpr h

theorem registered_of_sent {next : Scheduled}
    (hsent : next.executor.native.sent = scheduled.executor.native.sent ++ messages)
    (hmsgs : ∀ message ∈ messages, message.registration = none) :
    next.Registered ↔ scheduled.Registered := by
  unfold Registered
  rw [hsent, filterMap_append, filterMap_eq_nil_of_plain hmsgs, append_nil]

/-- The end of the registration is sent last. -/
theorem not_registered_of_sent (h : scheduled.executor.native.sent = messages ++ [.unregister]) :
    ¬scheduled.Registered := by
  unfold Registered
  rw [h, filterMap_append,
    show [RingMessage.unregister].filterMap RingMessage.registration = [false] from rfl,
    getLast?_concat]
  exact nofun

/-- A step of the executor. -/
theorem Sound.update {action : Action} {executor : Executor} (h : scheduled.Sound)
    (hpermits : Scheduling.permits scheduled action = true)
    (hstep : scheduled.executor.step action = some executor) :
    (scheduled.update executor).Sound := by
  obtain ⟨hdestr, hmove⟩ := Executor.step_move hstep
  have hawake : action ≠ .awake := by
    rintro rfl
    cases hpermits
  have hrings := Executor.rings_step h.plain hawake hstep
  obtain ⟨messages, hsent⟩ := hrings.grows
  have hgone {gone : Bool} (hgone : gone = !scheduled.executor.destroyed) :
      (gone && !executor.destroyed) = !executor.destroyed := by
    rw [hgone, hdestr, Bool.not_false, Bool.true_and]
  -- While the thread of the executor is in native code only other threads act.
  have hposts (hbegun : scheduled.begun = true) : ∃ completion, action = .post completion := by
    cases action with
    | post completion => exact ⟨completion, rfl⟩
    | awake => cases hpermits
    | turn | leave | finish | user | settle | complete | proceed =>
      rw [Scheduling.permits, hbegun] at hpermits
      cases hpermits
  refine ⟨hrings.plain h.plain, ?_, fun hbegun => ?_, fun hbegun => ?_, hgone h.port, hgone h.slot⟩
  · have hle := h.delivered
    change scheduled.delivered ≤ executor.native.sent.length
    rw [hsent, length_append]
    omega
  · obtain ⟨completion, rfl⟩ := hposts hbegun
    cases hmove
    exact h.begun hbegun
  · obtain ⟨completion, rfl⟩ := hposts hbegun
    cases hmove
    exact hdestr

/-- An executor of which the port is open is not destroyed. -/
theorem Sound.not_destroyed (h : scheduled.Sound) (hopen : scheduled.port = true) :
    scheduled.executor.destroyed = false := by
  have hport := h.port
  rwa [hopen, eq_comm, Bool.not_eq_true'] at hport

theorem Sound.awakeBegin (h : scheduled.Sound) (hopen : scheduled.port = true) :
    Sound { scheduled with
      executor := scheduled.executor.awakeBegin.2, begun := scheduled.executor.awakeBegin.1 } := by
  have hlive := h.not_destroyed hopen
  obtain ⟨hplain, hdelivered, -, -, hport, hslot⟩ := h
  have hbegins := scheduled.executor.begins_awakeBegin
  generalize scheduled.executor.awakeBegin = result at hbegins ⊢
  cases hbegins with
  | stopped | paused | full =>
    exact ⟨hplain, hdelivered, nofun, nofun,
      hport, hslot⟩
  | begins =>
    refine ⟨?_, hdelivered, fun _ => ?_, fun _ => hlive, hport, hslot⟩
    · exact forall_mem_append.mpr ⟨hplain, forall_mem_singleton.mpr rfl⟩
    · exact mem_append_right _ (mem_singleton_self _)

theorem Sound.awakePeek (h : scheduled.Sound) :
    Sound { scheduled with executor := scheduled.executor.awakePeek, begun := false } := by
  obtain ⟨hsent, hsubs, -, hdestr⟩ := scheduled.executor.awakePeek_eq
  refine ⟨fun message hmsg => ?_, ?_, nofun,
    nofun, ?_, ?_⟩
  · dsimp only at hmsg
    rw [hsubs] at hmsg
    cases hmsg
  · have hle := h.delivered
    dsimp only
    rw [hsent, length_append]
    omega
  · exact h.port.trans (congrArg _ hdestr.symm)
  · exact h.slot.trans (congrArg _ hdestr.symm)

theorem Sound.deliver {message : RingMessage} (h : scheduled.Sound)
    (hmsg : scheduled.executor.native.sent[scheduled.delivered]? = some message) :
    Sound { scheduled with delivered := scheduled.delivered + 1 } := by
  obtain ⟨hlt, -⟩ := List.getElem?_eq_some_iff.mp hmsg
  exact ⟨h.plain, hlt, h.begun, h.awake, h.port, h.slot⟩

end Scheduled

namespace Scheduling

variable {scheduling next : Scheduling} {action : SchedulingAction} {index : ℕ}
  {scheduled later : Scheduled} {messages : List RingMessage}

theorem getElem?_setScheduled_self {place : ℕ} {old : Scheduled}
    (hold : scheduling.executors[place]? = some old) :
    (scheduling.setScheduled place later).executors[place]? = some later :=
  getElem?_set_self (List.getElem?_eq_some_iff.mp hold).1

/-- The executor that is set, or another. -/
theorem getElem?_setScheduled {place : ℕ} {old : Scheduled}
    (hold : scheduling.executors[place]? = some old)
    (hget : (scheduling.setScheduled place later).executors[index]? = some scheduled) :
    index = place ∧ scheduled = later ∨
      index ≠ place ∧ scheduling.executors[index]? = some scheduled := by
  by_cases heq : index = place
  · subst heq
    rw [getElem?_setScheduled_self hold] at hget
    exact .inl ⟨rfl, (Option.some.inj hget).symm⟩
  · exact .inr ⟨heq, (getElem?_set_ne (Ne.symm heq)).symm.trans hget⟩

theorem sound_step (h : ∀ scheduled ∈ scheduling.executors, scheduled.Sound)
    (hstep : step scheduling action = some next) :
    ∀ scheduled ∈ next.executors, scheduled.Sound := by
  have hset {index : ℕ} {other : Scheduled} (hother : other.Sound) :
      ∀ scheduled ∈ scheduling.executors.set index other, scheduled.Sound := fun scheduled hmem =>
    (mem_or_eq_of_mem_set hmem).elim (h scheduled) fun heq => heq ▸ hother
  cases step_moves hstep with
  | create =>
    exact forall_mem_append.mpr ⟨h, forall_mem_singleton.mpr (Scheduled.sound_create ..)⟩
  | act hsched hpermits hexec =>
    exact hset ((h _ (mem_of_getElem? hsched)).update hpermits hexec)
  | awake hsched hopen =>
    exact hset ((h _ (mem_of_getElem? hsched)).awakeBegin hopen)
  | drop | pollin | handle | submit => exact h
  | peek hsched => exact hset (h _ (mem_of_getElem? hsched)).awakePeek
  | deliver hsched hmsg =>
    exact hset ((h _ (mem_of_getElem? hsched)).deliver hmsg)

/-- What is in flight when the executor has sent more. -/
theorem inFlight_of_sent (hsound : scheduled.Sound)
    (hscheduler : next.scheduler = scheduling.scheduler)
    (hdelivered : later.delivered = scheduled.delivered)
    (hsent : later.executor.native.sent = scheduled.executor.native.sent ++ messages) :
    next.inFlight index later = scheduling.inFlight index scheduled ++
      messages.filterMap (RingMessage.completion index) := by
  unfold inFlight
  rw [hscheduler, Scheduled.wire_of_sent index hsound hdelivered hsent, append_assoc]

/-- A message that comes to its ring is in flight as it was. -/
theorem inFlight_deliver {message : RingMessage}
    (hmsg : scheduled.executor.native.sent[scheduled.delivered]? = some message) :
    inFlight index { scheduled with delivered := scheduled.delivered + 1 }
      { scheduling with scheduler := { scheduling.scheduler with
        completions := scheduling.scheduler.completions ++ (message.completion index).toList } } =
      scheduling.inFlight index scheduled := by
  obtain ⟨hlt, hget⟩ := List.getElem?_eq_some_iff.mp hmsg
  have hdrop : scheduled.executor.native.sent.drop scheduled.delivered =
      message :: scheduled.executor.native.sent.drop (scheduled.delivered + 1) := by
    rw [drop_eq_getElem_cons hlt, hget]
  unfold inFlight Scheduled.wire
  dsimp only
  rw [hdrop, append_assoc]
  congr 1
  rw [filterMap_cons]
  cases message.completion index <;> rfl

end Scheduling

end FengShui.Executors
