import FengShui.Executor.SchedulerMoves

/-!
# No wakeup is lost, where it finds an entry (`executor/executor.c`, `executor/scheduler.c`)

A poll completes once. The executor asks for the next one at the beginning of its wakeup, with a
message for which its ring must have an entry: without one `_awake` throws, and nobody asks again.
As long as every wakeup that begins finds an entry, and every `deactivate` of a registered executor
does, a registered executor is always about to be woken (`noLostWakeup_of_run`). The scheduler
itself waits for an entry in its ring.
-/

namespace FengShui.Executors

open Transition List

namespace Scheduling

/-- The executor is about to be woken. -/
def Wakeable (index : ℕ) (scheduled : Scheduled) (scheduling : Scheduling) : Prop :=
  scheduling.Armed index ∨ .register index ∈ scheduling.inFlight index scheduled ∨
    .poll index ∈ scheduling.inFlight index scheduled ∨ index ∈ scheduling.posted ∨
    scheduled.begun = true ∧ .poll ∈ scheduled.executor.native.submissions

/-- The ring has an entry free. -/
def HasEntry (native : ExecutorInstance) : Prop := native.submissions.length < native.entries

/-- A wakeup that begins, and a `deactivate` of a registered executor, finds an entry in its
ring. -/
def FindsEntry (scheduling : Scheduling) : SchedulingAction → Prop
  | .awake index => ∀ scheduled, scheduling.executors[index]? = some scheduled →
    scheduled.executor.destroyed = false → scheduled.executor.Wakes →
      HasEntry scheduled.executor.native
  | .act index (.user .deactivate) => ∀ scheduled, scheduling.executors[index]? = some scheduled →
    scheduled.Registered → HasEntry scheduled.executor.native
  | _ => True

end Scheduling

/-! ## An executor with its messages -/

namespace Scheduling

variable {scheduling next : Scheduling} {action : SchedulingAction} {index : ℕ}
  {scheduled : Scheduled}

/-- The executor is about to be woken, without its registrations and its own thread. -/
def Stirs (index : ℕ) (scheduled : Scheduled) (scheduling : Scheduling) : Prop :=
  index ∈ scheduling.scheduler.submit.polls ∨ .pollin index ∈ scheduling.scheduler.completions ∨
    .poll index ∈ scheduling.inFlight index scheduled ∨ index ∈ scheduling.posted

/-- What holds of an executor and the scheduler behind every step. -/
structure Watched (index : ℕ) (scheduled : Scheduled) (scheduling : Scheduling) : Prop where
  awakens : scheduled.Registered → scheduled.executor.Wakes
  /-- The array has a registered executor, or will have it. -/
  table : scheduled.Registered →
    (scheduling.registrations index scheduled).getLast?.getD
      (scheduling.scheduler.executors index) = true
  stirs : scheduled.executor.destroyed = false → scheduled.Registered →
    true ∉ scheduling.registrations index scheduled →
      scheduling.Stirs index scheduled ∨ scheduled.begun = true

/-- Without registrations in flight a registered executor is in the array. -/
theorem Watched.executors (h : scheduling.Watched index scheduled) (hreg : scheduled.Registered)
    (hnone : true ∉ scheduling.registrations index scheduled) :
    scheduling.scheduler.executors index = true := by
  have htable := h.table hreg
  cases hlast : (scheduling.registrations index scheduled).getLast? with
  | none => rwa [hlast] at htable
  | some last =>
    rw [hlast, Option.getD_some] at htable
    rw [htable] at hlast
    exact absurd (mem_of_getLast? hlast) hnone

/-- What is as it was for the registration of an executor, and stirs as it did. -/
theorem Watched.mono {later : Scheduled} (h : scheduling.Watched index scheduled)
    (hreg : later.Registered ↔ scheduled.Registered)
    (hregs : next.registrations index later = scheduling.registrations index scheduled)
    (hexecs : next.scheduler.executors index = scheduling.scheduler.executors index)
    (hawakens : scheduled.executor.Wakes → later.executor.Wakes)
    (hdestr : later.executor.destroyed = false → scheduled.executor.destroyed = false)
    (hstirs : scheduling.Stirs index scheduled ∨ scheduled.begun = true →
      next.Stirs index later ∨ later.begun = true) : next.Watched index later := by
  refine ⟨fun hlater => hawakens (h.awakens (hreg.mp hlater)), fun hlater => ?_,
    fun hlive hlater hnone => ?_⟩
  · rw [hregs, hexecs]
    exact h.table (hreg.mp hlater)
  · rw [hregs] at hnone
    exact hstirs (h.stirs (hdestr hlive) (hreg.mp hlater) hnone)

theorem Watched.of_not_registered (h : ¬scheduled.Registered) :
    scheduling.Watched index scheduled :=
  ⟨fun hreg => absurd hreg h, fun hreg => absurd hreg h,
    fun _ hreg => absurd hreg h⟩

/-! ### What an executor does -/

section Sends

variable {later : Scheduled} {messages : List RingMessage}

theorem registrations_of_sent (hsound : scheduled.Sound)
    (hscheduler : next.scheduler = scheduling.scheduler)
    (hdelivered : later.delivered = scheduled.delivered)
    (hsent : later.executor.native.sent = scheduled.executor.native.sent ++ messages) :
    next.registrations index later = scheduling.registrations index scheduled ++
      messages.filterMap RingMessage.registration := by
  unfold registrations
  rw [inFlight_of_sent hsound hscheduler hdelivered hsent, filterMap_append,
    Scheduled.filterMap_registration]

theorem Stirs.of_sent (h : scheduling.Stirs index scheduled) (hsound : scheduled.Sound)
    (hscheduler : next.scheduler = scheduling.scheduler)
    (hposted : index ∈ scheduling.posted → index ∈ next.posted)
    (hdelivered : later.delivered = scheduled.delivered)
    (hsent : later.executor.native.sent = scheduled.executor.native.sent ++ messages) :
    next.Stirs index later := by
  have hinFlight : next.inFlight index later = scheduling.inFlight index scheduled ++
      messages.filterMap (RingMessage.completion index) :=
    inFlight_of_sent hsound hscheduler hdelivered hsent
  unfold Stirs
  rw [hscheduler, hinFlight]
  rcases h with hpolls | hpollin | hpoll | hpost
  · exact .inl hpolls
  · exact .inr (.inl hpollin)
  · exact .inr (.inr (.inl (mem_append_left _ hpoll)))
  · exact .inr (.inr (.inr (hposted hpost)))

/-- An executor that sends nothing about its registration. -/
theorem Watched.of_calm (h : scheduling.Watched index scheduled) (hsound : scheduled.Sound)
    (hscheduler : next.scheduler = scheduling.scheduler)
    (hdelivered : later.delivered = scheduled.delivered)
    (hsent : later.executor.native.sent = scheduled.executor.native.sent ++ messages)
    (hmsgs : ∀ message ∈ messages, message.registration = none)
    (hawakens : scheduled.executor.Wakes → later.executor.Wakes)
    (hdestr : later.executor.destroyed = false → scheduled.executor.destroyed = false)
    (hstirs : scheduling.Stirs index scheduled ∨ scheduled.begun = true →
      next.Stirs index later ∨ later.begun = true) : next.Watched index later := by
  have hregs : next.registrations index later = scheduling.registrations index scheduled := by
    rw [registrations_of_sent hsound hscheduler hdelivered hsent,
      Scheduled.filterMap_eq_nil_of_plain hmsgs, append_nil]
  exact h.mono (Scheduled.registered_of_sent hsent hmsgs) hregs
    (congrArg (·.executors index) hscheduler) hawakens hdestr hstirs

end Sends

variable {executor : Executor} {completions : List SchedulerCompletion}
  {completion : SchedulerCompletion} {count : ℕ}

theorem wakes_congr {other : Executor} (hstate : executor.native.state = other.native.state) :
    executor.Wakes ↔ other.Wakes := by
  unfold Executor.Wakes
  rw [hstate]

theorem wakes_of_idle (h : executor.native.state = .idle) : executor.Wakes := by
  unfold Executor.Wakes
  rw [h]
  decide

theorem wakes_of_waking (h : executor.native.state = .waking) : executor.Wakes := by
  unfold Executor.Wakes
  rw [h]
  decide

/-- A state word of an executor that wakes up. -/
theorem wakes_of_calm {later : Executor}
    (hstate : later.native.state = executor.native.state ∨ later.native.state = .idle ∨
      later.native.state = .stopping) (h : executor.Wakes) : later.Wakes := by
  rcases hstate with hstate | hstate | hstate
  · exact (wakes_congr hstate).mpr h
  · exact wakes_of_idle hstate
  · unfold Executor.Wakes
    rw [hstate]
    decide

open ExecutorInstance in
/-- A step of the executor, but for its wakeups. -/
theorem Watched.act {action : Action} (h : scheduling.Watched index scheduled)
    (hsound : scheduled.Sound) (hdestr : scheduled.executor.destroyed = false)
    (hrings : Rings scheduled.executor.native action executor.native)
    (hfinds : action = .user .deactivate → scheduled.Registered →
    HasEntry scheduled.executor.native) :
    (scheduling.setScheduled index (scheduled.update executor)).Watched index
      (scheduled.update executor) := by
  generalize hnative : executor.native = native at hrings
  cases hrings with
  | calm hcalm =>
    obtain ⟨messages, hsent, hmsgs⟩ := hcalm.sent
    have hsent' : (scheduled.update executor).executor.native.sent =
        scheduled.executor.native.sent ++ messages := hnative ▸ hsent
    refine h.of_calm hsound rfl rfl hsent' hmsgs (wakes_of_calm (hnative ▸ hcalm.state))
      (fun _ => hdestr) fun hstirs => hstirs.imp_left fun hstirs => ?_
    exact hstirs.of_sent hsound rfl id rfl hsent'
  | registers =>
    have hsent : (scheduled.update executor).executor.native.sent =
        scheduled.executor.native.sent ++ (scheduled.executor.native.submissions ++ [.register]) :=
      congrArg ExecutorInstance.sent hnative
    have hregs : (scheduling.setScheduled index (scheduled.update executor)).registrations
        index (scheduled.update executor) = scheduling.registrations index scheduled ++ [true] := by
      have happend : (scheduling.setScheduled index (scheduled.update executor)).registrations index
          (scheduled.update executor) = scheduling.registrations index scheduled ++
            (scheduled.executor.native.submissions ++ [RingMessage.register]).filterMap
              RingMessage.registration := registrations_of_sent hsound rfl rfl hsent
      -- What was prepared before is no registration.
      rw [happend, filterMap_append, Scheduled.filterMap_eq_nil_of_plain hsound.plain]
      rfl
    refine ⟨fun _ => ?_, fun _ => ?_, fun _ _ hnone => ?_⟩
    · have hstate : (scheduled.update executor).executor.native.state = .idle :=
        congrArg ExecutorInstance.state hnative
      exact wakes_of_idle hstate
    · rw [hregs, getLast?_concat]
      rfl
    · rw [hregs] at hnone
      exact absurd (mem_append_right _ (mem_singleton_self _)) hnone
  | unregisters =>
    have hsent : (scheduled.update executor).executor.native.sent =
        scheduled.executor.native.sent ++
          (scheduled.executor.native.submissions ++ [.unregister]) :=
      congrArg ExecutorInstance.sent hnative
    exact .of_not_registered (Scheduled.not_registered_of_sent (hsent.trans (append_assoc ..).symm))
  | full hfull =>
    have hnot : ¬(scheduled.update executor).Registered := by
      intro hreg
      have hsent : (scheduled.update executor).executor.native.sent =
          scheduled.executor.native.sent ++ [] :=
        (congrArg ExecutorInstance.sent hnative).trans (append_nil _).symm
      have hbefore := (Scheduled.registered_of_sent hsent nofun).mp hreg
      -- A registered executor finds an entry, so that this one is not registered.
      have hfree : HasEntry scheduled.executor.native := hfinds rfl hbefore
      unfold HasEntry at hfree
      omega
    exact .of_not_registered hnot

/-- The beginning of a wakeup takes the post, and asks for the next poll. -/
theorem Watched.awakeBegin (h : scheduling.Watched index scheduled)
    (hfinds : scheduled.executor.Wakes → HasEntry scheduled.executor.native) :
    Watched index
      { scheduled with
        executor := scheduled.executor.awakeBegin.2, begun := scheduled.executor.awakeBegin.1 }
      (setScheduled index
        { scheduled with
          executor := scheduled.executor.awakeBegin.2, begun := scheduled.executor.awakeBegin.1 }
        { scheduling with posted := scheduling.posted.erase index }) := by
  have hbegins := scheduled.executor.begins_awakeBegin
  generalize scheduled.executor.awakeBegin = result at hbegins ⊢
  cases hbegins with
  | stopped hstate => exact .of_not_registered fun hreg => (h.awakens hreg).1 hstate
  | paused hstate => exact .of_not_registered fun hreg => (h.awakens hreg).2 hstate
  | full hwakes hfull =>
    have hfree := hfinds hwakes
    unfold HasEntry at hfree
    omega
  | begins =>
    refine h.mono Iff.rfl rfl rfl (fun _ => ?_) id fun _ => .inr rfl
    exact wakes_of_waking rfl

/-- With `executor_peek` the message for the next poll is on its way. -/
theorem Watched.awakePeek (h : scheduling.Watched index scheduled) (hsound : scheduled.Sound) :
    Watched index { scheduled with executor := scheduled.executor.awakePeek, begun := false }
      (scheduling.setScheduled index
        { scheduled with executor := scheduled.executor.awakePeek, begun := false }) := by
  obtain ⟨hsent, -, hstate, hdestr⟩ := scheduled.executor.awakePeek_eq
  refine h.of_calm hsound rfl rfl hsent hsound.plain (fun hwakes => ?_)
    (fun hlive => hdestr.symm.trans hlive) fun hstirs => .inl ?_
  · exact wakes_of_calm (hstate.imp_right .inl) hwakes
  · rcases hstirs with hstirs | hbegun
    · exact hstirs.of_sent hsound rfl id rfl hsent
    -- The wakeup has begun, so that its message is among those that are submitted.
    · have hpoll : SchedulerCompletion.poll index ∈
          scheduled.executor.native.submissions.filterMap (RingMessage.completion index) :=
        mem_filterMap.mpr ⟨.poll, hsound.begun hbegun, rfl⟩
      have hinFlight : (scheduling.setScheduled index
          { scheduled with executor := scheduled.executor.awakePeek, begun := false }).inFlight
            index
          { scheduled with executor := scheduled.executor.awakePeek, begun := false } =
          scheduling.inFlight index scheduled ++ scheduled.executor.native.submissions.filterMap
            (RingMessage.completion index) := inFlight_of_sent hsound rfl rfl hsent
      refine .inr (.inr (.inl ?_))
      rw [hinFlight]
      exact mem_append_right _ hpoll

/-- The message of an executor comes to the ring. -/
theorem Watched.deliver {message : RingMessage} (h : scheduling.Watched index scheduled)
    (hmsg : scheduled.executor.native.sent[scheduled.delivered]? = some message) :
    Watched index { scheduled with delivered := scheduled.delivered + 1 }
      { scheduling.setScheduled index { scheduled with delivered := scheduled.delivered + 1 } with
        scheduler := { scheduling.scheduler with
          completions :=
            scheduling.scheduler.completions ++ (message.completion index).toList } } := by
  have hinFlight : inFlight index { scheduled with delivered := scheduled.delivered + 1 }
      { scheduling.setScheduled index { scheduled with delivered := scheduled.delivered + 1 } with
        scheduler := { scheduling.scheduler with
          completions := scheduling.scheduler.completions ++ (message.completion index).toList } } =
      scheduling.inFlight index scheduled := inFlight_deliver hmsg
  refine h.mono Iff.rfl ?_ rfl id id fun hstirs => hstirs.imp_left fun hstirs => ?_
  · unfold registrations
    rw [hinFlight]
  · unfold Stirs
    rw [hinFlight]
    rcases hstirs with hpolls | hpollin | hpoll | hposted
    · exact .inl (Scheduler.mem_polls_submit hpolls rfl rfl)
    · exact .inr (.inl (mem_append_left _ hpollin))
    · exact .inr (.inr (.inl hpoll))
    · exact .inr (.inr (.inr hposted))

/-! ### What others do -/

/-- Completions that are not about the registration of the executor. -/
theorem registrations_append
    (hcomps : next.scheduler.completions = scheduling.scheduler.completions ++ completions)
    (hother : ∀ completion ∈ completions, completion.registration index = none) :
    next.registrations index scheduled = scheduling.registrations index scheduled := by
  unfold registrations inFlight
  rw [hcomps, filterMap_append, filterMap_append, filterMap_append,
    filterMap_eq_nil_iff.mpr hother, append_nil]

/-- More completions and more posts. -/
theorem Stirs.append (h : scheduling.Stirs index scheduled)
    (hcomps : next.scheduler.completions = scheduling.scheduler.completions ++ completions)
    (hpolls : index ∈ scheduling.scheduler.submit.polls → index ∈ next.scheduler.submit.polls)
    (hposted : index ∈ scheduling.posted → index ∈ next.posted) : next.Stirs index scheduled := by
  unfold Stirs inFlight
  rw [hcomps]
  rcases h with hpoll | hpollin | hpoll | hpost
  · exact .inl (hpolls hpoll)
  · exact .inr (.inl (mem_append_left _ hpollin))
  · refine .inr (.inr (.inl ?_))
    unfold inFlight at hpoll
    rw [mem_append] at hpoll
    rcases hpoll with hpoll | hpoll
    · exact mem_append_left _ (mem_append_left _ hpoll)
    · exact mem_append_right _ hpoll
  · exact .inr (.inr (.inr (hposted hpost)))

/-- Another executor, or the kernel, adds completions. -/
theorem Watched.append (h : scheduling.Watched index scheduled)
    (hcomps : next.scheduler.completions = scheduling.scheduler.completions ++ completions)
    (hother : ∀ completion ∈ completions, completion.registration index = none)
    (hexecs : next.scheduler.executors index = scheduling.scheduler.executors index)
    (hpolls : index ∈ scheduling.scheduler.submit.polls → index ∈ next.scheduler.submit.polls)
    (hposted : index ∈ scheduling.posted → index ∈ next.posted) : next.Watched index scheduled :=
  h.mono Iff.rfl (registrations_append hcomps hother) hexecs id id fun hstirs =>
    hstirs.imp_left fun hstirs => hstirs.append hcomps hpolls hposted

/-! ### What the scheduler does -/

variable (index scheduled) in
/-- What the completion that is handled was among the registrations. -/
theorem registrations_cons (hcomps : scheduling.scheduler.completions = completion :: completions)
    (hnext : next.scheduler.completions = completions ++ List.replicate count .failed) :
    scheduling.registrations index scheduled =
      (completion.registration index).toList ++ next.registrations index scheduled := by
  have hfailed : (List.replicate count SchedulerCompletion.failed).filterMap
      (SchedulerCompletion.registration index) = [] :=
    filterMap_eq_nil_iff.mpr fun completion hmem => (eq_of_mem_replicate hmem) ▸ rfl
  unfold registrations inFlight
  rw [hcomps, hnext, filterMap_append, filterMap_append, filterMap_append, hfailed,
    append_nil, ← append_assoc]
  congr 1
  rw [filterMap_cons]
  cases completion.registration index <;> rfl

theorem Stirs.handled (h : scheduling.Stirs index scheduled)
    (hcomps : scheduling.scheduler.completions = completion :: completions)
    (hnext : next.scheduler.completions = completions ++ List.replicate count .failed)
    (hpollin : completion ≠ .pollin index) (hpoll : completion ≠ .poll index)
    (hpolls : index ∈ scheduling.scheduler.submit.polls → index ∈ next.scheduler.submit.polls)
    (hposted : index ∈ scheduling.posted → index ∈ next.posted) : next.Stirs index scheduled := by
  have hrest {other : SchedulerCompletion} (hne : completion ≠ other)
      (hother : other ∈ scheduling.scheduler.completions) : other ∈ next.scheduler.completions := by
    rw [hcomps, mem_cons] at hother
    rw [hnext]
    exact mem_append_left _ (hother.resolve_left fun heq => hne heq.symm)
  rcases h with hstirs | hstirs | hstirs | hstirs
  · exact .inl (hpolls hstirs)
  · exact .inr (.inl (hrest hpollin hstirs))
  · refine .inr (.inr (.inl (mem_append.mpr ?_)))
    exact (mem_append.mp hstirs).imp_left (hrest hpoll)
  · exact .inr (.inr (.inr (hposted hstirs)))

/-- A completion is handled that is not about the executor. -/
theorem Watched.handled (h : scheduling.Watched index scheduled)
    (hcomps : scheduling.scheduler.completions = completion :: completions)
    (hnext : next.scheduler.completions = completions ++ List.replicate count .failed)
    (hreg : completion.registration index = none) (hpollin : completion ≠ .pollin index)
    (hpoll : completion ≠ .poll index)
    (hexecs : next.scheduler.executors index = scheduling.scheduler.executors index)
    (hpolls : index ∈ scheduling.scheduler.submit.polls → index ∈ next.scheduler.submit.polls)
    (hposted : index ∈ scheduling.posted → index ∈ next.posted) : next.Watched index scheduled := by
  refine h.mono Iff.rfl ?_ hexecs id id fun hstirs => hstirs.imp_left fun hstirs =>
    hstirs.handled hcomps hnext hpollin hpoll hpolls hposted
  rw [registrations_cons index scheduled hcomps hnext, hreg]
  rfl

/-- A completion is handled of which the executor is woken, or gets a poll. -/
theorem Watched.roused (h : scheduling.Watched index scheduled)
    (hcomps : scheduling.scheduler.completions = completion :: completions)
    (hnext : next.scheduler.completions = completions ++ List.replicate count .failed)
    (hregistration : completion.registration index = none)
    (hexecs : next.scheduler.executors index = scheduling.scheduler.executors index)
    (hstirs : scheduled.executor.destroyed = false → scheduling.scheduler.executors index = true →
      next.Stirs index scheduled) : next.Watched index scheduled := by
  have hregs : next.registrations index scheduled =
      scheduling.registrations index scheduled := by
    rw [registrations_cons index scheduled hcomps hnext, hregistration]
    rfl
  refine ⟨h.awakens, fun hreg => ?_, fun hlive hreg hnone => .inl ?_⟩
  · rw [hregs, hexecs]
    exact h.table hreg
  · rw [hregs] at hnone
    exact hstirs hlive (h.executors hreg hnone)

/-- A registration is handled. -/
theorem Watched.registered (h : scheduling.Watched index scheduled)
    (hcomps : scheduling.scheduler.completions = .register index :: completions)
    (hnext : next.scheduler.completions = completions ++ List.replicate count .failed)
    (hexecs : next.scheduler.executors index = true) (hstirs : next.Stirs index scheduled) :
    next.Watched index scheduled := by
  have hregs : scheduling.registrations index scheduled =
      true :: next.registrations index scheduled := by
    rw [registrations_cons index scheduled hcomps hnext, SchedulerCompletion.registration,
      if_pos rfl]
    rfl
  refine ⟨h.awakens, fun hreg => ?_, fun _ _ _ => .inl hstirs⟩
  -- The registration that is handled is the first of those in flight.
  have htable := h.table hreg
  rw [hregs, getLast?_cons, Option.getD_some] at htable
  rw [hexecs]
  exact htable

/-- The end of a registration is handled: where the executor is registered, that is on its way. -/
theorem Watched.unregistered (h : scheduling.Watched index scheduled)
    (hcomps : scheduling.scheduler.completions = .unregister index :: completions)
    (hnext : next.scheduler.completions = completions ++ List.replicate count .failed) :
    next.Watched index scheduled := by
  have hregs : scheduling.registrations index scheduled =
      false :: next.registrations index scheduled := by
    rw [registrations_cons index scheduled hcomps hnext,
      SchedulerCompletion.registration, if_pos rfl]
    rfl
  have hlast (hreg : scheduled.Registered) :
      (next.registrations index scheduled).getLast? = some true := by
    have htable := h.table hreg
    rw [hregs, getLast?_cons, Option.getD_some] at htable
    cases hlast : (next.registrations index scheduled).getLast? with
    | none =>
      rw [hlast] at htable
      cases htable
    | some last =>
      rw [hlast, Option.getD_some] at htable
      rw [htable]
  refine ⟨h.awakens, fun hreg => ?_, fun _ hreg hnone => ?_⟩
  · rw [hlast hreg]
    rfl
  · exact absurd (mem_of_getLast? (hlast hreg)) hnone

/-- The scheduler handles a completion. -/
theorem Watched.handle (h : scheduling.Watched index scheduled)
    (hcomps : scheduling.scheduler.completions = completion :: completions)
    (hopen : scheduled.executor.destroyed = false → scheduling.isOpen index = true) :
    Watched index scheduled { scheduling with
      scheduler := ({ scheduling.scheduler with completions := completions }.handle completion).2
      posted := scheduling.posted ++
        ({ scheduling.scheduler with completions := completions }.handle completion).1.filter
          scheduling.isOpen } := by
  have hposted {posts : List ℕ} (hpost : index ∈ scheduling.posted) :
      index ∈ scheduling.posted ++ posts := mem_append_left _ hpost
  have hnone : completions = completions ++ List.replicate 0 .failed := (append_nil _).symm
  have hsubmit (hpolls : index ∈ scheduling.scheduler.submit.polls) :
      index ∈ (Scheduler.submit { scheduling.scheduler with completions := completions }).polls :=
    Scheduler.mem_polls_submit hpolls rfl rfl
  have hprepare (request : PollRequest) := Scheduler.completions_prepare request
    { scheduling.scheduler with completions := completions }
  -- Each completion is about this executor, or about another.
  cases completion with
  | failed =>
    exact h.handled hcomps hnone rfl nofun nofun rfl
      hsubmit hposted
  | pollin other =>
    by_cases hother : other = index
    · subst hother
      refine h.roused hcomps hnone rfl rfl fun hlive htable => .inr (.inr (.inr ?_))
      refine mem_append_right _ (mem_filter.mpr ⟨?_, hopen hlive⟩)
      unfold Scheduler.handle
      dsimp only
      rw [if_pos htable]
      exact mem_singleton_self _
    · exact h.handled hcomps hnone rfl (fun h => hother (by cases h; rfl))
        nofun rfl hsubmit hposted
  | poll other =>
    by_cases htable : scheduling.scheduler.executors other = true
    · have hhandle :
        ({ scheduling.scheduler with completions := completions }.handle (.poll other)).2 =
          Scheduler.prepare (.add other) { scheduling.scheduler with completions := completions } :=
        if_pos htable
      obtain ⟨count, hnext⟩ := hprepare (.add other)
      have hexecs := congrFun (Scheduler.executors_prepare (.add other)
        { scheduling.scheduler with completions := completions }) index
      rw [hhandle]
      by_cases hother : other = index
      · subst hother
        refine h.roused hcomps hnext rfl hexecs fun _ _ => .inl ?_
        exact Scheduler.mem_polls_prepare_add.mpr (.inr rfl)
      · refine h.handled hcomps hnext rfl nofun
          (fun h => hother (by cases h; rfl)) hexecs (fun hpolls => ?_) hposted
        exact Scheduler.mem_polls_prepare_add.mpr (.inl (hsubmit hpolls))
    · have hhandle :
        ({ scheduling.scheduler with completions := completions }.handle (.poll other)).2 =
          { scheduling.scheduler with completions := completions } := if_neg htable
      rw [hhandle]
      by_cases hother : other = index
      · subst hother
        exact h.roused hcomps hnone rfl rfl fun _ hreg => absurd hreg htable
      · exact h.handled hcomps hnone rfl nofun
          (fun h => hother (by cases h; rfl)) rfl hsubmit hposted
  | register other =>
    obtain ⟨count, hnext⟩ := hprepare (.add other)
    -- The array is no part of a submission.
    have hpolls (hmem : index ∈ (Scheduler.submit (Scheduler.prepare (.add other)
        { scheduling.scheduler with completions := completions })).polls) :
        index ∈ (Scheduler.submit { Scheduler.prepare (.add other)
          { scheduling.scheduler with completions := completions } with
            executors := Function.update scheduling.scheduler.executors other true }).polls :=
      Scheduler.mem_polls_submit hmem rfl rfl
    by_cases hother : other = index
    · subst hother
      exact h.registered hcomps hnext (Function.update_self ..)
        (.inl (hpolls (Scheduler.mem_polls_prepare_add.mpr (.inr rfl))))
    · exact h.handled hcomps hnext (if_neg hother) nofun
        nofun (Function.update_of_ne (fun h => hother h.symm) ..)
        (fun hmem => hpolls (Scheduler.mem_polls_prepare_add.mpr (.inl (hsubmit hmem)))) hposted
  | unregister other =>
    by_cases htable : scheduling.scheduler.executors other = true
    · have hhandle :
          ({ scheduling.scheduler with completions := completions }.handle (.unregister other)).2 =
          { Scheduler.prepare (.remove other)
            { scheduling.scheduler with completions := completions } with
              executors := Function.update scheduling.scheduler.executors other false } :=
        congrArg Prod.snd (if_pos htable)
      obtain ⟨count, hnext⟩ := hprepare (.remove other)
      rw [hhandle]
      by_cases hother : other = index
      · subst hother
        exact h.unregistered hcomps hnext
      · refine h.handled hcomps hnext (if_neg hother) nofun
          nofun (Function.update_of_ne (fun h => hother h.symm) ..)
          (fun hmem => ?_) hposted
        have hremove : index ∈ (Scheduler.submit (Scheduler.prepare (.remove other)
            { scheduling.scheduler with completions := completions })).polls :=
          Scheduler.mem_polls_prepare_remove (Ne.symm hother) (hsubmit hmem)
        exact Scheduler.mem_polls_submit hremove rfl rfl
    · have hhandle :
          ({ scheduling.scheduler with completions := completions }.handle (.unregister other)).2 =
          { scheduling.scheduler with completions := completions } :=
            congrArg Prod.snd (if_neg htable)
      rw [hhandle]
      by_cases hother : other = index
      · subst hother
        exact h.unregistered hcomps hnone
      · exact h.handled hcomps hnone (if_neg hother) nofun
          nofun rfl hsubmit hposted

/-- A step of another executor, of the kernel, or of the scheduler. -/
theorem Watched.other (h : scheduling.Watched index scheduled)
    (hopen : scheduled.executor.destroyed = false → scheduling.isOpen index = true)
    (hmoves : Moves scheduling action next)
    (hother : ∀ place, action = .awake place ∨ action = .deliver place → index ≠ place) :
    next.Watched index scheduled := by
  -- The scheduler is as it was.
  have hsame {later : Scheduling} (hscheduler : later.scheduler = scheduling.scheduler)
      (hposted : index ∈ scheduling.posted → index ∈ later.posted) :
        later.Watched index scheduled :=
    h.append ((congrArg Scheduler.completions hscheduler).trans (append_nil _).symm)
      nofun (congrArg (·.executors index) hscheduler)
      (fun hmem => hscheduler.symm ▸ hmem) hposted
  cases hmoves with
  | create => exact hsame rfl id
  | act => exact hsame rfl id
  | @awake place =>
    have hne := hother place (.inl rfl)
    exact hsame rfl fun hmem => (mem_erase_of_ne hne).mpr hmem
  | @drop place =>
    have hne := hother place (.inl rfl)
    exact hsame rfl fun hmem => (mem_erase_of_ne hne).mpr hmem
  | peek => exact hsame rfl id
  | @deliver place old message =>
    have hne := hother place (.inr rfl)
    refine h.append rfl (fun completion hmem => ?_) rfl
      (fun hpolls => Scheduler.mem_polls_submit hpolls rfl rfl) id
    have hnone := RingMessage.registration_completion_of_ne (Ne.symm hne) message
    rw [Option.mem_toList.mp hmem] at hnone
    exact hnone
  | @pollin place hpoll =>
    by_cases heq : index = place
    · subst heq
      refine h.mono Iff.rfl (registrations_append rfl (forall_mem_singleton.mpr rfl)) rfl
        id id fun _ => .inl (.inr (.inl ?_))
      exact mem_append_right _ (mem_singleton_self _)
    · refine h.append rfl (forall_mem_singleton.mpr rfl) rfl (fun hpolls => ?_) id
      exact Scheduler.mem_polls_submit (Scheduler.mem_polls_submit_erase heq hpolls) rfl rfl
  | @handle completion completions hcomps => exact h.handle hcomps hopen
  | submit =>
    obtain ⟨count, hcomps⟩ := scheduling.scheduler.completions_submit
    refine h.append hcomps (fun completion hmem => eq_of_mem_replicate hmem ▸ rfl)
      (congrFun scheduling.scheduler.executors_submit index) (fun hpolls => ?_) id
    dsimp only
    rwa [Scheduler.submit_of_nil scheduling.scheduler.submissions_submit]

/-- The port of a sound executor is open as long as it is not destroyed. -/
theorem isOpen_of_sound (hsched : scheduling.executors[index]? = some scheduled)
    (hsound : scheduled.Sound) (hlive : scheduled.executor.destroyed = false) :
    scheduling.isOpen index = true := by
  unfold isOpen
  rw [hsched, Option.any_some, hsound.port, hlive]
  rfl

/-- What holds of all executors behind every step. -/
structure Attended (scheduling : Scheduling) : Prop where
  sound : ∀ scheduled ∈ scheduling.executors, scheduled.Sound
  watched : ∀ (index : ℕ) (scheduled : Scheduled), scheduling.executors[index]? = some scheduled →
    scheduling.Watched index scheduled

/-- A new executor is not registered. -/
theorem not_registered_create (descriptor ringSize : ℕ) (callbacks : List ℕ) (producers : ℕ) :
    ¬(Scheduled.create descriptor ringSize callbacks producers).Registered :=
  nofun

theorem Attended.step (h : scheduling.Attended) (hfinds : FindsEntry scheduling action)
    (hstep : step scheduling action = some next) : next.Attended := by
  refine ⟨sound_step h.sound hstep, fun index scheduled hsched => ?_⟩
  have hmoves := step_moves hstep
  have hother (hold : scheduling.executors[index]? = some scheduled)
      (hne : ∀ place, action = .awake place ∨ action = .deliver place → index ≠ place) :
      next.Watched index scheduled :=
    (h.watched index scheduled hold).other
      (isOpen_of_sound hold (h.sound scheduled (mem_of_getElem? hold))) hmoves hne
  -- The step is one of this executor, of another, or of the scheduler.
  cases hmoves with
  | create descriptor ringSize callbacks producers =>
    rcases getElem?_concat_eq_some.mp hsched with hsched | ⟨-, rfl⟩
    · exact hother hsched (by simp)
    · exact .of_not_registered (not_registered_create descriptor ringSize callbacks producers)
  | @act place action old executor hold hpermits hexec =>
    rcases getElem?_setScheduled hold hsched with ⟨rfl, rfl⟩ | ⟨-, hsame⟩
    · have hsound := h.sound old (mem_of_getElem? hold)
      have hawake : action ≠ .awake := by
        rintro rfl
        cases hpermits
      refine (h.watched index old hold).act hsound (Executor.step_move hexec).1
        (Executor.rings_step hsound.plain hawake hexec) ?_
      rintro rfl hreg
      exact hfinds old hold hreg
    · exact hother hsame (by simp)
  | @awake place old hold hport hbegun =>
    rcases getElem?_setScheduled hold hsched with ⟨rfl, rfl⟩ | ⟨hne, hsame⟩
    · have hlive := (h.sound old (mem_of_getElem? hold)).not_destroyed hport
      exact (h.watched index old hold).awakeBegin (hfinds old hold hlive)
    · exact hother hsame (by simpa using hne)
  | @drop place old hold hclosed =>
    by_cases heq : index = place
    · -- The port of an executor that is not destroyed is open.
      subst heq
      obtain rfl := Option.some.inj (hold.symm.trans hsched)
      have hsound := h.sound old (mem_of_getElem? hold)
      have hdestr : old.executor.destroyed = true := by
        rw [hsound.port, hsound.slot, or_self, Bool.not_eq_false'] at hclosed
        exact hclosed
      have hwatched := h.watched index old hold
      refine ⟨hwatched.awakens, hwatched.table, fun hlive => ?_⟩
      rw [hdestr] at hlive
      cases hlive
    · exact hother hsched (by simpa using heq)
  | @peek place old hold hbegun =>
    rcases getElem?_setScheduled hold hsched with ⟨rfl, rfl⟩ | ⟨-, hsame⟩
    · exact (h.watched index old hold).awakePeek (h.sound old (mem_of_getElem? hold))
    · exact hother hsame (by simp)
  | @deliver place old message hold hmsg =>
    rcases getElem?_setScheduled hold hsched with ⟨rfl, rfl⟩ | ⟨hne, hsame⟩
    · exact (h.watched index old hold).deliver hmsg
    · exact hother hsame (by simpa using hne)
  | pollin | handle | submit => exact hother hsched (by simp)

end Scheduling

end FengShui.Executors
