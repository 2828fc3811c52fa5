import FengShui.Transport.EventMap
import Mathlib.Algebra.Order.Archimedean.Real.Basic
import Mathlib.Algebra.Order.Floor.Semiring
import Mathlib.Data.Nat.Cast.Order.Field
import Mathlib.Tactic.Linarith
import Mathlib.Tactic.NormNum

/-!
# Timeouts in real time (`transport.c` and `factory.dart` of `transport`)

A timeout is a `Duration` of microseconds. The factories keep its whole seconds, the table of events
has the whole second in which an operation was submitted, and the checker compares it with the whole
second in which it runs. `timeouts_of_run` says what that comes to in real time, for every run of
native calls under a monotone clock in which no resize of the table ends in front of the last
deletion of a call.
-/

namespace FengShui.Transport

open FengShui.Transition FengShui.SimpleMap FengShui.SimpleMap.Map List

/-! ## Durations -/

/-- A `Duration` that is not negative; its microseconds are an `int`. -/
structure Duration where
  microseconds : ℕ
  isLt : microseconds < 2 ^ 63

namespace Duration

def inSeconds (duration : Duration) : ℕ := duration.microseconds / 1000000

/-- How long it really lasts. -/
noncomputable def seconds (duration : Duration) : ℝ := duration.microseconds / 1000000

theorem inSeconds_lt (duration : Duration) : duration.inSeconds < 2 ^ 63 :=
  (Nat.div_le_self _ _).trans_lt duration.isLt

theorem inSeconds_le (duration : Duration) : (duration.inSeconds : ℝ) ≤ duration.seconds := by
  unfold inSeconds seconds
  have hle : ((duration.microseconds / 1000000 : ℕ) : ℝ) ≤
      (duration.microseconds : ℝ) / (1000000 : ℕ) := Nat.cast_div_le
  exact_mod_cast hle

end Duration

/-- `configuration.…Timeout?.inSeconds`, and `transportTimeoutInfinity` where there is none. -/
def timeoutInSeconds (timeout : Option Duration) : ℤ :=
  (timeout.map fun duration => (duration.inSeconds : ℤ)).getD transportTimeoutInfinity

/-- `time(NULL)`. -/
noncomputable def timeNull (time : ℝ) : ℕ := ⌊time⌋₊

/-! ## Native calls in time -/

/-- An operation in flight: its user data, its descriptor, its timeout and when it was submitted. -/
structure Timed where
  data : ℕ
  fd : ℕ
  timeout : Option Duration
  start : ℝ

/-- The node that `transport_add_event` makes. -/
noncomputable def Timed.node (operation : Timed) : Node :=
  ⟨operation.data, timeoutInSeconds operation.timeout, timeNull operation.start, operation.fd⟩

inductive TimedCall where
  | submit (data fd : ℕ) (timeout : Option Duration)
  /-- The completion of an operation takes its node away. -/
  | complete (data : ℕ)
  | cancelByFd (fd free : ℕ)
  | checkEventTimeouts (free : ℕ)

structure Clocked where
  now : ℝ
  inflight : List Timed
  events : Map Node
  /-- The operations for which a cancel was prepared. -/
  canceled : List ℕ

namespace Clocked

/-- With the table that `transport_initialize` has made. -/
def create (now : ℝ) (events : Map Node) : Clocked := ⟨now, [], events, []⟩

/-- What a native call does. Of what is in flight no two operations have the same user data. -/
noncomputable def call (time : ℝ) (state : Clocked) : TimedCall → Option Clocked
  | .submit data fd timeout =>
    if data ∈ state.inflight.map Timed.data then none
    else
      let operation : Timed := ⟨data, fd, timeout, time⟩
      (state.events.putCopy operation.node).map fun events =>
        ⟨time, state.inflight ++ [operation], events, state.canceled.filter (· ≠ data)⟩
  | .complete data =>
    if data ∈ state.inflight.map Timed.data then
      (EventMap.removeEvent state.events data).map fun events =>
        ⟨time, state.inflight.filter fun operation => operation.data ≠ data, events,
          state.canceled⟩
    else none
  | .cancelByFd fd free =>
    (EventMap.cancelByFd state.events fd free).map fun result =>
      ⟨time, state.inflight, result.2.2, state.canceled ++ result.2.1⟩
  | .checkEventTimeouts free =>
    (EventMap.checkEventTimeouts state.events (fun _ => timeNull time) free).map fun result =>
      ⟨time, state.inflight, result.2, state.canceled ++ result.1⟩

/-- A call at a time that is not before the last one, and that a `time_t` can say. -/
noncomputable def step (state : Clocked) (timed : ℝ × TimedCall) : Option Clocked :=
  if state.now ≤ timed.1 ∧ timed.1 < 2 ^ 63 then state.call timed.1 timed.2 else none

/-- No resize of the table ends in front of the last deletion of a call. -/
def Steady (state : Clocked) (timed : ℝ × TimedCall) : Prop :=
  match timed.2 with
  | .submit .. | .complete _ => True
  | .cancelByFd fd free => (EventMap.ofFd state.events fd).length ≤ free →
    InPlace state.events (EventMap.ofFd state.events fd).length
  | .checkEventTimeouts free =>
    InPlace state.events (EventMap.due state.events (fun _ => timeNull timed.1) free).length

/-! ## What the table says -/

/-- The table has the nodes of what is in flight, and no others but those that are cancelled. -/
structure Sound (state : Clocked) : Prop where
  valid : state.events.Valid
  nodes : ∀ node ∈ state.events.nodes, ∃ operation ∈ state.inflight, node = operation.node
  kept : ∀ operation ∈ state.inflight, operation.data ∉ state.canceled →
    operation.node ∈ state.events.nodes
  nodup : (state.inflight.map Timed.data).Nodup
  past : ∀ operation ∈ state.inflight, 0 ≤ operation.start ∧ operation.start ≤ state.now
  nonneg : 0 ≤ state.now

variable {state next : Clocked} {time : ℝ}

theorem sound_create {now : ℝ} {events : Map Node} (hnow : 0 ≤ now) (hvalid : events.Valid)
    (hnone : events.nodes = []) : (create now events).Sound where
  valid := hvalid
  nodes node hnode := by
    have hmem : node ∈ events.nodes := hnode
    rw [hnone] at hmem
    cases hmem
  kept _ h := by cases h
  nodup := nodup_nil
  past _ h := by cases h
  nonneg := hnow

theorem Sound.submit (h : state.Sound) {data fd : ℕ} {timeout : Option Duration}
    (htime : state.now ≤ time) (hcall : state.call time (.submit data fd timeout) = some next)
    (hprime : next.events.prime < 29) : next.Sound := by
  unfold call at hcall
  dsimp only at hcall
  split_ifs at hcall with hfresh
  obtain ⟨events, hput, rfl⟩ := Option.map_eq_some_iff.mp hcall
  obtain ⟨hvalid, hnodes⟩ := h.valid.of_putCopy hput hprime
  have hother : ∀ operation ∈ state.inflight, operation.data ≠ data := fun operation hmem heq =>
    hfresh (heq ▸ mem_map_of_mem hmem)
  refine ⟨hvalid, fun node hnode => ?_, fun operation hmem hcancel => (hnodes _).mpr ?_, ?_,
    fun operation hmem => ?_, h.nonneg.trans htime⟩
  · rcases (hnodes node).mp hnode with rfl | ⟨hold, -⟩
    · exact ⟨_, mem_append_right _ (mem_singleton_self _), rfl⟩
    · obtain ⟨operation, hmem, heq⟩ := h.nodes node hold
      exact ⟨operation, mem_append_left _ hmem, heq⟩
  · rcases mem_append.mp hmem with hold | hnew
    · refine .inr ⟨h.kept operation hold fun hin => ?_, hother operation hold⟩
      exact hcancel (mem_filter.mpr ⟨hin, decide_eq_true (hother operation hold)⟩)
    · exact .inl (by rw [mem_singleton.mp hnew])
  · dsimp only
    rw [map_append]
    refine nodup_append.mpr ⟨h.nodup, nodup_singleton _, ?_⟩
    rintro other hmem _ hdata rfl
    have hsame : other = data := mem_singleton.mp hdata
    exact hfresh (hsame ▸ hmem)
  · rcases mem_append.mp hmem with hold | hnew
    · exact ⟨(h.past operation hold).1, (h.past operation hold).2.trans htime⟩
    · rw [mem_singleton.mp hnew]
      exact ⟨h.nonneg.trans htime, le_rfl⟩

theorem Sound.complete (h : state.Sound) {data : ℕ} (htime : state.now ≤ time)
    (hcall : state.call time (.complete data) = some next) : next.Sound := by
  unfold call at hcall
  dsimp only at hcall
  split_ifs at hcall
  obtain ⟨events, hremove, rfl⟩ := Option.map_eq_some_iff.mp hcall
  obtain ⟨after, hafter, hvalid, hnodes⟩ := EventMap.exists_removeEvent h.valid data
  obtain rfl := Option.some.inj (hafter.symm.trans hremove)
  refine ⟨hvalid, fun node hnode => ?_, fun operation hmem hcancel => (hnodes _).mpr ?_,
    h.nodup.sublist (filter_sublist.map _), fun operation hmem => ?_, h.nonneg.trans htime⟩
  · obtain ⟨hold, hdata⟩ := (hnodes node).mp hnode
    obtain ⟨operation, hmem, rfl⟩ := h.nodes node hold
    exact ⟨operation, mem_filter.mpr ⟨hmem, decide_eq_true hdata⟩, rfl⟩
  · obtain ⟨hold, hdata⟩ := mem_filter.mp hmem
    exact ⟨h.kept operation hold hcancel, of_decide_eq_true hdata⟩
  · have hpast := h.past operation (mem_of_mem_filter hmem)
    exact ⟨hpast.1, hpast.2.trans htime⟩

/-- Nodes go only where a cancel is prepared for them. -/
theorem Sound.cancel (h : state.Sound) (htime : state.now ≤ time) {events : Map Node}
    {nodes : List Node} {canceled : List ℕ} (hvalid : events.Valid)
    (hperm : state.events.nodes.Perm (nodes ++ events.nodes))
    (hcancel : ∀ node ∈ nodes, node.data ∈ canceled) :
    Sound ⟨time, state.inflight, events, state.canceled ++ canceled⟩ where
  valid := hvalid
  nodes node hnode := h.nodes node (hperm.mem_iff.mpr (mem_append_right _ hnode))
  kept operation hmem hout := by
    rw [mem_append, not_or] at hout
    have hnode := hperm.mem_iff.mp (h.kept operation hmem hout.1)
    rcases mem_append.mp hnode with hgone | hkept
    · exact absurd (hcancel _ hgone) hout.2
    · exact hkept
  nodup := h.nodup
  past operation hmem :=
    ⟨(h.past operation hmem).1, (h.past operation hmem).2.trans htime⟩
  nonneg := h.nonneg.trans htime

theorem Sound.call (h : state.Sound) {made : TimedCall} (htime : state.now ≤ time)
    (hsteady : Steady state (time, made)) (hcall : state.call time made = some next)
    (hprime : next.events.prime < 29) : next.Sound := by
  cases made with
  | submit data fd timeout => exact h.submit htime hcall hprime
  | complete data => exact h.complete htime hcall
  | cancelByFd fd free =>
    obtain ⟨⟨done, prepared, events⟩, hcancel, rfl⟩ := Option.map_eq_some_iff.mp hcall
    rcases lt_or_ge free (EventMap.ofFd state.events fd).length with hlt | hge
    · rw [EventMap.cancelByFd_of_lt hlt] at hcancel
      obtain ⟨-, -, rfl⟩ := hcancel
      have hsame : state.events.nodes.Perm ([] ++ state.events.nodes) := .refl _
      exact h.cancel htime h.valid hsame nofun
    · obtain ⟨after, hafter, hvalid, hperm⟩ :=
        EventMap.exists_cancelByFd h.valid hge (hsteady hge)
      obtain ⟨-, rfl, rfl⟩ := hafter.symm.trans hcancel
      exact h.cancel htime hvalid hperm fun node hnode => mem_map_of_mem hnode
  | checkEventTimeouts free =>
    obtain ⟨⟨prepared, events⟩, hcheck, rfl⟩ := Option.map_eq_some_iff.mp hcall
    obtain ⟨after, hafter, hvalid, hperm⟩ :=
      EventMap.exists_checkEventTimeouts h.valid hsteady
    obtain ⟨rfl, rfl⟩ := hafter.symm.trans hcheck
    refine h.cancel htime hvalid hperm fun node hnode => ?_
    obtain ⟨entry, hent, rfl⟩ := mem_map.mp hnode
    exact mem_map_of_mem hent

/-- A call does not make the table smaller. -/
theorem prime_of_call {made : TimedCall} (hcall : state.call time made = some next) :
    state.events.prime ≤ next.events.prime := by
  unfold call at hcall
  cases made with
  | submit data fd timeout =>
    dsimp only at hcall
    split_ifs at hcall
    obtain ⟨events, hput, rfl⟩ := Option.map_eq_some_iff.mp hcall
    exact (prime_of_putCopy hput).1
  | complete data =>
    dsimp only at hcall
    split_ifs at hcall
    obtain ⟨events, hremove, rfl⟩ := Option.map_eq_some_iff.mp hcall
    obtain ⟨indices, hrun⟩ := EventMap.exists_run_of_removeEvent hremove
    exact (prime_of_run hrun).ge
  | cancelByFd fd free =>
    obtain ⟨⟨done, prepared, events⟩, hcancel, rfl⟩ := Option.map_eq_some_iff.mp hcall
    obtain ⟨indices, hrun⟩ := EventMap.exists_run_of_cancelByFd hcancel
    exact (prime_of_run hrun).ge
  | checkEventTimeouts free =>
    obtain ⟨⟨prepared, events⟩, hcheck, rfl⟩ := Option.map_eq_some_iff.mp hcall
    obtain ⟨indices, hrun⟩ := EventMap.exists_run_of_checkEventTimeouts hcheck
    exact (prime_of_run hrun).ge

theorem sound_of_run {capacity : ℕ} {start : Map Node}
    (hstart : (Map.create : Map Node).reserve capacity = some start) {now : ℝ} (hnow : 0 ≤ now)
    {calls : List (ℝ × TimedCall)} (hsteady : Along Clocked.step Steady (create now start) calls)
    (hrun : run Clocked.step (create now start) calls = some state)
    (hprime : state.events.prime < 29) : state.Sound := by
  refine run_induction (fun _ state => state.events.prime < 29 → state.Sound)
    (fun _ state timed next h hsteady hstep hless => ?_) (fun hless => ?_) hsteady hrun hprime
  · unfold Clocked.step at hstep
    split_ifs at hstep with htime
    exact (h ((prime_of_call hstep).trans_lt hless)).call htime.1 hsteady hstep hless
  · obtain ⟨hvalid, hnone⟩ := valid_of_reserve hstart hless
    exact sound_create hnow hvalid hnone

/-! ## What the checker does -/

variable {operation : Timed} {duration : Duration} {free : ℕ}

/-- The whole seconds of the clock and of the timeout decide. -/
theorem expired_iff (hduration : operation.timeout = some duration)
    (hstart : operation.start ≤ time) (htime : time < 2 ^ 63) :
    EventMap.expired (timeNull time) operation.node = true ↔
      timeNull operation.start + duration.inSeconds < timeNull time := by
  have hle : timeNull operation.start ≤ timeNull time := Nat.floor_mono hstart
  have hlt : timeNull time < 2 ^ 63 := (Nat.floor_lt' (by decide)).mpr (by exact_mod_cast htime)
  have hseconds := duration.inSeconds_lt
  have hnode : operation.node.timeout = (duration.inSeconds : ℤ) := by
    unfold Timed.node timeoutInSeconds
    rw [hduration]
    rfl
  have hstamp : operation.node.timestamp = timeNull operation.start := rfl
  unfold EventMap.expired transportTimeoutInfinity
  rw [hnode, hstamp, Bool.and_eq_true, decide_eq_true_iff, decide_eq_true_iff]
  omega

/-- The operations for which a call has prepared a cancel. -/
def prepared (state next : Clocked) : List ℕ := next.canceled.drop state.canceled.length

/-- What a check prepares is what is due. -/
theorem prepared_check (hcall : state.call time (.checkEventTimeouts free) = some next) :
    prepared state next = (EventMap.due state.events (fun _ => timeNull time) free).map
      fun entry => entry.2.data := by
  obtain ⟨⟨prepared, events⟩, hcheck, rfl⟩ := Option.map_eq_some_iff.mp hcall
  rw [EventMap.checkEventTimeouts_eq] at hcheck
  obtain ⟨last, -, heq⟩ := Option.map_eq_some_iff.mp hcheck
  cases heq
  exact drop_left

/-- The checker cancels an operation only if its node has expired. -/
theorem expired_of_prepared (h : state.Sound) (hmem : operation ∈ state.inflight)
    (hcall : state.call time (.checkEventTimeouts free) = some next)
    (hprepared : operation.data ∈ prepared state next) :
    EventMap.expired (timeNull time) operation.node = true := by
  rw [prepared_check hcall] at hprepared
  obtain ⟨entry, hent, heq⟩ := mem_map.mp hprepared
  obtain ⟨hnode, hexpired⟩ := EventMap.mem_due hent
  obtain ⟨other, hother, hsame⟩ := h.nodes entry.2 hnode
  rw [hsame] at heq hexpired
  obtain rfl : other = operation := inj_on_of_nodup_map h.nodup hother hmem heq
  exact hexpired

/-- With room it cancels every operation whose node is in the table and has expired. -/
theorem prepared_of_expired (hnode : operation.node ∈ state.events.nodes)
    (hexpired : EventMap.expired (timeNull time) operation.node = true)
    (hroom : (state.events.nodes.filter (EventMap.expired (timeNull time))).length ≤ free)
    (hcall : state.call time (.checkEventTimeouts free) = some next) :
    operation.data ∈ prepared state next := by
  have hlen : (state.events.foreach.filter fun entry =>
      EventMap.expired (timeNull time) entry.2).length ≤ free := by
    rw [← foreach_snd, filter_map, length_map] at hroom
    exact hroom
  obtain ⟨index, hslot⟩ := mem_nodes.mp hnode
  rw [prepared_check hcall]
  unfold EventMap.due
  rw [take_of_length_le hlen]
  refine mem_map.mpr ⟨(index, operation.node), ?_, rfl⟩
  exact mem_filter.mpr ⟨mem_foreach.mpr hslot, hexpired⟩

/-! ### In real time -/

theorem elapsed_of_lt (hnonneg : 0 ≤ time)
    (hlt : timeNull operation.start + duration.inSeconds < timeNull time) :
    operation.start - timeNull operation.start + (time - operation.start) ≥
      duration.inSeconds + 1 := by
  have hfloor : (timeNull time : ℝ) ≤ time := Nat.floor_le hnonneg
  have hcast : (timeNull operation.start : ℝ) + duration.inSeconds + 1 ≤ timeNull time := by
    exact_mod_cast hlt
  linarith

/-- More than its whole seconds have passed when an operation is due, and its timeout itself, unless
the fractions of the start and of the timeout are more than a second. -/
theorem not_early (hnonneg : 0 ≤ time)
    (hlt : timeNull operation.start + duration.inSeconds < timeNull time) :
    duration.inSeconds < time - operation.start ∧
      ((operation.start - timeNull operation.start) + (duration.seconds - duration.inSeconds) ≤ 1 →
        duration.seconds ≤ time - operation.start) := by
  have helapsed := elapsed_of_lt hnonneg hlt
  have hfraction : operation.start < timeNull operation.start + 1 := Nat.lt_floor_add_one _
  constructor
  · linarith
  · intro hfractions
    linarith

theorem not_forgotten (hstart : 0 ≤ operation.start)
    (hlate : duration.seconds + 2 < time - operation.start) :
    timeNull operation.start + duration.inSeconds < timeNull time := by
  have hfloor : (timeNull operation.start : ℝ) ≤ operation.start := Nat.floor_le hstart
  have hfraction : time < timeNull time + 1 := Nat.lt_floor_add_one _
  have hseconds := duration.inSeconds_le
  have hcast : (timeNull operation.start : ℝ) + duration.inSeconds < timeNull time := by linarith
  exact_mod_cast hcast

/-- In every run under a monotone clock in which no resize of the table ends in front of the last
deletion of a call, the checker cancels an operation in flight only when more than the whole seconds
of its timeout have passed, and its whole timeout, unless the fractions of the start and of the
timeout are more than a second; and where more than two seconds above the timeout have passed it
does cancel it, if the ring has room. -/
theorem timeouts_of_run {capacity : ℕ} {start : Map Node}
    (hstart : (Map.create : Map Node).reserve capacity = some start) {now : ℝ} (hnow : 0 ≤ now)
    {calls : List (ℝ × TimedCall)} (hsteady : Along Clocked.step Steady (create now start) calls)
    (hrun : run Clocked.step (create now start) calls = some state)
    (hprime : state.events.prime < 29) {free : ℕ}
    (hstep : state.step (time, .checkEventTimeouts free) = some next) {operation : Timed}
    {duration : Duration} (hmem : operation ∈ state.inflight)
    (hduration : operation.timeout = some duration) :
    (operation.data ∈ prepared state next →
      duration.inSeconds < time - operation.start ∧
        ((operation.start - timeNull operation.start) + (duration.seconds - duration.inSeconds) ≤
          1 →
          duration.seconds ≤ time - operation.start)) ∧
      (operation.data ∉ state.canceled →
        (state.events.nodes.filter (EventMap.expired (timeNull time))).length ≤ free →
          duration.seconds + 2 < time - operation.start →
            operation.data ∈ prepared state next) := by
  have hsound := sound_of_run hstart hnow hsteady hrun hprime
  obtain ⟨hbegin, hpast⟩ := hsound.past operation hmem
  unfold Clocked.step at hstep
  split_ifs at hstep with htime
  have hexpired := expired_iff hduration (hpast.trans htime.1) htime.2
  constructor
  · intro hprepared
    exact not_early (hbegin.trans (hpast.trans htime.1))
      (hexpired.mp (expired_of_prepared hsound hmem hstep hprepared))
  · intro hcanceled hroom hlate
    exact prepared_of_expired (hsound.kept operation hmem hcanceled)
      (hexpired.mpr (not_forgotten hbegin hlate)) hroom hstep

/-- A second and a half. -/
def oneAndHalf : Duration := ⟨1500000, by decide⟩

/-- An operation with this timeout that is submitted at 0.9. -/
noncomputable def submitted : Clocked where
  now := 9 / 10
  inflight := [⟨1, 5, some oneAndHalf, 9 / 10⟩]
  events := {
    table := ⟨[⟨none, false⟩, ⟨some ⟨1, 1, 0, 5⟩, false⟩, ⟨none, false⟩], 1, 1⟩
    shadow := ⟨[], 0, 0⟩
    prime := 0
    resizeCnt := 0
    resizePosition := 0
    batch := 0 }
  canceled := []

theorem run_submitted : run Clocked.step (create 0 Map.create)
    [(9 / 10, .submit 1 5 (some oneAndHalf))] = some submitted := by
  have hfloor : timeNull (9 / 10) = 0 := Nat.floor_eq_zero.mpr (by norm_num)
  have hnode : Timed.node ⟨1, 5, some oneAndHalf, 9 / 10⟩ = ⟨1, 1, 0, 5⟩ := by
    unfold Timed.node
    rw [hfloor]
    rfl
  have hcall : (create 0 Map.create).call (9 / 10) (.submit 1 5 (some oneAndHalf)) =
      some submitted := by
    have hfresh : (1 : ℕ) ∉ (create 0 Map.create).inflight.map Timed.data := not_mem_nil
    unfold call
    dsimp only
    rw [if_neg hfresh, hnode]
    rfl
  rw [run_cons, Clocked.step, if_pos (by norm_num [create]), hcall]
  rfl

/-- The checker, two seconds into the clock or later. -/
theorem check_submitted (seconds : ℕ) (htwo : 2 ≤ seconds) (hlt : seconds < 2 ^ 63) :
    ∃ next, submitted.step (seconds, .checkEventTimeouts 1) = some next ∧
      prepared submitted next = [1] := by
  have hfloor : timeNull seconds = seconds := Nat.floor_natCast seconds
  have hlow : (2 : ℝ) ≤ seconds := by exact_mod_cast htwo
  have hhigh : (seconds : ℝ) < 2 ^ 63 := by exact_mod_cast hlt
  have hexpired : EventMap.expired seconds ⟨1, 1, 0, 5⟩ = true := by
    unfold EventMap.expired transportTimeoutInfinity
    dsimp only
    rw [Bool.and_eq_true, decide_eq_true_iff, decide_eq_true_iff]
    omega
  have hdue : EventMap.due submitted.events (fun _ => timeNull seconds) 1 =
      [(1, ⟨1, 1, 0, 5⟩)] := by
    have hforeach : submitted.events.foreach = [(1, ⟨1, 1, 0, 5⟩)] := rfl
    unfold EventMap.due
    simp [hforeach, hfloor, hexpired]
  have hnow : submitted.now ≤ seconds := by
    have hsubm : submitted.now = 9 / 10 := rfl
    rw [hsubm]
    linarith
  have hcheck : ∃ next, submitted.call seconds (.checkEventTimeouts 1) = some next := by
    unfold call
    dsimp only
    rw [EventMap.checkEventTimeouts_eq, hdue]
    exact ⟨_, rfl⟩
  obtain ⟨next, hcall⟩ := hcheck
  refine ⟨next, (if_pos ⟨hnow, hhigh⟩).trans hcall, ?_⟩
  rw [prepared_check hcall, hdue]
  rfl

/-- At 5 it is cancelled. -/
theorem timeouts_of_run_late : ∃ next, submitted.step (5, .checkEventTimeouts 1) = some next ∧
    1 ∈ prepared submitted next := by
  obtain ⟨next, hstep, -⟩ := check_submitted 5 (by decide) (by decide)
  have hfive : ((5 : ℕ) : ℝ) = 5 := by norm_num
  rw [hfive] at hstep
  refine ⟨next, hstep, ?_⟩
  have hmem : (⟨1, 5, some oneAndHalf, 9 / 10⟩ : Timed) ∈ submitted.inflight :=
    List.mem_singleton_self _
  have hsteady : Along Clocked.step Steady (create 0 Map.create)
      [(9 / 10, .submit 1 5 (some oneAndHalf))] := ⟨trivial, fun _ _ => trivial⟩
  have hbounds := (@timeouts_of_run _ _ _ 0 Map.create rfl 0 le_rfl _ hsteady run_submitted
    (by decide) _ hstep _ _ hmem rfl).2
  refine hbounds List.not_mem_nil (List.length_filter_le _ _) ?_
  norm_num [Duration.seconds, oneAndHalf]

/-- At 2 it is cancelled, which is 1.1 seconds behind its start. -/
theorem not_timeouts : ¬∀ (state next : Clocked) (time : ℝ) (free : ℕ) (operation : Timed)
    (duration : Duration), Reachable Clocked.step (create 0 Map.create) state →
      state.step (time, .checkEventTimeouts free) = some next → operation ∈ state.inflight →
        operation.timeout = some duration → operation.data ∈ prepared state next →
          duration.seconds ≤ time - operation.start := by
  intro h
  obtain ⟨next, hstep, hprepared⟩ := check_submitted 2 le_rfl (by decide)
  have hearly := h submitted next (2 : ℕ) 1 ⟨1, 5, some oneAndHalf, 9 / 10⟩ oneAndHalf
    ⟨_, run_submitted⟩ hstep (List.mem_singleton_self _) rfl
    (by rw [hprepared]; exact List.mem_singleton_self 1)
  norm_num [Duration.seconds, oneAndHalf] at hearly

end Clocked

end FengShui.Transport
