import FengShui.Lib.Transition
import FengShui.Reactive.Broker

/-!
# What a lease admits

A request reads the clock twice, in `restricted` and in `notify`, and time may pass in between. The
invariant over any calls is that what was admitted since the last `reconfigure` and what is still
available come to no more than it granted.
-/

namespace FengShui.Reactive

open FengShui.Transition

namespace ReactiveLeaseLimiter

/-- The guard of `ReactiveBroker.request`, with what `restricted` and `notify` read from the clock:
whether the count is admitted, and the limiter behind it. -/
def ask (checkedAt notedAt count : ℤ) (limiter : ReactiveLeaseLimiter) :
    Bool × ReactiveLeaseLimiter :=
  if limiter.enabled then
    let (restricted, limiter) := limiter.restricted checkedAt count
    if restricted then (false, limiter) else (true, limiter.notify notedAt count)
  else (true, limiter)

/-- The guard in the broker is the one whose two readings are the same. -/
theorem checkLease_eq_ask {Value : Type} (count : ℕ) (broker : ReactiveBroker Value) :
    ReactiveBroker.checkLease count broker =
      ((broker.leaseLimiter.ask broker.now broker.now count).1,
        { broker with
          leaseLimiter := (broker.leaseLimiter.ask broker.now broker.now count).2 }) := by
  unfold ReactiveBroker.checkLease ask
  by_cases henabled : broker.leaseLimiter.enabled
  · rw [if_pos henabled, if_pos henabled]
    rcases broker.leaseLimiter.restricted broker.now count with ⟨restricted, limiter⟩
    cases restricted <;> rfl
  · rw [if_neg henabled, if_neg henabled]

/-- A refusal leaves the budget as it is, or takes away what is there when the time is over. -/
structure Refused (count : ℤ) (limiter limiter' : ReactiveLeaseLimiter) : Prop where
  available : limiter'.available = limiter.available ∨
    count ≤ limiter.available ∧ limiter'.available = 0
  rest : limiter' = { limiter with available := limiter'.available }

/-- What is admitted was there, in time, and is taken from the budget. -/
structure Admitted (checkedAt count : ℤ) (limiter limiter' : ReactiveLeaseLimiter) : Prop where
  count_le : count ≤ limiter.available
  intime : checkedAt - limiter.timestamp ≤ limiter.timeToLive
  available : limiter'.available = limiter.available - count ∨ limiter'.available = 0
  rest : limiter' = { limiter with available := limiter'.available }

variable {limiter : ReactiveLeaseLimiter}

/-- `notify` takes away a count that is there, or all once the time is over. -/
theorem notify_spec {count : ℤ} (now : ℤ) (hcount : count ≤ limiter.available) :
    ((limiter.notify now count).available = limiter.available - count ∨
      (limiter.notify now count).available = 0) ∧
    limiter.notify now count =
      { limiter with available := (limiter.notify now count).available } := by
  unfold notify
  have hmax : max (limiter.available - count) 0 = limiter.available - count :=
    max_eq_left (by omega)
  dsimp only
  split
  · exact ⟨.inr rfl, rfl⟩
  · exact ⟨.inl hmax, rfl⟩

/-- The guard of a limiter that was configured refuses or admits. -/
theorem admit_spec (henabled : limiter.enabled = true) (checkedAt notedAt count : ℤ) :
    (limiter.ask checkedAt notedAt count).1 = false ∧
      Refused count limiter (limiter.ask checkedAt notedAt count).2 ∨
    (limiter.ask checkedAt notedAt count).1 = true ∧
      Admitted checkedAt count limiter (limiter.ask checkedAt notedAt count).2 := by
  unfold ask
  rw [if_pos henabled]
  -- `restricted` has two guards, the count first.
  unfold restricted
  by_cases hfew : limiter.available < count
  · rw [if_pos hfew]
    exact .inl ⟨rfl, .inl rfl, rfl⟩
  · rw [if_neg hfew]
    have hcount : count ≤ limiter.available := not_lt.mp hfew
    by_cases hlate : checkedAt - limiter.timestamp > limiter.timeToLive
    · rw [if_pos hlate]
      exact .inl ⟨rfl, .inr ⟨hcount, rfl⟩, rfl⟩
    · rw [if_neg hlate]
      obtain ⟨havail, hrest⟩ := notify_spec notedAt hcount
      exact .inr ⟨rfl, hcount, not_lt.mp hlate, havail, hrest⟩

end ReactiveLeaseLimiter

/-! ## Any calls -/

/-- A `reconfigure`: when it read the clock, and what it was given. -/
structure LeaseGrant where
  since : ℤ
  timeToLive : ℤ
  requests : ℤ
  deriving DecidableEq, Repr

/-- A count that the broker admitted, and when `restricted` read the clock. -/
structure LeaseAdmission where
  checkedAt : ℤ
  count : ℤ
  deriving DecidableEq, Repr

/-- A limiter with the last reading of the clock, the last `reconfigure` and what was admitted
since. -/
structure Leasing where
  limiter : ReactiveLeaseLimiter
  clock : ℤ
  grant : Option LeaseGrant
  admissions : List LeaseAdmission
  deriving DecidableEq, Repr

inductive LeaseCall where
  | reconfigure (now timeToLive requests : ℤ)
  /-- `ReactiveBroker.request`. -/
  | request (checkedAt notedAt count : ℤ)
  deriving DecidableEq, Repr

namespace Leasing

def new (now : ℤ) : Leasing where
  limiter := .new now
  clock := now
  grant := none
  admissions := []

/-- The sum of the counts admitted since the last `reconfigure`. -/
def admitted (leasing : Leasing) : ℤ := (leasing.admissions.map LeaseAdmission.count).sum

def reconfigure (now timeToLive requests : ℤ) (leasing : Leasing) : Leasing where
  limiter := leasing.limiter.reconfigure now timeToLive requests
  clock := now
  grant := some ⟨now, timeToLive, requests⟩
  admissions := []

def request (checkedAt notedAt count : ℤ) (leasing : Leasing) : Leasing :=
  let (admitted, limiter) := leasing.limiter.ask checkedAt notedAt count
  { leasing with
    limiter := limiter
    clock := notedAt
    admissions :=
      if admitted then leasing.admissions ++ [⟨checkedAt, count⟩] else leasing.admissions }

/-- A call, where the clock does not go back and the count is not negative. -/
def step (leasing : Leasing) : LeaseCall → Option Leasing
  | .reconfigure now timeToLive requests =>
    if leasing.clock ≤ now then some (leasing.reconfigure now timeToLive requests) else none
  | .request checkedAt notedAt count =>
    if leasing.clock ≤ checkedAt ∧ checkedAt ≤ notedAt ∧ 0 ≤ count then
      some (leasing.request checkedAt notedAt count)
    else none

/-- The budget under a grant: what was admitted and what is left are within it, and a negative grant
stays as it is and admits nothing. -/
structure Within (grant : LeaseGrant) (leasing : Leasing) : Prop where
  enabled : leasing.limiter.enabled = true
  timestamp : leasing.limiter.timestamp = grant.since
  timeToLive : leasing.limiter.timeToLive = grant.timeToLive
  budget : 0 ≤ leasing.limiter.available ∧
      leasing.admitted + leasing.limiter.available ≤ grant.requests ∨
    grant.requests < 0 ∧ leasing.limiter.available = grant.requests ∧ leasing.admissions = []
  intime : ∀ admission ∈ leasing.admissions, admission.checkedAt - grant.since ≤ grant.timeToLive

theorem admitted_append (leasing : Leasing) (limiter : ReactiveLeaseLimiter) (clock : ℤ)
    (admission : LeaseAdmission) :
    ({ leasing with limiter := limiter, clock := clock,
                    admissions := leasing.admissions ++ [admission] } : Leasing).admitted =
      leasing.admitted + admission.count := by
  simp only [admitted, List.map_append, List.sum_append, List.map_cons, List.map_nil,
    List.sum_singleton]

variable {leasing : Leasing} {count : ℤ} {limiter : ReactiveLeaseLimiter}

/-- A refused request keeps the budget. -/
theorem Within.refuse {grant : LeaseGrant} (h : leasing.Within grant) (hcount : 0 ≤ count)
    (hrefused : ReactiveLeaseLimiter.Refused count leasing.limiter limiter) (clock : ℤ) :
    ({ leasing with limiter := limiter, clock := clock } : Leasing).Within grant := by
  obtain ⟨havail, hrest⟩ := hrefused
  refine ⟨?_, ?_, ?_, ?_, h.intime⟩
  · rw [hrest]
    exact h.enabled
  · rw [hrest]
    exact h.timestamp
  · rw [hrest]
    exact h.timeToLive
  · show 0 ≤ limiter.available ∧ leasing.admitted + limiter.available ≤ grant.requests ∨
      grant.requests < 0 ∧ limiter.available = grant.requests ∧ leasing.admissions = []
    -- A refusal leaves the count as it is or, behind the deadline, sets it to zero.
    rcases havail with hsame | ⟨hle, hzero⟩
    · rw [hsame]
      exact h.budget
    · have hbudget := h.budget
      left
      omega

/-- An admitted request takes its count from the budget. -/
theorem Within.ask {grant : LeaseGrant} (h : leasing.Within grant) {checkedAt : ℤ}
    (hcount : 0 ≤ count)
    (hadmitted : ReactiveLeaseLimiter.Admitted checkedAt count leasing.limiter limiter)
    (clock : ℤ) :
    ({ leasing with limiter := limiter, clock := clock,
                    admissions := leasing.admissions ++ [⟨checkedAt, count⟩] } :
      Leasing).Within grant := by
  obtain ⟨hle, hintime, havail, hrest⟩ := hadmitted
  refine ⟨?_, ?_, ?_, ?_, ?_⟩
  · rw [hrest]
    exact h.enabled
  · rw [hrest]
    exact h.timestamp
  · rw [hrest]
    exact h.timeToLive
  · left
    rw [admitted_append]
    have hbudget := h.budget
    constructor
    · show 0 ≤ limiter.available
      omega
    · show leasing.admitted + count + limiter.available ≤ grant.requests
      omega
  -- The new admission was checked against the deadline of this grant.
  · intro admission hmem
    rcases List.mem_append.mp hmem with hold | hnew
    · exact h.intime admission hold
    · rw [List.mem_singleton.mp hnew, ← h.timestamp, ← h.timeToLive]
      exact hintime

/-- A limiter that was never configured has no budget; one that was is within its last grant. -/
structure Sound (leasing : Leasing) : Prop where
  unconfigured : leasing.grant = none → leasing.limiter.enabled = false ∧
    leasing.limiter.available = 0
  within : ∀ grant, leasing.grant = some grant → leasing.Within grant

theorem sound_new (now : ℤ) : (new now).Sound :=
  ⟨fun _ => ⟨rfl, rfl⟩, nofun⟩

theorem sound_reconfigure (now timeToLive requests : ℤ) (leasing : Leasing) :
    (leasing.reconfigure now timeToLive requests).Sound := by
  refine ⟨nofun, fun grant hgrant => ?_⟩
  obtain rfl : ⟨now, timeToLive, requests⟩ = grant := Option.some.inj hgrant
  refine ⟨rfl, rfl, rfl, ?_, nofun⟩
  rcases lt_or_ge requests 0 with hnegative | hpos
  · exact .inr ⟨hnegative, rfl, rfl⟩
  · refine .inl ⟨hpos, ?_⟩
    show 0 + requests ≤ requests
    omega

theorem Sound.request (h : leasing.Sound) (hcount : 0 ≤ count) (checkedAt notedAt : ℤ) :
    (leasing.request checkedAt notedAt count).Sound := by
  have hgrant : (leasing.request checkedAt notedAt count).grant = leasing.grant := rfl
  refine ⟨fun hnone => ?_, fun grant hsome => ?_⟩
  · obtain ⟨hdisabled, havail⟩ := h.unconfigured hnone
    have hadmit : leasing.limiter.ask checkedAt notedAt count = (true, leasing.limiter) := by
      rw [ReactiveLeaseLimiter.ask, if_neg (by rw [hdisabled]; exact Bool.false_ne_true)]
    rw [Leasing.request, hadmit]
    exact ⟨hdisabled, havail⟩
  · have hwithin := h.within grant hsome
    have hspec := ReactiveLeaseLimiter.admit_spec hwithin.enabled checkedAt notedAt count
    rw [Leasing.request]
    generalize leasing.limiter.ask checkedAt notedAt count = result at hspec ⊢
    obtain ⟨admitted, limiter⟩ := result
    rcases hspec with ⟨rfl, hrefused⟩ | ⟨rfl, hadmitted⟩
    · exact hwithin.refuse hcount hrefused notedAt
    · exact hwithin.ask hcount hadmitted notedAt

theorem Sound.step {leasing' : Leasing} (h : leasing.Sound) {call : LeaseCall}
    (hstep : leasing.step call = some leasing') : leasing'.Sound := by
  cases call with
  | reconfigure now timeToLive requests =>
    simp only [Leasing.step, Option.ite_none_right_eq_some, Option.some.injEq] at hstep
    obtain ⟨-, rfl⟩ := hstep
    exact sound_reconfigure now timeToLive requests leasing
  | request checkedAt notedAt count =>
    simp only [Leasing.step, Option.ite_none_right_eq_some, Option.some.injEq] at hstep
    obtain ⟨⟨-, -, hcount⟩, rfl⟩ := hstep
    exact h.request hcount checkedAt notedAt

/-- In every state that calls lead to, what is admitted and what is available are within the last
grant. -/
theorem sound_of_reachable {now : ℤ} (h : Reachable step (new now) leasing) : leasing.Sound := by
  obtain ⟨calls, hrun⟩ := h
  exact run_invariant Sound (fun _ _ _ hsound hstep => hsound.step hstep) (sound_new now) hrun

/-- Between one `reconfigure` and the next, the counts admitted come to no more than was granted,
and none is admitted when more than the time to live is over. What is available is negative only
where the grant itself is, and a negative grant admits nothing. -/
theorem lease_of_reachable {now : ℤ} {leasing : Leasing} (h : Reachable step (new now) leasing) :
    (∀ grant, leasing.grant = some grant →
      leasing.admitted ≤ max grant.requests 0 ∧
      ∀ admission ∈ leasing.admissions, admission.checkedAt - grant.since ≤ grant.timeToLive) ∧
    ((∀ grant, leasing.grant = some grant → 0 ≤ grant.requests) →
      0 ≤ leasing.limiter.available) := by
  have hsound := sound_of_reachable h
  constructor
  · intro grant hgrant
    have hwithin := hsound.within grant hgrant
    refine ⟨?_, hwithin.intime⟩
    -- A grant of a negative number of requests admits nothing.
    rcases hwithin.budget with ⟨havailable, hbudget⟩ | ⟨-, -, hnone⟩
    · have hrequests : grant.requests ≤ max grant.requests 0 := le_max_left _ _
      omega
    · rw [admitted, hnone]
      exact le_max_right _ _
  · intro hgrants
    cases hgrant : leasing.grant with
    | none => exact (hsound.unconfigured hgrant).2.ge
    | some grant =>
      have hrequests := hgrants grant hgrant
      rcases (hsound.within grant hgrant).budget with ⟨havailable, -⟩ | ⟨hnegative, -, -⟩
      · exact havailable
      · omega

theorem lease_of_reachable_renewed :
    (∀ grant, some (⟨20, 10, 2⟩ : LeaseGrant) = some grant →
      (2 : ℤ) ≤ max grant.requests 0 ∧
      ∀ admission ∈ [(⟨25, 2⟩ : LeaseAdmission)],
        admission.checkedAt - grant.since ≤ grant.timeToLive) ∧
    ((∀ grant, some (⟨20, 10, 2⟩ : LeaseGrant) = some grant → 0 ≤ grant.requests) → (0 : ℤ) ≤ 0) :=
  @lease_of_reachable 0 ⟨⟨0, 10, 20, true⟩, 29, some ⟨20, 10, 2⟩, [⟨25, 2⟩]⟩
    ⟨[.reconfigure 0 10 3, .request 1 2 3, .request 3 3 1, .reconfigure 20 10 2, .request 25 26 2,
      .request 28 29 1], by decide⟩

/-- A negative number of requests is taken as it is. -/
theorem available_of_negative_grant :
    ∃ leasing, run step (new 0) [.reconfigure 0 1000 (-1)] = some leasing ∧
      leasing.limiter.available < 0 ∧ ¬ leasing.admitted ≤ -1 :=
  ⟨⟨⟨-1, 1000, 0, true⟩, 0, some ⟨0, 1000, -1⟩, []⟩, by decide, by decide, by decide⟩

end Leasing

end FengShui.Reactive
