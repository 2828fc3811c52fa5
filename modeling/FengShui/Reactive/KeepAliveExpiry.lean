import FengShui.Reactive.KeepAlive

/-!
# The keep-alive finds a silent peer (`reactive/keepalive.dart`)

A side that hears no KEEPALIVE frame closes the connection, not before the lifetime of the last
frame is over and not later than two lifetimes behind (`expires_between`): the timer looks once a
lifetime, and may have looked just before.
-/

namespace FengShui.Reactive.KeepAlive

open FengShui.Transition ReactiveKeepAliveTimer

variable {setup : KeepAliveSetup} {keepAlive next : KeepAlive} {action : KeepAliveAction}

/-! ## A side in a run -/

/-- The timer that looks for KEEPALIVE frames fires in time. -/
def Punctual (late : ℕ) (side : Side) (keepAlive : KeepAlive) : KeepAliveAction → Prop
  | .advance elapsed => (keepAlive.endpoint side).keepAliveTimer.started ≠ none →
    keepAlive.now + elapsed ≤ (keepAlive.endpoint side).pongAt + late
  | _ => True

instance (late : ℕ) (side : Side) (keepAlive : KeepAlive) :
    (action : KeepAliveAction) → Decidable (Punctual late side keepAlive action)
  | .advance _ => inferInstanceAs (Decidable (_ → _))
  | .make _ | .connect | .ping .. | .check .. | .deliver _ | .lose _ | .write _ | .close _
  | .closed _ =>
    .isTrue trivial

/-- What a step that takes no time does to one side: nothing, or one of the things that change
it. -/
inductive SideMove (keepAlive : KeepAlive) (side : Side) : Endpoint → Prop
  | unchanged : SideMove keepAlive side (keepAlive.endpoint side)
  | make (hmade : (keepAlive.endpoint side).made = false) :
    SideMove keepAlive side (.make keepAlive.now)
  | activate {interval lifetime : ℕ} (hmade : (keepAlive.endpoint side).made = true)
      (hactivated : (keepAlive.endpoint side).activated = false) :
    SideMove keepAlive side ((keepAlive.endpoint side).activate keepAlive.now interval lifetime)
  | ping (pingAt : ℤ) : SideMove keepAlive side { keepAlive.endpoint side with pingAt := pingAt }
  | check {missed interval lifetime : ℕ}
      (hstarted : (keepAlive.endpoint side).keepAliveTimer.started = some (interval, lifetime))
      (hdue : (keepAlive.endpoint side).pongAt + missed * lifetime ≤ keepAlive.now) :
    SideMove keepAlive side ((keepAlive.endpoint side).check keepAlive.now lifetime missed)
  | pong : SideMove keepAlive side { keepAlive.endpoint side with
      keepAliveTimer := (keepAlive.endpoint side).keepAliveTimer.pong keepAlive.now }
  | close : SideMove keepAlive side { keepAlive.endpoint side with accepting := false }
  | closed : SideMove keepAlive side (keepAlive.endpoint side).closed

/-- A change of a side, as that side and as its peer see it. -/
theorem sideMove_update {other : Side} {endpoint : Endpoint} (side : Side)
    (h : SideMove keepAlive other endpoint) :
    SideMove keepAlive side ((keepAlive.update other endpoint).endpoint side) := by
  rcases eq_or_eq_peer other side with rfl | rfl
  · rwa [endpoint_update_self]
  · rw [endpoint_update_peer]
    exact .unchanged

/-- A step as one side sees it. -/
theorem step_sideMove (side : Side) (h : keepAlive.step setup action = some next) :
    (∃ elapsed, action = .advance elapsed ∧ next.now = keepAlive.now + elapsed ∧
      next.endpoint side = keepAlive.endpoint side) ∨
    next.now = keepAlive.now ∧ SideMove keepAlive side (next.endpoint side) := by
  cases step_move h with
  | advance elapsed => exact .inl ⟨elapsed, rfl, rfl, rfl⟩
  | make hmade => exact .inr ⟨rfl, sideMove_update side (.make hmade)⟩
  | connect hmade hacc hact =>
    exact .inr ⟨rfl, sideMove_update side (.activate hmade hact)⟩
  | ping hstarted hdue => exact .inr ⟨rfl, sideMove_update side (.ping _)⟩
  | check hstarted hdue => exact .inr ⟨rfl, sideMove_update side (.check hstarted hdue)⟩
  | @deliver other time signal rest hwritten hmade =>
    refine .inr ⟨rfl, sideMove_update side ?_⟩
    rcases handle_cases setup keepAlive.now signal (keepAlive.endpoint other) with
      ⟨respond, -, hhandle⟩ | ⟨interval, lifetime, -, hact, hhandle⟩ |
      ⟨-, answers, hhandle, -⟩ <;> rw [hhandle]
    · exact .pong
    · exact .activate hmade hact
    · exact .unchanged
  | lose hwritten => exact .inr ⟨rfl, .unchanged⟩
  | write other => exact .inr ⟨rfl, .unchanged⟩
  | close hmade => exact .inr ⟨rfl, sideMove_update side .close⟩
  | closed hacc hsend => exact .inr ⟨rfl, sideMove_update side .closed⟩

/-! ## The look of the timer -/

/-- `_pongTimer` fires: when it is due next. -/
theorem pongAt_check (endpoint : Endpoint) (now : ℤ) (lifetime missed : ℕ) :
    (endpoint.check now lifetime missed).pongAt =
      endpoint.pongAt + missed * lifetime + lifetime := by
  have hsplit : ((missed : ℤ) + 1) * lifetime = missed * lifetime + lifetime := by ring
  simp only [Endpoint.check]
  split <;> simp only [hsplit] <;> omega

@[simp]
theorem keepAliveTimer_check (endpoint : Endpoint) (now : ℤ) (lifetime missed : ℕ) :
    (endpoint.check now lifetime missed).keepAliveTimer = endpoint.keepAliveTimer := by
  simp only [Endpoint.check]
  split <;> rfl

@[simp]
theorem made_check (endpoint : Endpoint) (now : ℤ) (lifetime missed : ℕ) :
    (endpoint.check now lifetime missed).made = endpoint.made := by
  simp only [Endpoint.check]
  split <;> rfl

@[simp]
theorem activated_check (endpoint : Endpoint) (now : ℤ) (lifetime missed : ℕ) :
    (endpoint.check now lifetime missed).activated = endpoint.activated := by
  simp only [Endpoint.check]
  split <;> rfl

theorem expiries_check (endpoint : Endpoint) (now : ℤ) (lifetime missed : ℕ) :
    (endpoint.check now lifetime missed).expiries =
      if now - endpoint.keepAliveTimer.lastPong ≥ lifetime then endpoint.expiries + 1
      else endpoint.expiries := by
  simp only [Endpoint.check, expired, decide_eq_true_eq]
  split <;> rfl

/-! ## A side that hears nothing -/

/-- What holds of a side whose timer fires in time. -/
structure Ticking (late : ℕ) (endpoint : Endpoint) (now : ℤ) : Prop where
  started : endpoint.keepAliveTimer.started ≠ none →
    endpoint.made = true ∧ endpoint.activated = true
  last : endpoint.made = true → endpoint.keepAliveTimer.lastPong ≤ now
  due : ∀ interval lifetime : ℕ, endpoint.keepAliveTimer.started = some (interval, lifetime) →
    endpoint.pongAt ≤ now + lifetime ∧ now ≤ endpoint.pongAt + late

theorem ticking_start (late : ℕ) (side : Side) (now : ℤ) :
    Ticking late ((start now).endpoint side) now where
  started h := absurd rfl h
  last h := nomatch h
  due _ _ h := nomatch h

variable {late : ℕ} {side : Side}

theorem Ticking.step (h : Ticking late (keepAlive.endpoint side) keepAlive.now)
    (hpunctual : Punctual late side keepAlive action)
    (hstep : keepAlive.step setup action = some next) :
    Ticking late (next.endpoint side) next.now := by
  rcases step_sideMove side hstep with ⟨elapsed, rfl, hnow, hsame⟩ | ⟨hnow, hmove⟩
  · rw [hsame]
    refine ⟨h.started, fun hmade => ?_, fun interval lifetime hstarted => ?_⟩
    · have hlast := h.last hmade
      omega
    · have hdue := h.due interval lifetime hstarted
      have hbound := hpunctual (by simp [hstarted])
      omega
  · rw [hnow]
    generalize next.endpoint side = endpoint at hmove
    cases hmove with
    | unchanged => exact h
    | ping | close => exact ⟨h.started, h.last, h.due⟩
    | make =>
      exact ⟨fun hstarted => absurd rfl hstarted, fun _ => le_rfl,
        fun _ _ hstarted => absurd hstarted.symm (Option.some_ne_none _)⟩
    | @activate interval lifetime hmade =>
      refine ⟨fun _ => ⟨hmade, rfl⟩, h.last, fun interval' lifetime' hstarted => ?_⟩
      cases hstarted
      simp only [Endpoint.activate]
      omega
    | @check missed interval lifetime hstarted hdue =>
      refine ⟨by simpa using h.started, by simpa using h.last,
        fun interval' lifetime' htimers => ?_⟩
      rw [keepAliveTimer_check, hstarted] at htimers
      cases htimers
      have hbound := h.due interval lifetime hstarted
      have hmissed : (0 : ℤ) ≤ missed * lifetime := by positivity
      rw [pongAt_check]
      omega
    | pong => exact ⟨h.started, fun _ => le_rfl, h.due⟩
    | closed =>
      exact ⟨fun hstarted => absurd rfl hstarted, h.last,
        fun _ _ hstarted => absurd hstarted.symm (Option.some_ne_none _)⟩

/-- A side from a time on at which its timers ran: the timer does not close the connection before
the lifetime of a KEEPALIVE frame is over, and the look at which it does is less than two lifetimes
behind the last one, or behind that time. -/
structure Watched (before : Endpoint) (since : ℤ) (late interval lifetime : ℕ) (endpoint : Endpoint)
    (now : ℤ) : Prop where
  made : endpoint.made = true ∧ endpoint.activated = true
  timers : endpoint.keepAliveTimer.started = none ∨
    endpoint.keepAliveTimer.started = some (interval, lifetime)
  last : before.keepAliveTimer.lastPong ≤ endpoint.keepAliveTimer.lastPong ∧
    endpoint.keepAliveTimer.lastPong ≤ now
  more : before.expiries ≤ endpoint.expiries
  early : now < before.keepAliveTimer.lastPong + lifetime → endpoint.expiries = before.expiries
  soon : endpoint.keepAliveTimer.started = none ∨ before.expiries < endpoint.expiries ∨
    endpoint.pongAt ≤ max endpoint.keepAliveTimer.lastPong since + 2 * lifetime ∧
      now ≤ endpoint.pongAt + late

theorem Watched.step {before : Endpoint} {since : ℤ} {interval lifetime : ℕ}
    (h : Watched before since late interval lifetime (keepAlive.endpoint side) keepAlive.now)
    (hpunctual : Punctual late side keepAlive action)
    (hstep : keepAlive.step setup action = some next) :
    Watched before since late interval lifetime (next.endpoint side) next.now := by
  have hlast := h.last
  rcases step_sideMove side hstep with ⟨elapsed, rfl, hnow, hsame⟩ | ⟨hnow, hmove⟩
  · rw [hsame]
    refine ⟨h.made, h.timers, by omega, h.more, fun hearly => h.early (by omega), ?_⟩
    rcases h.soon with hstopped | hexpired | ⟨hdue, -⟩
    · exact .inl hstopped
    · exact .inr (.inl hexpired)
    · by_cases hstopped : (keepAlive.endpoint side).keepAliveTimer.started = none
      · exact .inl hstopped
      · exact .inr (.inr ⟨hdue, hnow ▸ hpunctual hstopped⟩)
  · rw [hnow]
    generalize next.endpoint side = endpoint at hmove
    cases hmove with
    | unchanged | ping | close => exact ⟨h.made, h.timers, h.last, h.more, h.early, h.soon⟩
    | make hmade =>
      rw [h.made.1] at hmade
      cases hmade
    | activate hmade hact =>
      rw [h.made.2] at hact
      cases hact
    | @check missed interval' lifetime' hstarted hdue =>
      have htimers := h.timers
      rw [hstarted] at htimers
      obtain ⟨rfl, rfl⟩ : interval' = interval ∧ lifetime' = lifetime := by simpa using htimers
      have hexpiries := expiries_check (keepAlive.endpoint side) keepAlive.now lifetime' missed
      have hpongAt := pongAt_check (keepAlive.endpoint side) keepAlive.now lifetime' missed
      have hmissed : (0 : ℤ) ≤ missed * lifetime' := by positivity
      have hmore := h.more
      have hearly := h.early
      refine ⟨by simpa using h.made, by simpa using h.timers, by simpa using h.last, ?_, ?_, ?_⟩
      · split_ifs at hexpiries <;> omega
      · split_ifs at hexpiries <;> omega
      · rw [keepAliveTimer_check]
        rcases h.soon with hstopped | hexpired | ⟨-, hpunctual'⟩
        · exact .inl hstopped
        · refine .inr (.inl ?_)
          split_ifs at hexpiries <;> omega
        -- A look that finds a frame is less than a lifetime behind it, and the next a lifetime
        -- later.
        · split_ifs at hexpiries
          · exact .inr (.inl (by omega))
          · exact .inr (.inr (by omega))
    | pong =>
      refine ⟨h.made, h.timers, ⟨hlast.1.trans hlast.2, le_rfl⟩, h.more, h.early, ?_⟩
      refine h.soon.imp_right (Or.imp_right fun hdue => ⟨?_, hdue.2⟩)
      simp only [ReactiveKeepAliveTimer.pong]
      omega
    | closed => exact ⟨h.made, .inl rfl, h.last, h.more, h.early, .inl rfl⟩

/-- From a state on in which its timers run, a side closes the connection not before the lifetime of
the last KEEPALIVE frame is over, and where its timer fires in time it has closed it, or has heard
its peer within two lifetimes. -/
theorem expires_between (setup : KeepAliveSetup) (late : ℕ) (side : Side) (now : ℤ)
    (front back : List KeepAliveAction) (middle last : KeepAlive) (interval lifetime : ℕ)
    (hfront : run (step setup) (start now) front = some middle)
    (hback : run (step setup) middle back = some last)
    (hpunctual : Along (step setup) (Punctual late side) (start now) (front ++ back))
    (hstarted : (middle.endpoint side).keepAliveTimer.started = some (interval, lifetime)) :
    (last.now < (middle.endpoint side).keepAliveTimer.lastPong + lifetime →
      (last.endpoint side).expiries = (middle.endpoint side).expiries) ∧
    ((last.endpoint side).keepAliveTimer.started = none ∨
      (middle.endpoint side).expiries < (last.endpoint side).expiries ∨
      last.now ≤ max (last.endpoint side).keepAliveTimer.lastPong middle.now + 2 * lifetime +
        late) := by
  have hticking : Ticking late (middle.endpoint side) middle.now :=
    run_induction (fun _ keepAlive => Ticking late (keepAlive.endpoint side) keepAlive.now)
      (fun _ _ _ _ h hp hstep => h.step hp hstep) (ticking_start late side now)
      (along_append hpunctual) hfront
  have hmade := hticking.started (by simp [hstarted])
  have hlast := hticking.last hmade.1
  have hdue := hticking.due interval lifetime hstarted
  have hstart : Watched (middle.endpoint side) middle.now late interval lifetime
      (middle.endpoint side) middle.now :=
    ⟨hmade, .inr hstarted, ⟨le_rfl, hlast⟩, le_rfl, fun _ => rfl, .inr (.inr ⟨by omega, hdue.2⟩)⟩
  have hwatched : Watched (middle.endpoint side) middle.now late interval lifetime
      (last.endpoint side) last.now :=
    run_induction (fun _ (keepAlive : KeepAlive) => Watched (middle.endpoint side) middle.now late
        interval lifetime (keepAlive.endpoint side) keepAlive.now)
      (fun _ _ _ _ h hp hstep => h.step hp hstep) hstart (along_behind hpunctual hfront) hback
  refine ⟨hwatched.early, hwatched.soon.imp_right (Or.imp_right fun hsoon => ?_)⟩
  omega

/-- Nothing comes back to a client: it closes the connection. -/
theorem expires_between_client : ∃ middle last,
    run (step ⟨20000, 30000, true⟩) (start 0)
      [.make .client, .connect, .make .server, .advance 100, .deliver .server] = some middle ∧
    run (step ⟨20000, 30000, true⟩) middle [.advance 19900, .ping .client 0, .advance 10000,
      .check .client 0, .advance 30500, .check .client 0, .advance 200] = some last ∧
    ((last.endpoint .client).keepAliveTimer.started = none ∨
      (middle.endpoint .client).expiries < (last.endpoint .client).expiries ∨
      last.now ≤ max (last.endpoint .client).keepAliveTimer.lastPong middle.now + 2 * (30000 : ℕ) +
        (500 : ℕ)) := by
  refine ⟨?middle, ?last, ?front, ?back,
    (expires_between ⟨20000, 30000, true⟩ 500 .client 0 _ _ ?middle
    ?last 20000 30000 ?front ?back ?_ ?_).2⟩
  case front => rfl
  case back => rfl
  · decide
  · rfl

end FengShui.Reactive.KeepAlive
