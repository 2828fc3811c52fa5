import FengShui.Reactive.Owner
import FengShui.Transport.Lifetimes

/-!
# What holds of an owner at any time

`Move` says once what a step can do. `Sound` is the invariant of every run: a connection is in
`_connections` until the first of its teardowns reports, and whatever has entered the `close` of a
transport connection has left it closing.
-/

namespace FengShui.Reactive

open FengShui.Transport FengShui.Transition List

namespace Handed

variable {handed next : Handed} {kind : Kind}

/-- What holds of a transport connection at any time. -/
structure Sane (kind : Kind) (handed : Handed) : Prop where
  kind : handed.channel.kind = kind
  opened : handed.channel.closing = false → handed.channel.stage = .opened
  finished : handed.finished = true → handed.channel.stage = .closed
  failed : handed.failed = true → handed.channel.stage = .awaits false
  refused : handed.accepting = none → handed.channel.closing = false ∧ handed.channel.pending = 0

/-- What a step of a transport connection does not take back. -/
structure Later (handed next : Handed) : Prop where
  made : next.accepting.isSome = handed.accepting.isSome
  closing : handed.channel.closing = true → next.channel.closing = true
  failed : handed.failed = true → next.failed = true

theorem Later.refl (handed : Handed) : Later handed handed := ⟨rfl, id, id⟩

theorem Later.trans {last : Handed} (h : Later handed next) (hlast : Later next last) :
    Later handed last :=
  ⟨hlast.made.trans h.made, hlast.closing ∘ h.closing, hlast.failed ∘ h.failed⟩

theorem Later.none_of_eq_none (h : Later handed next) (hnone : handed.accepting = none) :
    next.accepting = none := by
  rw [← Option.not_isSome_iff_eq_none, h.made, Option.not_isSome_iff_eq_none]
  exact hnone

theorem Later.eq_none (h : Later handed next) (hnone : next.accepting = none) :
    handed.accepting = none := by
  rw [← Option.not_isSome_iff_eq_none, ← h.made, Option.not_isSome_iff_eq_none]
  exact hnone

theorem sane_create (kind : Kind) (made : Bool) : Sane kind (create kind made) where
  kind := rfl
  opened _ := rfl
  finished h := by cases h
  failed h := by cases h
  refused _ := ⟨rfl, rfl⟩

theorem Sane.not_failed (h : Sane kind handed) (hfin : handed.finished = true) :
    handed.failed = false := by
  by_contra hfailed
  have hstage := h.failed (Bool.not_eq_false _ ▸ hfailed)
  rw [h.finished hfin] at hstage
  cases hstage

/-- A transport connection that is closed is closing. -/
theorem Sane.closing_of_stage (h : Sane kind handed) (hstage : handed.channel.stage ≠ .opened) :
    handed.channel.closing = true :=
  Bool.not_eq_false _ ▸ fun hclosing => hstage (h.opened hclosing)

theorem Sane.made_of_closing (h : Sane kind handed) (hclosing : handed.channel.closing = true) :
    handed.accepting ≠ none := by
  intro hrefused
  rw [(h.refused hrefused).1] at hclosing
  cases hclosing

/-- The broker of a connection does not accept any more. -/
theorem Sane.begin (h : Sane kind handed) : Sane kind { handed with accepting := some false } :=
  { h with refused := nofun }

theorem Later.begin (hmade : handed.accepting.isSome = true) :
    Later handed { handed with accepting := some false } := ⟨hmade.symm, id, id⟩

/-! ## `close` -/

/-- A `close` that cancels awaits `_closer`. -/
theorem stage_channel_close {channel : Channel} (graceful : Bool)
    (hclosing : channel.closing = false) (hpend : 0 < channel.pending)
    (hkind : channel.kind = .client) : (channel.close graceful).stage = .awaits graceful := by
  unfold Channel.close
  rw [if_neg (by rw [hclosing]; exact Bool.false_ne_true), hkind]
  dsimp only
  unfold Channel.beginClose
  rw [if_pos hpend]

variable {graceful free : Bool}

theorem throws_eq_true (h : handed.throws graceful free = true) :
    handed.channel.closing = false ∧ 0 < handed.channel.pending ∧ graceful = false ∧
      handed.channel.kind = .client ∧ free = false := by
  unfold throws at h
  simp only [Bool.and_eq_true, Bool.not_eq_true', decide_eq_true_eq] at h
  obtain ⟨⟨⟨⟨hclosing, hpend⟩, hgraceful⟩, hkind⟩, hfree⟩ := h
  exact ⟨hclosing, hpend, hgraceful, hkind, hfree⟩

theorem closing_close (graceful free : Bool) :
    (handed.close graceful free).2.channel.closing = true := by
  unfold close
  split
  · assumption
  · exact Channel.closing_close _ graceful

@[simp]
theorem accepting_close (graceful free : Bool) :
    (handed.close graceful free).2.accepting = handed.accepting := by
  unfold close
  split <;> rfl

theorem Sane.close (h : Sane kind handed) (hmade : handed.accepting ≠ none) (graceful free : Bool) :
    Sane kind (handed.close graceful free).2 := by
  unfold Handed.close
  split
  · exact h
  · rename_i hopen
    have hclosing : handed.channel.closing = false := Bool.eq_false_iff.mpr hopen
    have hstage := h.opened hclosing
    refine ⟨(Channel.kind_close _ graceful).trans h.kind, fun hnot => ?_, fun hfin => ?_,
      fun hfailed => ?_, fun hrefused => absurd hrefused hmade⟩
    · rw [Channel.closing_close _ graceful] at hnot
      cases hnot
    · rw [h.finished hfin] at hstage
      cases hstage
    · obtain ⟨-, hpend, rfl, hkind, -⟩ := throws_eq_true hfailed
      exact stage_channel_close false hclosing hpend hkind

theorem Sane.later_close (h : Sane kind handed) (graceful free : Bool) :
    Later handed (handed.close graceful free).2 where
  made := by rw [accepting_close]
  closing _ := closing_close graceful free
  failed hfailed := by
    have hclosing : handed.channel.closing = true :=
      h.closing_of_stage (by rw [h.failed hfailed]; exact nofun)
    unfold Handed.close
    rw [if_pos hclosing]
    exact hfailed

/-- `failed` changes where the `close` throws. -/
theorem Sane.failed_close (h : Sane kind handed) (hthrows : handed.throws graceful free = false) :
    (handed.close graceful free).2.failed = handed.failed := by
  unfold Handed.close
  split
  · rfl
  · rename_i hopen
    dsimp only
    rw [hthrows]
    by_contra hfailed
    have hstage := h.failed (Bool.not_eq_false _ ▸ fun hnot => hfailed hnot.symm)
    rw [h.opened (Bool.eq_false_iff.mpr hopen)] at hstage
    cases hstage

theorem failed_close_of_throws (h : handed.throws graceful free = true) :
    (handed.close graceful free).2.failed = true := by
  unfold close
  rw [if_neg (by rw [(throws_eq_true h).1]; exact Bool.false_ne_true)]
  exact h

/-! ## The other steps -/

theorem Sane.lower (h : Sane kind handed) (hmade : handed.accepting ≠ none) :
    Sane kind { handed with channel := handed.channel.lower } where
  kind := (Channel.kind_lower handed.channel).trans h.kind
  opened hclosing := by
    dsimp only at hclosing ⊢
    rw [Channel.closing_lower] at hclosing
    rw [Channel.stage_lower, h.opened hclosing]
  finished hfinished := (Channel.stage_lower handed.channel).trans (h.finished hfinished)
  failed hfailed := (Channel.stage_lower handed.channel).trans (h.failed hfailed)
  refused hrefused := absurd hrefused hmade

theorem later_lower : Later handed { handed with channel := handed.channel.lower } :=
  ⟨rfl, fun hclosing => (Channel.closing_lower handed.channel).trans hclosing, id⟩

theorem Sane.notify (h : Sane kind handed) (hmade : handed.accepting ≠ none) (event : Event)
    (result : ℤ) (free : Bool) : Sane kind (handed.notify event result free) := by
  unfold Handed.notify
  dsimp only
  split
  · exact (h.lower hmade).close hmade false free
  · exact h.lower hmade

theorem Sane.later_notify (h : Sane kind handed) (hmade : handed.accepting ≠ none) (event : Event)
    (result : ℤ) (free : Bool) : Later handed (handed.notify event result free) := by
  unfold Handed.notify
  dsimp only
  split
  · exact later_lower.trans ((h.lower hmade).later_close false free)
  · exact later_lower

/-- A transport connection after a step of its own. -/
theorem Sane.step {action : OwnerAction} (h : Sane kind handed)
    (hstep : ReactiveOwner.stepHanded handed action = some next) :
    Sane kind next ∧ Later handed next := by
  cases action with
  | issue index =>
    simp only [ReactiveOwner.stepHanded] at hstep
    split at hstep
    · rename_i hcond
      cases hstep
      refine ⟨⟨h.kind, h.opened, h.finished, h.failed, fun hrefused => ?_⟩, rfl, id, id⟩
      -- A connection that was refused has no channel that could issue.
      rw [show handed.accepting = none from hrefused] at hcond
      cases hcond.1
    · cases hstep
  | complete index event result free =>
    simp only [ReactiveOwner.stepHanded] at hstep
    split at hstep
    · rename_i hpend
      cases hstep
      have hmade : handed.accepting ≠ none := by
        intro hrefused
        rw [(h.refused hrefused).2] at hpend
        exact absurd hpend (lt_irrefl 0)
      exact ⟨h.notify hmade event result free, h.later_notify hmade event result free⟩
    · cases hstep
  | timeout index free =>
    simp only [ReactiveOwner.stepHanded] at hstep
    split at hstep
    · rename_i hcond
      cases hstep
      have hclosing : handed.channel.closing = true :=
        h.closing_of_stage (by rw [hcond.1]; exact nofun)
      have hfin : handed.finished ≠ true := fun hfin => by
        rw [h.finished hfin] at hcond
        cases hcond.1
      refine ⟨⟨h.kind, fun hopen => ?_, fun hdone => absurd hdone hfin, fun _ => rfl,
        fun hrefused => absurd hrefused (h.made_of_closing hclosing)⟩, rfl, id, fun hfailed => ?_⟩
      · rw [show handed.channel.closing = false from hopen] at hclosing
        cases hclosing
      · -- A graceful `close` that still has its timeout before it has not thrown.
        rw [h.failed hfailed] at hcond
        cases hcond.1
    · cases hstep
  | resume index =>
    simp only [ReactiveOwner.stepHanded] at hstep
    split at hstep
    · rename_i graceful hstage
      split at hstep
      · rename_i hcond
        cases hstep
        have hclosing : handed.channel.closing = true :=
          h.closing_of_stage (by rw [hstage]; exact nofun)
        refine ⟨⟨h.kind, fun hopen => ?_, fun _ => rfl, fun hfailed => ?_,
          fun hrefused => absurd hrefused (h.made_of_closing hclosing)⟩, rfl, id, id⟩
        · rw [show handed.channel.closing = false from hopen] at hclosing
          cases hclosing
        · rw [show handed.failed = true from hfailed] at hcond
          cases hcond.2
      · cases hstep
    · cases hstep
  | finish index =>
    simp only [ReactiveOwner.stepHanded] at hstep
    split at hstep
    · rename_i hcond
      cases hstep
      exact ⟨{ h with finished := fun _ => hcond.1 }, rfl, id, id⟩
    · cases hstep
  | accept | connect | error | keepAlive | close | advance | closed => cases hstep

end Handed

/-- The phases behind the first line of the `close` of the transport connection. -/
def Phase.entered : Phase → Bool
  | .streams | .broker | .thrown => false
  | .closes | .awaits | .returned | .reported => true

namespace ReactiveOwner

variable {owner next : ReactiveOwner} {action : OwnerAction} {index position : ℕ}
  {handed : Handed} {teardown : Teardown} {graceful free : Bool}

/-- There is a transport connection of that kind at that place. -/
def Has (p : Handed → Bool) (owner : ReactiveOwner) (index : ℕ) : Prop :=
  (owner.handed[index]?).any p = true

/-- The transport connection closes. -/
def Closing (owner : ReactiveOwner) (index : ℕ) : Prop :=
  owner.Has (fun handed => handed.channel.closing) index

/-- The `close` of the transport connection has thrown. -/
def Failed (owner : ReactiveOwner) (index : ℕ) : Prop := owner.Has Handed.failed index

variable {p : Handed → Bool} {later : Handed} {other : ℕ} {phase : Phase}
  {actions : List OwnerAction}

theorem has_iff :
    owner.Has p index ↔ ∃ handed, owner.handed[index]? = some handed ∧ p handed = true :=
  Option.any_eq_true _ _

theorem has_of_getElem? (hhand : owner.handed[index]? = some handed) (hp : p handed = true) :
    owner.Has p index := has_iff.mpr ⟨handed, hhand, hp⟩

/-! ## What a step can do -/

/-- What a step does. -/
inductive Move (owner : ReactiveOwner) : OwnerAction → ReactiveOwner → Prop
  | accept : Move owner .accept owner.accept
  | connect (pool : ℕ) : Move owner (.connect pool) (owner.connect pool)
  | moves {action : OwnerAction} {handed next : Handed}
      (hhanded : owner.handed[action.index]? = some handed)
      (hstep : stepHanded handed action = some next) :
      Move owner action (owner.setHanded action.index next)
  | error {index : ℕ} (hmade : owner.Made index) :
      Move owner (.error index) (owner.begin false index)
  | keepAlive {index : ℕ} (hmade : owner.Made index) :
      Move owner (.keepAlive index) (owner.begin owner.graceful index)
  | close : Move owner .close owner.close
  /-- The broker has closed its streams, or the `close` of the transport connection is through. -/
  | passes {position : ℕ} {free : Bool} {teardown : Teardown} {phase : Phase}
      (hteardown : owner.teardowns[position]? = some teardown)
      (hphase : teardown.phase = .streams ∧ phase = .broker ∨
        teardown.phase = .closes ∧ phase = .returned ∨
        teardown.phase = .awaits ∧ phase = .returned ∨
        teardown.phase = .closes ∧ phase = .thrown ∧ owner.Failed teardown.connection) :
      Move owner (.advance position free) (owner.setPhase position teardown phase)
  | enters {position : ℕ} {free : Bool} {teardown : Teardown} {handed : Handed}
      (hteardown : owner.teardowns[position]? = some teardown) (hphase : teardown.phase = .broker)
      (hhanded : owner.handed[teardown.connection]? = some handed) :
      Move owner (.advance position free)
        ((owner.setHanded teardown.connection (handed.close teardown.graceful free).2).setPhase
          position teardown (handed.close teardown.graceful free).1)
  | reports {position : ℕ} {free : Bool} {teardown : Teardown}
      (hteardown : owner.teardowns[position]? = some teardown)
      (hphase : teardown.phase = .returned) :
      Move owner (.advance position free)
        ((owner.report teardown.connection).setPhase position teardown .reported)
  | closed {position : ℕ} {positions : List ℕ}
      (hclosing : owner.closings[position]? = some positions)
      (hall : positions.all owner.isReported = true) :
      Move owner (.closed position) { owner with active := false }

theorem move_of_advance (h : owner.advance position free = some next) :
    Move owner (.advance position free) next := by
  unfold advance at h
  split at h
  · cases h
  · rename_i teardown htear
    split at h
    · cases h
    · rename_i handed hhand
      split at h
      · rename_i hphase
        cases h
        exact .passes htear (.inl ⟨hphase, rfl⟩)
      · rename_i hphase
        cases h
        -- `close` of the channel, which may throw.
        exact .enters htear hphase hhand
      · rename_i hphase
        split at h
        · rename_i hfailed
          cases h
          exact .passes htear
            (.inr (.inr (.inr ⟨hphase, rfl, has_of_getElem? hhand hfailed⟩)))
        · split at h
          · cases h
            exact .passes htear (.inr (.inl ⟨hphase, rfl⟩))
          · cases h
      · rename_i hphase
        split at h
        · cases h
          exact .passes htear (.inr (.inr (.inl ⟨hphase, rfl⟩)))
        · cases h
      · rename_i hphase
        cases h
        exact .reports htear hphase
      · cases h
      · cases h

theorem move_of_moveHanded (h : owner.moveHanded action = some next) : Move owner action next := by
  unfold moveHanded at h
  split at h
  · rename_i handed hhand
    obtain ⟨moved, hstep, rfl⟩ := Option.map_eq_some_iff.mp h
    exact .moves hhand hstep
  · cases h

theorem move_of_step (h : owner.step action = some next) : Move owner action next := by
  cases action with
  | accept =>
    obtain ⟨-, hnext⟩ := Option.ite_none_right_eq_some.mp h
    cases hnext
    exact .accept
  | connect pool =>
    obtain ⟨-, hnext⟩ := Option.ite_none_right_eq_some.mp h
    cases hnext
    exact .connect pool
  | error index =>
    obtain ⟨hmade, hnext⟩ := Option.ite_none_right_eq_some.mp h
    cases hnext
    exact .error hmade
  | keepAlive index =>
    obtain ⟨hmade, hnext⟩ := Option.ite_none_right_eq_some.mp h
    cases hnext
    exact .keepAlive hmade
  | close =>
    cases h
    exact .close
  | advance position free => exact move_of_advance h
  | closed position =>
    simp only [step, ReactiveOwner.closed] at h
    split at h
    · rename_i positions hclosing
      split at h
      · rename_i hall
        cases h
        exact .closed hclosing hall
      · cases h
    · cases h
  | issue index => exact move_of_moveHanded h
  | complete index event result free => exact move_of_moveHanded h
  | timeout index free => exact move_of_moveHanded h
  | resume index => exact move_of_moveHanded h
  | finish index => exact move_of_moveHanded h

/-! ## What the operations leave as it is -/

theorem getElem?_setHanded (hhand : owner.handed[index]? = some handed) (later : Handed)
    (other : ℕ) :
    (owner.setHanded index later).handed[other]? =
      if other = index then some later else owner.handed[other]? := by
  obtain ⟨hlt, -⟩ := List.getElem?_eq_some_iff.mp hhand
  unfold setHanded
  rw [getElem?_set]
  by_cases heq : other = index
  · rw [if_pos heq.symm, if_pos heq, if_pos hlt]
  · rw [if_neg fun h => heq h.symm, if_neg heq]

theorem has_setHanded (hhand : owner.handed[index]? = some handed)
    (hp : p handed = true → p later = true) (h : owner.Has p other) :
    (owner.setHanded index later).Has p other := by
  obtain ⟨found, hfound, hpfound⟩ := has_iff.mp h
  rw [has_iff, getElem?_setHanded hhand]
  by_cases heq : other = index
  · rw [heq, hhand] at hfound
    cases hfound
    rw [if_pos heq]
    exact ⟨later, rfl, hp hpfound⟩
  · rw [if_neg heq]
    exact ⟨found, hfound, hpfound⟩

theorem has_of_setHanded (hhand : owner.handed[index]? = some handed)
    (hp : p later = true → p handed = true) (h : (owner.setHanded index later).Has p other) :
    owner.Has p other := by
  rw [has_iff, getElem?_setHanded hhand] at h
  obtain ⟨found, hfound, hpfound⟩ := h
  by_cases heq : other = index
  · rw [if_pos heq] at hfound
    cases hfound
    exact has_iff.mpr ⟨handed, heq ▸ hhand, hp hpfound⟩
  · rw [if_neg heq] at hfound
    exact has_iff.mpr ⟨found, hfound, hpfound⟩

theorem made_setHanded (hhand : owner.handed[index]? = some handed)
    (hlater : Handed.Later handed later) :
    (owner.setHanded index later).Made other ↔ owner.Made other :=
  ⟨has_of_setHanded hhand fun h => hlater.made ▸ h, has_setHanded hhand fun h => hlater.made ▸ h⟩

/-- A transport connection more. -/
theorem has_append {more : List Handed} (h : owner.Has p index)
    (heq : next.handed = owner.handed ++ more) : next.Has p index := by
  obtain ⟨handed, hhand, hp⟩ := has_iff.mp h
  obtain ⟨hlt, -⟩ := List.getElem?_eq_some_iff.mp hhand
  exact has_iff.mpr ⟨handed, by rw [heq, getElem?_append_left hlt, hhand], hp⟩

/-! ## The invariant -/

/-- A teardown of the connection that has reported. -/
def reportOf (connection : ℕ) (teardown : Teardown) : Bool :=
  teardown.connection = connection && teardown.phase = .reported

/-- What holds of an owner at any time. -/
structure Sound (owner : ReactiveOwner) : Prop where
  sane : ∀ handed ∈ owner.handed, handed.Sane owner.kind
  nodup : owner.connections.Nodup
  live : ∀ connection, connection ∈ owner.connections ↔
    owner.Made connection ∧ connection ∉ owner.reports
  counted : ∀ connection,
    owner.reports.count connection = owner.teardowns.countP (reportOf connection)
  made : ∀ teardown ∈ owner.teardowns, owner.Made teardown.connection
  entered : ∀ teardown ∈ owner.teardowns, teardown.phase.entered = true →
    owner.Closing teardown.connection
  thrown : ∀ teardown ∈ owner.teardowns, teardown.phase = .thrown → owner.Failed teardown.connection
  called : ∀ connections ∈ owner.onCloses, connections = []
  inactive : owner.active = false →
    ∃ positions ∈ owner.closings, positions.all owner.isReported = true

theorem sound_create (kind : Kind) (graceful : Bool) : Sound (create kind graceful) where
  sane handed h := by cases h
  nodup := nodup_nil
  live connection := by
    constructor
    · intro h
      cases h
    · rintro ⟨h, -⟩
      cases h
  counted _ := rfl
  made teardown h := by cases h
  entered teardown h := by cases h
  thrown teardown h := by cases h
  called connections h := by cases h
  inactive h := by cases h

theorem Sound.sane_of_getElem? (h : Sound owner) (hhand : owner.handed[index]? = some handed) :
    handed.Sane owner.kind := h.sane handed (mem_of_getElem? hhand)

/-- A report is that of a teardown. -/
theorem Sound.mem_reports_iff (h : Sound owner) : index ∈ owner.reports ↔
    ∃ teardown ∈ owner.teardowns, teardown.connection = index ∧ teardown.phase = .reported := by
  rw [← count_pos_iff, h.counted index, countP_pos_iff]
  unfold reportOf
  simp only [Bool.and_eq_true, decide_eq_true_eq]

theorem Sound.made_of_report (h : Sound owner) (hreport : index ∈ owner.reports) :
    owner.Made index := by
  obtain ⟨teardown, htear, rfl, -⟩ := h.mem_reports_iff.mp hreport
  exact h.made teardown htear

theorem Sound.setHanded (h : Sound owner) (hhand : owner.handed[index]? = some handed)
    (hsane : later.Sane owner.kind) (hlater : Handed.Later handed later) :
    Sound (owner.setHanded index later) where
  sane other hother := (mem_or_eq_of_mem_set hother).elim (h.sane other) fun heq => heq ▸ hsane
  nodup := h.nodup
  live connection := by rw [made_setHanded hhand hlater]; exact h.live connection
  counted := h.counted
  made teardown hteardown := (made_setHanded hhand hlater).mpr (h.made teardown hteardown)
  entered teardown hteardown hentered :=
    has_setHanded hhand hlater.closing (h.entered teardown hteardown hentered)
  thrown teardown hteardown hthrown :=
    has_setHanded hhand hlater.failed (h.thrown teardown hteardown hthrown)
  called := h.called
  inactive := h.inactive

theorem isReported_iff : owner.isReported position = true ↔
    ∃ teardown, owner.teardowns[position]? = some teardown ∧ teardown.phase = .reported := by
  unfold isReported
  constructor
  · intro h
    obtain ⟨teardown, htear, hphase⟩ := (Option.any_eq_true _ _).mp h
    exact ⟨teardown, htear, of_decide_eq_true hphase⟩
  · rintro ⟨teardown, htear, hphase⟩
    exact (Option.any_eq_true _ _).mpr ⟨teardown, htear, decide_eq_true hphase⟩

theorem isReported_append {more : List Teardown} (heq : next.teardowns = owner.teardowns ++ more)
    (h : owner.isReported position = true) : next.isReported position = true := by
  obtain ⟨teardown, htear, hphase⟩ := isReported_iff.mp h
  obtain ⟨hlt, -⟩ := List.getElem?_eq_some_iff.mp htear
  exact isReported_iff.mpr
    ⟨teardown, by rw [heq, getElem?_append_left hlt, htear], hphase⟩

/-- Behind a report nothing moves a teardown. -/
theorem isReported_set (htear : owner.teardowns[position]? = some teardown)
    (hphase : teardown.phase ≠ .reported)
    (heq : next.teardowns = owner.teardowns.set position { teardown with phase := phase })
    (h : owner.isReported other = true) : next.isReported other = true := by
  obtain ⟨found, hfound, hreported⟩ := isReported_iff.mp h
  have hne : position ≠ other := by
    rintro rfl
    rw [htear] at hfound
    exact hphase (Option.some.inj hfound ▸ hreported)
  exact isReported_iff.mpr ⟨found, by rw [heq, getElem?_set_ne hne, hfound], hreported⟩

theorem made_add {connection : ℕ} :
    owner.add.Made connection ↔ owner.Made connection ∨ connection = owner.handed.length := by
  unfold Made add
  dsimp only
  rw [getElem?_append]
  by_cases hlt : connection < owner.handed.length
  · rw [if_pos hlt]
    exact ⟨.inl, fun h => h.resolve_right hlt.ne⟩
  · rw [if_neg hlt, getElem?_eq_none (not_lt.mp hlt)]
    by_cases heq : connection = owner.handed.length
    · rw [heq, Nat.sub_self]
      exact ⟨fun _ => .inr rfl, fun _ => rfl⟩
    · rw [getElem?_eq_none (by simp only [length_singleton]; omega)]
      exact ⟨nofun, fun h => h.resolve_right heq⟩

theorem made_refuse {connection : ℕ} : owner.refuse.Made connection ↔ owner.Made connection := by
  unfold Made refuse
  dsimp only
  rw [getElem?_append]
  by_cases hlt : connection < owner.handed.length
  · rw [if_pos hlt]
  · rw [if_neg hlt, getElem?_eq_none (not_lt.mp hlt)]
    constructor
    · intro h
      obtain ⟨handed, hhand, hmade⟩ := (Option.any_eq_true _ _).mp h
      obtain rfl := mem_singleton.mp (mem_of_getElem? hhand)
      cases hmade
    · intro h
      cases h

/-- The places of what was handed over come before the next one. -/
theorem lt_length_of_made (h : owner.Made index) : index < owner.handed.length := by
  obtain ⟨handed, hhand, -⟩ := has_iff.mp h
  exact (List.getElem?_eq_some_iff.mp hhand).1

theorem sane_append {made : Bool} (h : Sound owner) :
    ∀ handed ∈ owner.handed ++ [.create owner.kind made], handed.Sane owner.kind := by
  intro handed hhand
  rcases mem_append.mp hhand with hold | hnew
  · exact h.sane handed hold
  · exact mem_singleton.mp hnew ▸ Handed.sane_create owner.kind made

theorem Sound.add (h : Sound owner) : Sound owner.add where
  sane := sane_append h
  nodup := by
    refine h.nodup.append (nodup_singleton _) ?_
    rintro connection hold hnew
    have hmade := ((h.live connection).mp hold).1
    exact (lt_length_of_made hmade).ne (mem_singleton.mp hnew)
  live connection := by
    -- The new connection has an index that no report knows.
    have hfresh : owner.handed.length ∉ owner.reports := fun hreport =>
      (lt_length_of_made (h.made_of_report hreport)).false
    have hmem : connection ∈ owner.add.connections ↔
        connection ∈ owner.connections ∨ connection = owner.handed.length := by
      unfold ReactiveOwner.add
      rw [mem_append, mem_singleton]
    rw [hmem, made_add, h.live connection]
    constructor
    · rintro (⟨hmade, hreport⟩ | rfl)
      · exact ⟨.inl hmade, hreport⟩
      · exact ⟨.inr rfl, hfresh⟩
    · rintro ⟨hmade | rfl, hreport⟩
      · exact .inl ⟨hmade, hreport⟩
      · exact .inr rfl
  counted := h.counted
  made teardown hteardown := made_add.mpr (.inl (h.made teardown hteardown))
  entered teardown hteardown hentered := has_append (h.entered teardown hteardown hentered) rfl
  thrown teardown hteardown hthrown := has_append (h.thrown teardown hteardown hthrown) rfl
  called := h.called
  inactive := h.inactive

theorem Sound.refuse (h : Sound owner) : Sound owner.refuse where
  sane := sane_append h
  nodup := h.nodup
  live connection := by rw [made_refuse]; exact h.live connection
  counted := h.counted
  made teardown hteardown := made_refuse.mpr (h.made teardown hteardown)
  entered teardown hteardown hentered := has_append (h.entered teardown hteardown hentered) rfl
  thrown teardown hteardown hthrown := has_append (h.thrown teardown hteardown hthrown) rfl
  called := h.called
  inactive := h.inactive

/-- What holds of every connection that is handed over holds of a pool. -/
theorem iterate_induction {P : ReactiveOwner → Prop} {f : ReactiveOwner → ReactiveOwner}
    (hf : ∀ owner, P owner → P (f owner)) (pool : ℕ) (h : P owner) : P (f^[pool] owner) := by
  induction pool generalizing owner with
  | zero => exact h
  | succ pool ih => exact ih (hf owner h)

theorem Sound.accept (h : Sound owner) : Sound owner.accept := by
  unfold ReactiveOwner.accept
  split
  · exact h.add
  · exact h.refuse

theorem Sound.connect (h : Sound owner) (pool : ℕ) : Sound (owner.connect pool) := by
  unfold ReactiveOwner.connect
  split
  · exact iterate_induction (fun _ hsound => hsound.add) pool h
  · exact iterate_induction (fun _ hsound => hsound.refuse) pool h

/-- A teardown more, which is in its first `await` or behind the `close` of the broker. -/
theorem Sound.push (h : Sound owner) (hmade : owner.Made teardown.connection)
    (hphase : teardown.phase = .streams ∨ teardown.phase = .broker) :
    Sound { owner with teardowns := owner.teardowns ++ [teardown] } where
  sane := h.sane
  nodup := h.nodup
  live := h.live
  counted connection := by
    -- A teardown that begins has reported nothing.
    have hnot : reportOf connection teardown = false := by
      unfold reportOf
      rcases hphase with hphase | hphase <;> rw [hphase] <;> exact Bool.and_false _
    have hone : [teardown].countP (reportOf connection) = 0 :=
      countP_eq_zero.mpr fun other hother => by
        rw [mem_singleton.mp hother, hnot]; exact Bool.false_ne_true
    dsimp only
    rw [countP_append, hone]
    exact h.counted connection
  made other hother := (mem_append.mp hother).elim (h.made other) fun heq =>
    mem_singleton.mp heq ▸ hmade
  entered other hother hentered := (mem_append.mp hother).elim
    (fun hold => h.entered other hold hentered) fun heq => by
      rw [mem_singleton.mp heq] at hentered
      rcases hphase with hphase | hphase <;> rw [hphase] at hentered <;> cases hentered
  thrown other hother hthrown := (mem_append.mp hother).elim
    (fun hold => h.thrown other hold hthrown) fun heq => by
      rw [mem_singleton.mp heq] at hthrown
      rcases hphase with hphase | hphase <;> rw [hphase] at hthrown <;> cases hthrown
  called := h.called
  inactive hactive := by
    obtain ⟨positions, hpositions, hall⟩ := h.inactive hactive
    exact ⟨positions, hpositions, all_eq_true.mpr fun position hpos =>
      isReported_append rfl (all_eq_true.mp hall position hpos)⟩

theorem begin_eq (hhand : owner.handed[index]? = some handed) :
    owner.begin graceful index =
      { owner.setHanded index { handed with accepting := some false } with
        teardowns := owner.teardowns ++
          [⟨index, graceful, if handed.accepting = some true then .streams else .broker⟩] } := by
  unfold ReactiveOwner.begin
  rw [hhand]

theorem Sound.begin (h : Sound owner) (hmade : owner.Made index) (graceful : Bool) :
    Sound (owner.begin graceful index) := by
  obtain ⟨handed, hhand, hacc⟩ := has_iff.mp hmade
  rw [begin_eq hhand]
  have hlater := Handed.Later.begin hacc
  have hset := h.setHanded hhand (h.sane_of_getElem? hhand).begin hlater
  refine hset.push ((made_setHanded hhand hlater).mpr hmade) ?_
  dsimp only
  split
  · exact .inl rfl
  · exact .inr rfl

theorem made_begin (hmade : owner.Made index) (other : ℕ) :
    (owner.begin graceful index).Made other ↔ owner.Made other := by
  obtain ⟨handed, hhand, hacc⟩ := has_iff.mp hmade
  rw [begin_eq hhand]
  exact made_setHanded hhand (Handed.Later.begin hacc)

theorem begin_induction {P : ReactiveOwner → Prop} {connections : List ℕ}
    (hbegin : ∀ owner index, P owner → owner.Made index → P (owner.begin graceful index))
    (hmade : ∀ connection ∈ connections, owner.Made connection) (h : P owner) :
    P (connections.foldl (ReactiveOwner.begin graceful) owner) := by
  induction connections generalizing owner with
  | nil => exact h
  | cons connection connections ih =>
    have hfirst := hmade connection mem_cons_self
    rw [foldl_cons]
    exact ih (fun other hother => (made_begin hfirst other).mpr
      (hmade other (mem_cons_of_mem _ hother))) (hbegin owner connection h hfirst)

/-- What waits for whom does not matter, as long as the calls that are through stay. -/
theorem Sound.closings {closings : List (List ℕ)} (h : Sound owner)
    (hclosings : ∀ positions ∈ owner.closings, positions ∈ closings) :
    Sound { owner with closings := closings } :=
  { h with
    inactive := fun hactive => by
      obtain ⟨positions, hpositions, hall⟩ := h.inactive hactive
      exact ⟨positions, hclosings positions hpositions, hall⟩ }

theorem closings_begin (owner : ReactiveOwner) (graceful : Bool) (index : ℕ) :
    (owner.begin graceful index).closings = owner.closings := by
  unfold ReactiveOwner.begin
  split <;> rfl

theorem Sound.close (h : Sound owner) : Sound owner.close := by
  have hmade : ∀ connection ∈ owner.connections, owner.Made connection :=
    fun connection hconn => ((h.live connection).mp hconn).1
  have hbegin := begin_induction (P := fun begun => Sound begun ∧ begun.closings = owner.closings)
    (fun begun index hbegun hidx => ⟨hbegun.1.begin hidx owner.graceful,
      (closings_begin begun owner.graceful index).trans hbegun.2⟩) hmade ⟨h, rfl⟩
  obtain ⟨hsound, hclosings⟩ := hbegin
  exact hsound.closings fun positions hpositions =>
    mem_append_left _ (hclosings ▸ hpositions)

theorem countP_setPhase (connection : ℕ) (htear : owner.teardowns[position]? = some teardown)
    (hphase : teardown.phase ≠ .reported) :
    (owner.teardowns.set position { teardown with phase := phase }).countP (reportOf connection) =
      owner.teardowns.countP (reportOf connection) +
        if teardown.connection = connection ∧ phase = .reported then 1 else 0 := by
  obtain ⟨hlt, hget⟩ := List.getElem?_eq_some_iff.mp htear
  have hbefore : reportOf connection owner.teardowns[position] = false := by
    unfold reportOf
    rw [hget, decide_eq_false hphase, Bool.and_false]
  rw [countP_set hlt, if_neg (by rw [hbefore]; exact Bool.false_ne_true), Nat.sub_zero]
  unfold reportOf
  simp only [Bool.and_eq_true, decide_eq_true_eq]

/-- A teardown goes on. -/
theorem Sound.setPhase (h : Sound owner) (htear : owner.teardowns[position]? = some teardown)
    (hold : teardown.phase ≠ .reported) (hnew : phase ≠ .reported)
    (hentered : phase.entered = true → owner.Closing teardown.connection)
    (hthrown : phase = .thrown → owner.Failed teardown.connection) :
    Sound (owner.setPhase position teardown phase) where
  sane := h.sane
  nodup := h.nodup
  live := h.live
  counted connection := by
    unfold ReactiveOwner.setPhase
    dsimp only
    rw [countP_setPhase connection htear hold, if_neg fun heq => hnew heq.2]
    exact h.counted connection
  made other hother := (mem_or_eq_of_mem_set hother).elim (h.made other) fun heq =>
    heq ▸ h.made teardown (mem_of_getElem? htear)
  entered other hother := (mem_or_eq_of_mem_set hother).elim (h.entered other) fun heq =>
    heq ▸ hentered
  thrown other hother := (mem_or_eq_of_mem_set hother).elim (h.thrown other) fun heq =>
    heq ▸ hthrown
  called := h.called
  inactive hactive := by
    obtain ⟨positions, hpositions, hall⟩ := h.inactive hactive
    exact ⟨positions, hpositions, all_eq_true.mpr fun other hother =>
      isReported_set htear hold rfl (all_eq_true.mp hall other hother)⟩

/-- A teardown reports the end of its connection. -/
theorem Sound.report (h : Sound owner) (htear : owner.teardowns[position]? = some teardown)
    (hphase : teardown.phase = .returned) :
    Sound ((owner.report teardown.connection).setPhase position teardown .reported) where
  sane := h.sane
  nodup := h.nodup.erase teardown.connection
  live connection := by
    have hmem : connection ∈ owner.reports ++ [teardown.connection] ↔
        connection ∈ owner.reports ∨ connection = teardown.connection := by
      rw [mem_append, mem_singleton]
    change connection ∈ owner.connections.erase teardown.connection ↔
      owner.Made connection ∧ connection ∉ owner.reports ++ [teardown.connection]
    -- `remove` takes the connection out once, and it was there once.
    rw [h.nodup.mem_erase_iff, h.live connection, hmem, not_or, and_comm, and_assoc]
  counted connection := by
    change (owner.reports ++ [teardown.connection]).count connection =
      (owner.teardowns.set position { teardown with phase := .reported }).countP
        (reportOf connection)
    rw [countP_setPhase connection htear (hphase.trans_ne (by decide)),
      count_append, h.counted connection, count_singleton]
    simp only [beq_iff_eq, and_true]
  made other hother := (mem_or_eq_of_mem_set hother).elim (h.made other) fun heq =>
    heq ▸ h.made teardown (mem_of_getElem? htear)
  entered other hother := (mem_or_eq_of_mem_set hother).elim (h.entered other) fun heq =>
    heq ▸ fun _ => h.entered teardown (mem_of_getElem? htear) (by rw [hphase]; rfl)
  thrown other hother := (mem_or_eq_of_mem_set hother).elim (h.thrown other) fun heq =>
    heq ▸ nofun
  called connections hconnections := by
    -- `onClose` is called with what is left, which is nothing.
    change connections ∈ (if owner.connections.erase teardown.connection = [] then
      owner.onCloses ++ [owner.connections.erase teardown.connection] else owner.onCloses)
      at hconnections
    split at hconnections
    · rename_i hempty
      rcases mem_append.mp hconnections with hold | hnew
      · exact h.called connections hold
      · exact (mem_singleton.mp hnew).trans hempty
    · exact h.called connections hconnections
  inactive hactive := by
    obtain ⟨positions, hpositions, hall⟩ := h.inactive hactive
    exact ⟨positions, hpositions, all_eq_true.mpr fun other hother =>
      isReported_set htear (hphase.trans_ne (by decide)) rfl
        (all_eq_true.mp hall other hother)⟩

/-- The phase behind the first line of the `close` of a transport connection. -/
theorem phase_close (handed : Handed) (graceful free : Bool) :
    (handed.close graceful free).1.entered = true ∧
      (handed.close graceful free).1 ≠ .reported ∧ (handed.close graceful free).1 ≠ .thrown := by
  unfold Handed.close
  split
  · dsimp only
    split
    · exact ⟨rfl, by decide, by decide⟩
    · exact ⟨rfl, by decide, by decide⟩
  · dsimp only
    exact ⟨rfl, by decide, by decide⟩

theorem Sound.move (h : Sound owner) (hmove : owner.Move action next) : Sound next := by
  cases hmove with
  | accept => exact h.accept
  | connect pool => exact h.connect pool
  | moves hhand hstep =>
    obtain ⟨hsane, hlater⟩ := (h.sane_of_getElem? hhand).step hstep
    exact h.setHanded hhand hsane hlater
  | error hmade => exact h.begin hmade false
  | keepAlive hmade => exact h.begin hmade owner.graceful
  | close => exact h.close
  | passes htear hphase =>
    have hmem := mem_of_getElem? htear
    rcases hphase with ⟨hphase, rfl⟩ | ⟨hphase, rfl⟩ | ⟨hphase, rfl⟩ | ⟨hphase, rfl, hfailed⟩
    · exact h.setPhase htear (hphase.trans_ne (by decide))
        (by decide) nofun nofun
    · exact h.setPhase htear (hphase.trans_ne (by decide))
        (by decide) (fun _ => h.entered _ hmem (by rw [hphase]; rfl))
        nofun
    · exact h.setPhase htear (hphase.trans_ne (by decide))
        (by decide) (fun _ => h.entered _ hmem (by rw [hphase]; rfl))
        nofun
    · exact h.setPhase htear (hphase.trans_ne (by decide))
        (by decide) nofun fun _ => hfailed
  | @enters position free teardown handed htear hphase hhand =>
    have hmade := h.made teardown (mem_of_getElem? htear)
    have hsane := h.sane_of_getElem? hhand
    -- A teardown is of a connection that was made.
    have hacc : handed.accepting ≠ none := by
      obtain ⟨found, hfound, hsome⟩ := has_iff.mp hmade
      rw [hhand] at hfound
      cases hfound
      exact fun hnone => by rw [hnone] at hsome; cases hsome
    have hset := h.setHanded hhand (hsane.close hacc teardown.graceful free)
      (hsane.later_close teardown.graceful free)
    obtain ⟨-, hreported, hthrown⟩ :=
      phase_close handed teardown.graceful free
    refine hset.setPhase htear (hphase.trans_ne (by decide)) hreported
      (fun _ => ?_) fun heq => absurd heq hthrown
    refine has_iff.mpr ⟨(handed.close teardown.graceful free).2, ?_, Handed.closing_close _ _⟩
    rw [getElem?_setHanded hhand, if_pos rfl]
  | reports htear hphase => exact h.report htear hphase
  | closed hclosing hall =>
    exact { h with inactive := fun _ => ⟨_, mem_of_getElem? hclosing, hall⟩ }

theorem Sound.step (h : Sound owner) (hstep : owner.step action = some next) : Sound next :=
  h.move (move_of_step hstep)

theorem sound_of_run {kind : Kind} (hrun : run step (create kind graceful) actions = some owner) :
    Sound owner :=
  run_invariant Sound (fun _ _ _ h hstep => h.step hstep) (sound_create kind graceful) hrun

/-! ## What is handed over stays -/

/-- Whatever is at a place stays there, and goes on. -/
def Kept (owner next : ReactiveOwner) : Prop :=
  ∀ (index : ℕ) (handed : Handed), owner.handed[index]? = some handed →
    ∃ later, next.handed[index]? = some later ∧ Handed.Later handed later

theorem Kept.refl (owner : ReactiveOwner) : Kept owner owner :=
  fun _ handed hhand => ⟨handed, hhand, .refl handed⟩

theorem Kept.trans {middle : ReactiveOwner} (h : Kept owner middle) (hnext : Kept middle next) :
    Kept owner next := by
  intro index handed hhand
  obtain ⟨between, hbetween, hfirst⟩ := h index handed hhand
  obtain ⟨later, hlater, hsecond⟩ := hnext index between hbetween
  exact ⟨later, hlater, hfirst.trans hsecond⟩

theorem kept_append {more : List Handed} (heq : next.handed = owner.handed ++ more) :
    Kept owner next := by
  intro index handed hhand
  obtain ⟨hlt, -⟩ := List.getElem?_eq_some_iff.mp hhand
  exact ⟨handed, by rw [heq, getElem?_append_left hlt, hhand], .refl handed⟩

theorem kept_setHanded {changed : Handed} (hhand : owner.handed[index]? = some handed)
    (hchanged : Handed.Later handed changed) : Kept owner (owner.setHanded index changed) := by
  intro other found hfound
  rw [getElem?_setHanded hhand]
  by_cases heq : other = index
  · rw [heq, hhand] at hfound
    cases hfound
    exact ⟨changed, if_pos heq, hchanged⟩
  · exact ⟨found, by rw [if_neg heq, hfound], .refl found⟩

theorem kept_begin (hmade : owner.Made index) : Kept owner (owner.begin graceful index) := by
  obtain ⟨handed, hhand, hacc⟩ := has_iff.mp hmade
  rw [begin_eq hhand]
  exact kept_setHanded hhand (Handed.Later.begin hacc)

theorem Sound.kept (h : Sound owner) (hmove : owner.Move action next) : Kept owner next := by
  cases hmove with
  | accept =>
    unfold ReactiveOwner.accept
    split <;> exact kept_append rfl
  | connect pool =>
    unfold ReactiveOwner.connect
    split
    · exact iterate_induction (P := Kept owner) (f := ReactiveOwner.add)
        (fun _ hother => hother.trans (kept_append rfl)) pool (.refl owner)
    · exact iterate_induction (P := Kept owner) (f := ReactiveOwner.refuse)
        (fun _ hother => hother.trans (kept_append rfl)) pool (.refl owner)
  | moves hhand hstep =>
    exact kept_setHanded hhand ((h.sane_of_getElem? hhand).step hstep).2
  | error hmade => exact kept_begin hmade
  | keepAlive hmade => exact kept_begin hmade
  | close =>
    exact begin_induction (P := Kept owner)
      (fun _ _ hother hmade => hother.trans (kept_begin hmade))
      (fun connection hconn => ((h.live connection).mp hconn).1) (.refl owner)
  | @enters position free teardown handed htear hphase hhand =>
    exact kept_setHanded hhand
      ((h.sane_of_getElem? hhand).later_close teardown.graceful free)
  | passes | reports | closed => exact .refl owner

theorem kept_run {start : ReactiveOwner} (h : Sound start)
    (hrun : run step start actions = some owner) : Kept start owner :=
  (run_invariant (fun owner => Sound owner ∧ Kept start owner)
    (fun _ _ _ hother hstep =>
      ⟨hother.1.step hstep, hother.2.trans (hother.1.kept (move_of_step hstep))⟩)
    ⟨h, .refl start⟩ hrun).2

end ReactiveOwner

end FengShui.Reactive
