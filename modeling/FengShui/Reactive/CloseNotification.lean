import FengShui.Reactive.OwnerInvariants

/-!
# Who is told of the end of a connection

Every teardown of a connection reports its end, also where others are under way or through. So the
owner hears of it once when one teardown is begun, and its `onClose` is called once each time
`_connections` becomes empty (`notified_of_run`); two write errors are enough to break both.
-/

namespace FengShui.Reactive.ReactiveOwner

open FengShui.Transport FengShui.Transition List

/-- The connections of the teardowns, as they were begun. -/
def begun (owner : ReactiveOwner) : List ℕ := owner.teardowns.map Teardown.connection

/-- The connections of which an action begins a teardown. -/
def begins (owner : ReactiveOwner) : OwnerAction → List ℕ
  | .error index | .keepAlive index => [index]
  | .close => owner.connections
  | _ => []

/-- No teardown of a connection is begun behind another one. -/
def Once (owner : ReactiveOwner) (action : OwnerAction) : Prop :=
  ∀ connection ∈ owner.begins action, connection ∉ owner.begun

/-- The cancel of a `close` finds an entry in the ring. -/
def Room (owner : ReactiveOwner) : OwnerAction → Prop
  | .advance position free => ∀ (teardown : Teardown) (handed : Handed),
    owner.teardowns[position]? = some teardown → teardown.phase = .broker →
      owner.handed[teardown.connection]? = some handed →
        handed.throws teardown.graceful free = false
  | .complete index event result free => ∀ handed : Handed, owner.handed[index]? = some handed →
    handed.drops event result = true →
      ({ handed with channel := handed.channel.lower } : Handed).throws false free = false
  | .timeout _ free => owner.kind = .client → free = true
  | _ => True

/-- There is room in the ring, whoever asks. -/
def roomy : OwnerAction → Bool
  | .advance _ free | .complete _ _ _ free | .timeout _ free => free
  | _ => true

instance (owner : ReactiveOwner) (action : OwnerAction) : Decidable (owner.Once action) := by
  unfold Once
  infer_instance

/-- The teardowns of the connection have come to their end. -/
def Ended (owner : ReactiveOwner) (connection : ℕ) : Prop :=
  ∀ teardown ∈ owner.teardowns, teardown.connection = connection →
    teardown.phase = .reported ∨ teardown.phase = .thrown

/-- Each connection reports its end to its owner exactly once, and `onClose` is called exactly once
each time `_connections` becomes empty, and only when it is. -/
structure Notified (owner : ReactiveOwner) : Prop where
  once : ∀ connection, owner.reports.count connection ≤ 1
  ended : ∀ connection ∈ owner.begun, owner.Ended connection → owner.reports.count connection = 1
  emptied : owner.onCloses.length = owner.emptied
  empty : ∀ connections ∈ owner.onCloses, connections = []

variable {owner next : ReactiveOwner} {action : OwnerAction} {actions : List OwnerAction}
  {kind : Kind} {graceful : Bool} {index : ℕ}

/-! ## What the operations do to the teardowns -/

variable {teardown : Teardown}

@[simp]
theorem begun_setPhase {position : ℕ} (phase : Phase)
    (h : owner.teardowns[position]? = some teardown) :
    (owner.setPhase position teardown phase).begun = owner.begun := by
  have hmap : (owner.teardowns.map Teardown.connection)[position]? = some teardown.connection := by
    rw [getElem?_map, h]
    rfl
  obtain ⟨hlt, hget⟩ := List.getElem?_eq_some_iff.mp hmap
  unfold begun setPhase
  dsimp only
  rw [map_set, ← hget, set_getElem_self]

theorem begun_begin (hmade : owner.Made index) (graceful : Bool) :
    (owner.begin graceful index).begun = owner.begun ++ [index] := by
  obtain ⟨handed, hhand, -⟩ := has_iff.mp hmade
  rw [begin_eq hhand]
  exact map_append

theorem begun_foldl {connections : List ℕ}
    (hmade : ∀ connection ∈ connections, owner.Made connection) :
    (connections.foldl (begin graceful) owner).begun = owner.begun ++ connections := by
  induction connections generalizing owner with
  | nil => exact (append_nil _).symm
  | cons connection connections ih =>
    have hfirst := hmade connection mem_cons_self
    rw [foldl_cons, ih fun other hother => (made_begin hfirst other).mpr
      (hmade other (mem_cons_of_mem _ hother)), begun_begin hfirst, append_assoc]
    rfl

/-- What a step that nobody hears of leaves as it is. -/
structure Unheard (owner next : ReactiveOwner) : Prop where
  onCloses : next.onCloses = owner.onCloses
  emptied : next.emptied = owner.emptied

theorem Unheard.refl (owner : ReactiveOwner) : Unheard owner owner := ⟨rfl, rfl⟩

theorem Unheard.trans {middle : ReactiveOwner} (h : Unheard owner middle)
    (hnext : Unheard middle next) :
    Unheard owner next := ⟨hnext.onCloses.trans h.onCloses, hnext.emptied.trans h.emptied⟩

theorem unheard_connect (owner : ReactiveOwner) (pool : ℕ) :
    Unheard owner (owner.connect pool) ∧ (owner.connect pool).begun = owner.begun := by
  have hround (f : ReactiveOwner → ReactiveOwner)
      (hf : ∀ other, Unheard other (f other) ∧ (f other).begun = other.begun) :
      Unheard owner (f^[pool] owner) ∧ (f^[pool] owner).begun = owner.begun :=
    iterate_induction (P := fun other => Unheard owner other ∧ other.begun = owner.begun)
      (fun other h => ⟨h.1.trans (hf other).1, (hf other).2.trans h.2⟩) pool ⟨.refl owner, rfl⟩
  unfold ReactiveOwner.connect
  split
  · exact hround add fun _ => ⟨⟨rfl, rfl⟩, rfl⟩
  · exact hround refuse fun _ => ⟨⟨rfl, rfl⟩, rfl⟩

theorem unheard_accept (owner : ReactiveOwner) :
    Unheard owner owner.accept ∧ owner.accept.begun = owner.begun := by
  unfold ReactiveOwner.accept
  split <;> exact ⟨⟨rfl, rfl⟩, rfl⟩

theorem unheard_begin (graceful : Bool) (index : ℕ) :
    Unheard owner (owner.begin graceful index) := by
  unfold ReactiveOwner.begin
  split <;> exact ⟨rfl, rfl⟩

/-- Only the step in which a teardown reports is heard of. -/
theorem unheard_step (hsound : Sound owner) (hstep : owner.step action = some next) :
    Unheard owner next ∨ ∃ (position : ℕ) (teardown : Teardown),
      owner.teardowns[position]? = some teardown ∧ teardown.phase = .returned ∧
        Unheard (owner.report teardown.connection) next := by
  cases move_of_step hstep with
  | accept => exact .inl (unheard_accept owner).1
  | connect pool => exact .inl (unheard_connect owner pool).1
  | error => exact .inl (unheard_begin false _)
  | keepAlive => exact .inl (unheard_begin owner.graceful _)
  | close =>
    obtain ⟨honCloses, hemptied⟩ := begin_induction (P := Unheard owner)
      (fun other index h _ => h.trans (unheard_begin owner.graceful index))
      (fun connection hconn => ((hsound.live connection).mp hconn).1) (.refl owner)
    exact .inl ⟨honCloses, hemptied⟩
  | reports htear hphase => exact .inr ⟨_, _, htear, hphase, ⟨rfl, rfl⟩⟩
  | moves | passes | enters | closed => exact .inl ⟨rfl, rfl⟩

/-- The teardowns that a step begins come behind those that were. -/
theorem begun_step (hsound : Sound owner) (hstep : owner.step action = some next) :
    next.begun = owner.begun ++ owner.begins action := by
  cases move_of_step hstep with
  | accept => exact (unheard_accept owner).2.trans (append_nil _).symm
  | connect pool => exact (unheard_connect owner pool).2.trans (append_nil _).symm
  | moves hhand hmoved =>
    -- What a channel does begins no teardown.
    have hnone : owner.begins action = [] := by
      cases action with
      | accept | connect | issue | complete | advance | timeout | resume | finish | closed => rfl
      | error | keepAlive | close => cases hmoved
    rw [hnone, append_nil]
    rfl
  | error hmade => exact begun_begin hmade false
  | keepAlive hmade => exact begun_begin hmade owner.graceful
  | close =>
    exact begun_foldl fun connection hconn => ((hsound.live connection).mp hconn).1
  | passes htear => exact (begun_setPhase _ htear).trans (append_nil _).symm
  | @enters position free teardown handed htear =>
    have hset : (owner.setHanded teardown.connection
        (handed.close teardown.graceful free).2).teardowns[position]? = some teardown := htear
    exact (begun_setPhase _ hset).trans (append_nil _).symm
  | @reports position free teardown htear =>
    have hset : (owner.report teardown.connection).teardowns[position]? = some teardown := htear
    exact (begun_setPhase _ hset).trans (append_nil _).symm
  | closed => exact (append_nil _).symm

/-! ## No `close` throws -/

/-- No `close` of a transport connection has thrown. -/
def Intact (owner : ReactiveOwner) : Prop := ∀ handed ∈ owner.handed, handed.failed = false

theorem intact_append {made : Bool} (h : Intact owner) :
    ∀ handed ∈ owner.handed ++ [.create owner.kind made], handed.failed = false := by
  intro handed hhand
  rcases mem_append.mp hhand with hold | hnew
  · exact h handed hold
  · rw [mem_singleton.mp hnew]
    rfl

theorem Intact.setHanded {later : Handed} (h : Intact owner) (hfailed : later.failed = false) :
    Intact (owner.setHanded index later) := fun handed hhand =>
  (mem_or_eq_of_mem_set hhand).elim (h handed) fun heq => heq ▸ hfailed

theorem Intact.begin (h : Intact owner) (hmade : owner.Made index) (graceful : Bool) :
    Intact (owner.begin graceful index) := by
  obtain ⟨handed, hhand, -⟩ := has_iff.mp hmade
  rw [begin_eq hhand]
  have hset : Intact (owner.setHanded index { handed with accepting := some false }) :=
    h.setHanded (h handed (mem_of_getElem? hhand))
  exact hset

/-- A step of a transport connection that finds room for its cancel does not throw. -/
theorem failed_stepHanded {handed later : Handed} (hsane : handed.Sane owner.kind)
    (hhand : owner.handed[action.index]? = some handed) (hroom : owner.Room action)
    (hfailed : handed.failed = false) (hstep : stepHanded handed action = some later) :
    later.failed = false := by
  cases action with
  | complete index event result free =>
    obtain ⟨hpend, hnotify⟩ := Option.ite_none_right_eq_some.mp hstep
    cases hnotify
    have hmade : handed.accepting ≠ none := by
      intro hrefused
      rw [(hsane.refused hrefused).2] at hpend
      exact absurd hpend (lt_irrefl 0)
    unfold Handed.notify
    dsimp only
    split
    -- The connection is dropped on an error, and its `close` needs an entry.
    · rename_i hdrops
      exact ((hsane.lower hmade).failed_close (hroom handed hhand hdrops)).trans hfailed
    · exact hfailed
  | timeout index free =>
    obtain ⟨-, htimeout⟩ := Option.ite_none_right_eq_some.mp hstep
    cases htimeout
    change (decide (handed.channel.kind = .client) && !free) = false
    rw [hsane.kind]
    -- Only clients cancel behind the timeout.
    by_cases hclient : owner.kind = .client
    · rw [hroom hclient, Bool.not_true, Bool.and_false]
    · rw [decide_eq_false hclient, Bool.false_and]
  | issue index =>
    obtain ⟨-, hissue⟩ := Option.ite_none_right_eq_some.mp hstep
    cases hissue
    exact hfailed
  | resume index =>
    simp only [stepHanded] at hstep
    split at hstep
    · obtain ⟨-, hresume⟩ := Option.ite_none_right_eq_some.mp hstep
      cases hresume
      exact hfailed
    · cases hstep
  | finish index =>
    obtain ⟨-, hfinish⟩ := Option.ite_none_right_eq_some.mp hstep
    cases hfinish
    exact hfailed
  | accept | connect | error | keepAlive | close | advance | closed => cases hstep

theorem room_of_roomy (h : roomy action = true) : owner.Room action := by
  cases action with
  | advance position free =>
    obtain rfl : free = true := h
    intro teardown handed _ _ _
    exact Bool.and_false _
  | complete index event result free =>
    obtain rfl : free = true := h
    intro handed _ _
    exact Bool.and_false _
  | timeout index free => exact fun _ => h
  | accept | connect | issue | error | keepAlive | close | resume | finish | closed => trivial

theorem Intact.step (h : Intact owner) (hsound : Sound owner) (hroom : owner.Room action)
    (hstep : owner.step action = some next) : Intact next := by
  cases move_of_step hstep with
  | accept =>
    unfold ReactiveOwner.accept
    split <;> exact intact_append h
  | connect pool =>
    unfold ReactiveOwner.connect
    split
    · exact iterate_induction (P := Intact) (f := add) (fun _ hother => intact_append hother) pool h
    · exact iterate_induction (P := Intact) (f := refuse)
        (fun _ hother => intact_append hother) pool h
  | moves hhand hmoved =>
    exact h.setHanded (failed_stepHanded (hsound.sane_of_getElem? hhand) hhand hroom
      (h _ (mem_of_getElem? hhand)) hmoved)
  | error hmade => exact h.begin hmade false
  | keepAlive hmade => exact h.begin hmade owner.graceful
  | close =>
    exact begin_induction (P := Intact) (fun _ _ hother hmade => hother.begin hmade owner.graceful)
      (fun connection hconn => ((hsound.live connection).mp hconn).1) h
  | @enters position free teardown handed htear hphase hhand =>
    have hthrows := hroom teardown handed htear hphase hhand
    exact h.setHanded (((hsound.sane_of_getElem? hhand).failed_close hthrows).trans
      (h handed (mem_of_getElem? hhand)))
  | passes | reports | closed => exact h

/-- Where no `close` of a transport connection throws, no teardown does. -/
theorem Intact.not_thrown (h : Intact owner) (hsound : Sound owner)
    (htear : teardown ∈ owner.teardowns) : teardown.phase ≠ .thrown := by
  intro hthrown
  obtain ⟨handed, hhand, hfailed⟩ := has_iff.mp (hsound.thrown teardown htear hthrown)
  rw [h handed (mem_of_getElem? hhand)] at hfailed
  cases hfailed

/-! ## One teardown for each connection -/

/-- No connection has two teardowns, and every call of `onClose` is behind a connection that was the
last one. -/
structure Single (owner : ReactiveOwner) : Prop where
  begun : owner.begun.Nodup
  emptied : owner.onCloses.length = owner.emptied

theorem Single.teardown_eq (h : Single owner) {first second : Teardown}
    (hfirst : first ∈ owner.teardowns) (hsecond : second ∈ owner.teardowns)
    (heq : first.connection = second.connection) : first = second :=
  inj_on_of_nodup_map h.begun hfirst hsecond heq

/-- The only teardown of a connection finds it in `_connections`. -/
theorem Single.mem_connections (h : Single owner) (hsound : Sound owner)
    (htear : teardown ∈ owner.teardowns) (hphase : teardown.phase = .returned) :
    teardown.connection ∈ owner.connections := by
  refine (hsound.live _).mpr ⟨hsound.made teardown htear, fun hreport => ?_⟩
  obtain ⟨other, hother, hconn, hreported⟩ := hsound.mem_reports_iff.mp hreport
  rw [h.teardown_eq hother htear hconn, hphase] at hreported
  cases hreported

theorem nodup_begins (hsound : Sound owner) : (owner.begins action).Nodup := by
  cases action with
  | error index => exact nodup_singleton index
  | keepAlive index => exact nodup_singleton index
  | close => exact hsound.nodup
  | accept | connect | issue | complete | advance | timeout | resume | finish | closed =>
    exact nodup_nil

theorem Single.step (h : Single owner) (hsound : Sound owner) (honce : owner.Once action)
    (hstep : owner.step action = some next) : Single next where
  begun := by
    rw [begun_step hsound hstep]
    exact h.begun.append (nodup_begins hsound) fun _ hold hnew => honce _ hnew hold
  emptied := by
    rcases unheard_step hsound hstep with hsame | ⟨position, teardown, htear, hphase, hsame⟩
    · rw [hsame.onCloses, hsame.emptied, h.emptied]
    · have hmem := h.mem_connections hsound (mem_of_getElem? htear) hphase
      have hlive : owner.connections ≠ [] := ne_nil_of_mem hmem
      rw [hsame.onCloses, hsame.emptied]
      unfold report
      dsimp only
      by_cases hempty : owner.connections.erase teardown.connection = []
      · rw [if_pos hempty, if_pos ⟨hlive, hempty⟩, length_append, h.emptied]
        rfl
      · rw [if_neg hempty, if_neg fun hboth => hempty hboth.2, h.emptied]

theorem countP_reportOf_le (connection : ℕ) :
    owner.teardowns.countP (reportOf connection) ≤ owner.begun.count connection := by
  unfold begun
  rw [List.count, countP_map]
  refine countP_mono_left fun teardown _ hof => ?_
  obtain ⟨hconn, -⟩ := Bool.and_eq_true_iff.mp hof
  exact beq_iff_eq.mpr (of_decide_eq_true hconn)

/-- Where all its teardowns have come to their end and none has thrown, a connection has reported as
often as it was torn down. -/
theorem count_reports (hsound : Sound owner) (hintact : Intact owner) {connection : ℕ}
    (hended : owner.Ended connection) :
    owner.reports.count connection = owner.begun.count connection := by
  unfold begun
  rw [hsound.counted, List.count, countP_map]
  refine countP_congr fun teardown htear => ?_
  have hreported (heq : teardown.connection = connection) : teardown.phase = .reported :=
    (hended teardown htear heq).resolve_right (hintact.not_thrown hsound htear)
  unfold reportOf
  rw [Bool.and_eq_true, decide_eq_true_eq, decide_eq_true_eq]
  exact ⟨fun hof => beq_iff_eq.mpr hof.1, fun heq =>
    ⟨beq_iff_eq.mp heq, hreported (beq_iff_eq.mp heq)⟩⟩

theorem Single.notified (h : Single owner) (hsound : Sound owner) (hintact : Intact owner) :
    Notified owner where
  once connection := by
    rw [hsound.counted]
    exact (countP_reportOf_le connection).trans (nodup_iff_count_le_one.mp h.begun connection)
  ended connection hbegun hended := by
    rw [count_reports hsound hintact hended]
    exact count_eq_one_of_mem h.begun hbegun
  emptied := h.emptied
  empty := hsound.called

/-! ## Whole runs -/

/-- All teardowns have come to their end. -/
def Settled (owner : ReactiveOwner) : Prop := ∀ connection, owner.Ended connection

theorem intact_of_run (halong : Along step Room (create kind graceful) actions)
    (hrun : run step (create kind graceful) actions = some owner) : Intact owner :=
  (run_induction (fun _ owner => Sound owner ∧ Intact owner)
    (fun _ _ _ _ h hroom hstep => ⟨h.1.step hstep, h.2.step h.1 hroom hstep⟩)
    ⟨sound_create kind graceful, fun _ h => by cases h⟩ halong hrun).2

theorem single_of_run (halong : Along step Once (create kind graceful) actions)
    (hrun : run step (create kind graceful) actions = some owner) : Single owner :=
  (run_induction (fun _ owner => Sound owner ∧ Single owner)
    (fun _ _ _ _ h honce hstep => ⟨h.1.step hstep, h.2.step h.1 honce hstep⟩)
    ⟨sound_create kind graceful, nodup_nil, rfl⟩ halong hrun).2

/-- What was begun stays begun. -/
theorem begun_run {start : ReactiveOwner} (hsound : Sound start)
    (hrun : run step start actions = some owner) : start.begun <+: owner.begun :=
  (run_invariant (fun owner => Sound owner ∧ start.begun <+: owner.begun)
    (fun other action next h hstep => ⟨h.1.step hstep, by
      rw [begun_step h.1 hstep]
      exact h.2.trans (prefix_append other.begun (other.begins action))⟩)
    ⟨hsound, prefix_rfl⟩ hrun).2

/-- The owner hears once of the end of each connection, and its `onClose` is called once each time
`_connections` becomes empty, where no teardown of a connection is begun behind another one; and as
soon as all teardowns are through, only there. -/
theorem notified_of_run (halong : Along step Room (create kind graceful) actions)
    (hrun : run step (create kind graceful) actions = some owner) :
    (Along step Once (create kind graceful) actions → Notified owner) ∧
      (Settled owner → Notified owner → Along step Once (create kind graceful) actions) := by
  have hsound := sound_of_run hrun
  have hintact := intact_of_run halong hrun
  refine ⟨fun honce => (single_of_run honce hrun).notified hsound hintact, fun hsettled hnotified =>
    ?_⟩
  by_contra hnot
  obtain ⟨front, action, back, state, rfl, -, hfront, htwice⟩ := exists_of_not_along hnot
  rw [run_append_of_run hfront] at hrun
  obtain ⟨next, hstep, hback⟩ := run_cons_eq_some.mp hrun
  have hstate := sound_of_run hfront
  obtain ⟨connection, hbegins, hbegun⟩ : ∃ connection ∈ state.begins action,
      connection ∈ state.begun := by
    by_contra hnone
    exact htwice fun connection hbegins hbegun => hnone ⟨connection, hbegins, hbegun⟩
  -- From this step on there are two teardowns of the connection, and both report.
  have htwo : 2 ≤ next.begun.count connection := by
    rw [begun_step hstate hstep, List.count_append]
    have hold := List.count_pos_iff.mpr hbegun
    have hnew := List.count_pos_iff.mpr hbegins
    omega
  have hmore := (begun_run (hstate.step hstep) hback).sublist.count_le connection
  have hcount := count_reports hsound hintact (hsettled connection)
  have hone := hnotified.once connection
  omega

/-- A connection that is closed by its owner. -/
theorem notified_of_run_closed :
    ∃ owner, run step (create .client false) [.connect 1, .close, .advance 0 true, .advance 0 true,
      .finish 0, .advance 0 true, .advance 0 true, .closed 0] = some owner ∧ owner.onCloses = [[]] ∧
      Notified owner := by
  have hroom : Along step Room (create .client false) [.connect 1, .close, .advance 0 true,
      .advance 0 true, .finish 0, .advance 0 true, .advance 0 true, .closed 0] :=
    along_of_forall fun action haction _ => room_of_roomy
      (List.all_eq_true.mp (of_decide_eq_true rfl) action haction)
  exact ⟨_, rfl, rfl, (notified_of_run hroom rfl).1 (by decide)⟩

/-- Two writes of a connection fail: both tear it down, the owner hears twice of its end, and
`onClose` is called for a set that was empty already. -/
theorem not_notified : ¬∀ owner, Reachable step (create .client false) owner → Notified owner := by
  intro h
  have hnotified := h _ ⟨[.connect 1, .issue 0, .issue 0, .complete 0 .write (-104) true, .error 0,
    .complete 0 .write (-104) true, .error 0, .advance 0 true, .advance 0 true, .advance 1 true,
    .finish 0, .advance 0 true, .advance 0 true, .advance 1 true], rfl⟩
  exact absurd (hnotified.once 0) (by decide)

end FengShui.Reactive.ReactiveOwner
