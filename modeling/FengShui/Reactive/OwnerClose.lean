import FengShui.Reactive.CloseNotification

/-!
# What stays open behind the `close` of a client or a server

`close` works on a snapshot of `_connections` and refuses newcomers only when all of those are
closed. Until then a newcomer is added and nobody closes it; from then on its transport connection
is dropped without being closed. `nothingOpen_of_run` says when nothing stays open.
-/

namespace FengShui.Reactive.ReactiveOwner

open FengShui.Transport FengShui.Transition List

/-- Nothing is handed over from the first call of `close` on. -/
def Early (owner : ReactiveOwner) : OwnerAction → Prop
  | .accept => owner.closings = []
  | .connect pool => pool = 0 ∨ owner.closings = []
  | _ => True

instance (owner : ReactiveOwner) (action : OwnerAction) : Decidable (owner.Early action) := by
  cases action <;> unfold Early <;> infer_instance

/-- Nothing is handed over behind a `close`. -/
def Admitted (owner : ReactiveOwner) : OwnerAction → Prop
  | .accept => owner.active = true
  | .connect pool => pool = 0 ∨ owner.active = true
  | _ => True

/-- Whatever was handed over is closed, and `_connections` is empty. -/
structure NothingOpen (owner : ReactiveOwner) : Prop where
  connections : owner.connections = []
  finished : ∀ handed ∈ owner.handed, handed.finished = true

/-- Whatever was begun has come to its end: the teardowns, and the `close` of the transport
connections. -/
structure Resting (owner : ReactiveOwner) : Prop where
  settled : Settled owner
  finished : ∀ handed ∈ owner.handed, handed.channel.closing = true →
    handed.finished = true ∨ handed.failed = true

variable {owner next : ReactiveOwner} {action : OwnerAction} {actions : List OwnerAction}
  {kind : Kind} {graceful : Bool} {index : ℕ}

/-! ## Who is made -/

/-- A connection was made of whatever was handed over. -/
def AllMade (owner : ReactiveOwner) : Prop := ∀ handed ∈ owner.handed, handed.accepting ≠ none

variable {handed : Handed}

theorem mem_handed_add (h : handed ∈ owner.add.handed) :
    handed ∈ owner.handed ∨ handed = .create owner.kind true :=
  (mem_append.mp h).imp id mem_singleton.mp

theorem AllMade.add (h : AllMade owner) : AllMade owner.add := by
  intro handed hhand
  rcases mem_handed_add hhand with hold | rfl
  · exact h handed hold
  · exact fun hnone => by cases hnone

/-- What goes on at a place was made if it was before. -/
theorem AllMade.setHanded {later : Handed} (h : AllMade owner)
    (hhand : owner.handed[index]? = some handed) (hlater : Handed.Later handed later) :
    AllMade (owner.setHanded index later) := by
  intro other hother
  rcases mem_or_eq_of_mem_set hother with hold | rfl
  · exact h other hold
  · exact fun hnone => h handed (mem_of_getElem? hhand) (hlater.eq_none hnone)

theorem AllMade.begin (h : AllMade owner) (hmade : owner.Made index) (graceful : Bool) :
    AllMade (owner.begin graceful index) := by
  obtain ⟨handed, hhand, hacc⟩ := has_iff.mp hmade
  rw [begin_eq hhand]
  exact h.setHanded hhand (Handed.Later.begin hacc)

theorem AllMade.step (h : AllMade owner) (hsound : Sound owner) (hadmitted : owner.Admitted action)
    (hstep : owner.step action = some next) : AllMade next := by
  cases move_of_step hstep with
  | accept =>
    have hactive : owner.active = true := hadmitted
    unfold ReactiveOwner.accept
    rw [if_pos hactive]
    exact h.add
  | connect pool =>
    unfold ReactiveOwner.connect
    -- An empty pool makes nothing, and refuses nothing.
    rcases hadmitted with rfl | hactive
    · split <;> exact h
    · rw [if_pos hactive]
      exact iterate_induction (fun _ hother => hother.add) pool h
  | moves hhand hmoved =>
    exact h.setHanded hhand ((hsound.sane_of_getElem? hhand).step hmoved).2
  | error hmade => exact h.begin hmade false
  | keepAlive hmade => exact h.begin hmade owner.graceful
  | close =>
    exact begin_induction (P := AllMade) (fun _ _ hother hmade => hother.begin hmade owner.graceful)
      (fun connection hconn => ((hsound.live connection).mp hconn).1) h
  | @enters position free teardown handed htear hphase hhand =>
    exact h.setHanded hhand
      ((hsound.sane_of_getElem? hhand).later_close teardown.graceful free)
  | passes | reports | closed => exact h

theorem allMade_of_run (halong : Along step Admitted (create kind graceful) actions)
    (hrun : run step (create kind graceful) actions = some owner) : AllMade owner :=
  (run_induction (fun _ owner => Sound owner ∧ AllMade owner)
    (fun _ _ _ _ h hadmitted hstep => ⟨h.1.step hstep, h.2.step h.1 hadmitted hstep⟩)
    ⟨sound_create kind graceful, fun _ h => by cases h⟩ halong hrun).2

theorem AllMade.made (h : AllMade owner) (hhand : owner.handed[index]? = some handed) :
    owner.Made index :=
  has_iff.mpr ⟨handed, hhand, Option.isSome_iff_ne_none.mpr
    (h handed (mem_of_getElem? hhand))⟩

/-! ## A `close` waits for whoever was there -/

/-- Every `close` waits for a teardown of each connection. -/
def Guarded (owner : ReactiveOwner) : Prop :=
  ∀ positions ∈ owner.closings, ∀ connection ∈ owner.connections,
    ∃ position ∈ positions, owner.begun[position]? = some connection

theorem Guarded.mono (h : Guarded owner) (hclosings : next.closings = owner.closings)
    (hconns : next.connections ⊆ owner.connections) (hbegun : owner.begun <+: next.begun) :
    Guarded next := by
  intro positions hpositions connection hconn
  obtain ⟨position, hpos, hget⟩ :=
    h positions (hclosings ▸ hpositions) connection (hconns hconn)
  obtain ⟨hlt, -⟩ := List.getElem?_eq_some_iff.mp hget
  exact ⟨position, hpos, (prefix_iff_getElem?.mp hbegun position hlt).trans
    (getElem?_eq_getElem hlt ▸ hget)⟩

theorem guarded_of_nil (h : owner.closings = []) : Guarded owner := by
  intro positions hpositions
  rw [h] at hpositions
  cases hpositions

theorem closings_iterate {f : ReactiveOwner → ReactiveOwner}
    (hf : ∀ other, (f other).closings = other.closings) (pool : ℕ) :
    (f^[pool] owner).closings = owner.closings :=
  iterate_induction (P := fun other => other.closings = owner.closings)
    (fun other h => (hf other).trans h) pool rfl

theorem closings_connect (pool : ℕ) : (owner.connect pool).closings = owner.closings := by
  unfold ReactiveOwner.connect
  split
  · exact closings_iterate (f := add) (fun _ => rfl) pool
  · exact closings_iterate (f := refuse) (fun _ => rfl) pool

theorem connections_begin (graceful : Bool) (index : ℕ) :
    (owner.begin graceful index).connections = owner.connections := by
  unfold ReactiveOwner.begin
  split <;> rfl

theorem Guarded.close (h : Guarded owner) (hsound : Sound owner) : Guarded owner.close := by
  have hmade : ∀ connection ∈ owner.connections, owner.Made connection :=
    fun connection hconn => ((hsound.live connection).mp hconn).1
  have hbegun : owner.close.begun = owner.begun ++ owner.connections := begun_foldl hmade
  have hconns : owner.close.connections = owner.connections :=
    begin_induction (P := fun other => other.connections = owner.connections)
      (fun other index hother _ => (connections_begin owner.graceful index).trans hother) hmade rfl
  intro positions hpositions connection hconn
  rw [hconns] at hconn
  rw [hbegun]
  rcases mem_append.mp hpositions with hold | hnew
  · obtain ⟨position, hpos, hget⟩ := h positions hold connection hconn
    obtain ⟨hlt, -⟩ := List.getElem?_eq_some_iff.mp hget
    exact ⟨position, hpos, (getElem?_append_left hlt).trans hget⟩
  · -- The snapshot has a teardown for each of its connections, in their order.
    obtain ⟨offset, hget⟩ := getElem?_of_mem hconn
    obtain ⟨hlt, -⟩ := List.getElem?_eq_some_iff.mp hget
    have hlen : owner.begun.length = owner.teardowns.length := length_map _
    refine ⟨owner.teardowns.length + offset, ?_, ?_⟩
    · rw [mem_singleton.mp hnew, mem_range'_1]
      omega
    · rw [getElem?_append_right (by omega), hlen, Nat.add_sub_cancel_left, hget]

theorem Guarded.step (h : Guarded owner) (hsound : Sound owner) (hearly : owner.Early action)
    (hstep : owner.step action = some next) : Guarded next := by
  have hbegun : owner.begun <+: next.begun := by
    rw [begun_step hsound hstep]
    exact prefix_append _ _
  cases move_of_step hstep with
  | accept =>
    have hclosings : owner.accept.closings = owner.closings := by
      unfold ReactiveOwner.accept
      split <;> rfl
    -- An owner takes connections only before it is closed.
    exact guarded_of_nil (hclosings.trans hearly)
  | connect pool =>
    rcases hearly with rfl | hnil
    · unfold ReactiveOwner.connect
      split <;> exact h
    · exact guarded_of_nil ((closings_connect pool).trans hnil)
  | error =>
    exact h.mono (closings_begin _ _ _) (fun _ hmem => connections_begin _ _ ▸ hmem) hbegun
  | keepAlive =>
    exact h.mono (closings_begin _ _ _) (fun _ hmem => connections_begin _ _ ▸ hmem) hbegun
  | close => exact h.close hsound
  | reports => exact h.mono rfl erase_subset hbegun
  | moves | passes | enters | closed => exact h.mono rfl (List.Subset.refl _) hbegun

/-- Behind a `close` with nobody handed over since it was called, `_connections` is empty. -/
theorem Guarded.connections_eq_nil (h : Guarded owner) (hsound : Sound owner)
    (hactive : owner.active = false) : owner.connections = [] := by
  obtain ⟨positions, hpositions, hall⟩ := hsound.inactive hactive
  refine eq_nil_iff_forall_not_mem.mpr fun connection hconn => ?_
  obtain ⟨position, hpos, hget⟩ := h positions hpositions connection hconn
  obtain ⟨teardown, htear, hphase⟩ :=
    isReported_iff.mp (all_eq_true.mp hall position hpos)
  unfold begun at hget
  rw [getElem?_map, htear] at hget
  refine ((hsound.live connection).mp hconn).2 (hsound.mem_reports_iff.mpr ?_)
  exact ⟨teardown, mem_of_getElem? htear, Option.some.inj hget, hphase⟩

/-! ## What stays as it is to the end -/

/-- A cancel that finds the ring full makes the `close` of a transport connection throw. -/
theorem failed_of_not_room (hsound : Sound owner) (hroom : ¬owner.Room action)
    (hstep : owner.step action = some next) : ∃ index, next.Failed index := by
  cases action with
  | advance position free =>
    simp only [Room, not_forall, Bool.not_eq_false] at hroom
    obtain ⟨teardown, handed, htear, hphase, hhand, hthrows⟩ := hroom
    refine ⟨teardown.connection, has_iff.mpr
      ⟨(handed.close teardown.graceful free).2, ?_, Handed.failed_close_of_throws hthrows⟩⟩
    simp only [ReactiveOwner.step, ReactiveOwner.advance, htear, hhand, hphase] at hstep
    cases hstep
    exact (getElem?_setHanded hhand _ _).trans (if_pos rfl)
  | complete index event result free =>
    simp only [Room, not_forall, Bool.not_eq_false] at hroom
    obtain ⟨handed, hhand, hdrops, hthrows⟩ := hroom
    cases move_of_step hstep with
    | moves hfound hmoved =>
      obtain rfl := Option.some.inj (hhand.symm.trans hfound)
      obtain ⟨-, hnotify⟩ := Option.ite_none_right_eq_some.mp hmoved
      cases hnotify
      refine ⟨index, has_iff.mpr ⟨_, (getElem?_setHanded hfound _ _).trans (if_pos rfl), ?_⟩⟩
      unfold Handed.notify
      rw [if_pos hdrops]
      exact Handed.failed_close_of_throws hthrows
  | timeout index free =>
    simp only [Room, not_forall, Bool.not_eq_true] at hroom
    obtain ⟨hclient, hfull⟩ := hroom
    cases move_of_step hstep with
    | @moves _ handed _ hfound hmoved =>
      obtain ⟨-, htimeout⟩ := Option.ite_none_right_eq_some.mp hmoved
      cases htimeout
      refine ⟨index, has_iff.mpr ⟨_, (getElem?_setHanded hfound _ _).trans (if_pos rfl), ?_⟩⟩
      change (decide (handed.channel.kind = .client) && !free) = true
      rw [(hsound.sane_of_getElem? hfound).kind, decide_eq_true hclient, hfull]
      rfl
  | accept | connect | issue | error | keepAlive | close | resume | finish | closed =>
    exact absurd trivial hroom

/-- What is handed over behind a `close` is dropped. -/
theorem refused_of_not_admitted (hadmitted : ¬owner.Admitted action)
    (hstep : owner.step action = some next) : ∃ (index : ℕ) (handed : Handed),
      next.handed[index]? = some handed ∧ handed.accepting = none := by
  cases action with
  | accept =>
    have hactive : ¬owner.active = true := hadmitted
    obtain ⟨-, haccept⟩ := Option.ite_none_right_eq_some.mp hstep
    cases haccept
    unfold ReactiveOwner.accept
    rw [if_neg hactive]
    exact ⟨owner.handed.length, .create owner.kind false, getElem?_concat_length, rfl⟩
  | connect pool =>
    obtain ⟨hpool, hactive⟩ := not_or.mp hadmitted
    obtain ⟨-, hconnect⟩ := Option.ite_none_right_eq_some.mp hstep
    cases hconnect
    obtain ⟨fewer, rfl⟩ := Nat.exists_eq_succ_of_ne_zero hpool
    unfold ReactiveOwner.connect
    rw [if_neg hactive, Function.iterate_succ_apply']
    exact ⟨_, .create (refuse^[fewer] owner).kind false, getElem?_concat_length, rfl⟩
  | issue | complete | error | keepAlive | close | advance | timeout | resume | finish | closed =>
    exact absurd trivial hadmitted

/-- A step of a run that broke the condition leaves a trace at its end. -/
theorem along_of_end {cond : ReactiveOwner → OwnerAction → Prop} (bad : Handed → Prop)
    (hbad : ∀ handed later, Handed.Later handed later → bad handed → bad later)
    (hbreak : ∀ state action next, Sound state → ¬cond state action →
      state.step action = some next →
      ∃ (index : ℕ) (handed : Handed), next.handed[index]? = some handed ∧ bad handed)
    (hrun : run step (create kind graceful) actions = some owner)
    (hend : ∀ handed ∈ owner.handed, ¬bad handed) :
    Along step cond (create kind graceful) actions := by
  by_contra hnot
  obtain ⟨front, action, back, state, rfl, -, hfront, hcond⟩ := exists_of_not_along hnot
  rw [run_append_of_run hfront] at hrun
  obtain ⟨next, hstep, hback⟩ := run_cons_eq_some.mp hrun
  have hstate := sound_of_run hfront
  obtain ⟨index, handed, hhand, hbroken⟩ := hbreak state action next hstate hcond hstep
  obtain ⟨later, hlater, hgoes⟩ := kept_run (hstate.step hstep) hback index handed hhand
  exact hend later (mem_of_getElem? hlater) (hbad handed later hgoes hbroken)

/-! ## The `close` of an owner -/

/-- What is open does not finish. -/
theorem Sound.not_refused (hsound : Sound owner) (hmem : handed ∈ owner.handed)
    (hfin : handed.finished = true) : handed.accepting ≠ none := by
  have hsane := hsound.sane handed hmem
  refine hsane.made_of_closing (hsane.closing_of_stage ?_)
  rw [hsane.finished hfin]
  exact fun hstage => by cases hstage

/-- Where each connection has a teardown and none has thrown, nothing is open in the end. -/
theorem nothingOpen_of_begun (hsound : Sound owner) (hintact : Intact owner) (hmade : AllMade owner)
    (hresting : Resting owner) (hbegun : ∀ index, owner.Made index → index ∈ owner.begun) :
    NothingOpen owner := by
  -- A teardown that has begun is reported, since none of them throws.
  have hreports {index : ℕ} (hidx : owner.Made index) : index ∈ owner.reports := by
    obtain ⟨teardown, htear, rfl⟩ := mem_map.mp (hbegun index hidx)
    have hreported := (hresting.settled _ teardown htear rfl).resolve_right
      (hintact.not_thrown hsound htear)
    exact hsound.mem_reports_iff.mpr ⟨teardown, htear, rfl, hreported⟩
  constructor
  · refine eq_nil_iff_forall_not_mem.mpr fun connection hconn => ?_
    obtain ⟨hidx, hnot⟩ := (hsound.live connection).mp hconn
    exact hnot (hreports hidx)
  · intro handed hhand
    obtain ⟨index, hget⟩ := getElem?_of_mem hhand
    obtain ⟨teardown, htear, hconn, hphase⟩ :=
      hsound.mem_reports_iff.mp (hreports (hmade.made hget))
    obtain ⟨found, hfound, hclosing⟩ :=
      has_iff.mp (hsound.entered teardown htear (by rw [hphase]; rfl))
    rw [hconn, hget] at hfound
    cases hfound
    refine (hresting.finished handed hhand hclosing).resolve_right fun hfailed => ?_
    rw [hintact handed hhand] at hfailed
    cases hfailed

theorem admitted_of_early (hsound : Sound owner) (h : owner.Early action) :
    owner.Admitted action := by
  have hactive (hnil : owner.closings = []) : owner.active = true := by
    by_contra hnot
    obtain ⟨positions, hpositions, -⟩ := hsound.inactive (Bool.eq_false_iff.mpr hnot)
    rw [hnil] at hpositions
    cases hpositions
  cases action with
  | accept => exact hactive h
  | connect pool => exact h.imp id hactive
  | issue | complete | error | keepAlive | close | advance | timeout | resume | finish | closed =>
    trivial

theorem early_of_run (halong : Along step Early (create kind graceful) actions)
    (hrun : run step (create kind graceful) actions = some owner) : Guarded owner ∧ AllMade owner :=
  (run_induction (fun _ owner => Sound owner ∧ Guarded owner ∧ AllMade owner)
    (fun _ _ _ _ h hearly hstep => ⟨h.1.step hstep, h.2.1.step h.1 hearly hstep,
      h.2.2.step h.1 (admitted_of_early h.1 hearly) hstep⟩)
    ⟨sound_create kind graceful, guarded_of_nil rfl, fun _ h => by cases h⟩ halong hrun).2

/-- A connection that is not in `_connections` has a transport connection that closes. -/
theorem Sound.closing_of_not_mem (hsound : Sound owner) (hmade : owner.Made index)
    (hgone : index ∉ owner.connections) : index ∈ owner.begun ∧ owner.Closing index := by
  have hreport : index ∈ owner.reports := by
    by_contra hnot
    exact hgone ((hsound.live index).mpr ⟨hmade, hnot⟩)
  obtain ⟨teardown, htear, heq, hphase⟩ := hsound.mem_reports_iff.mp hreport
  exact ⟨mem_map.mpr ⟨teardown, htear, heq⟩,
    heq ▸ hsound.entered teardown htear (by rw [hphase]; rfl)⟩

theorem NothingOpen.room (h : NothingOpen owner)
    (hrun : run step (create kind graceful) actions = some owner) :
    Along step Room (create kind graceful) actions := by
  have hsound := sound_of_run hrun
  refine along_of_end (fun handed => handed.failed = true)
    (fun _ _ hlater hfailed => hlater.failed hfailed)
    (fun state action next hstate hroom hstep => ?_) hrun fun handed hhand hfailed => ?_
  · obtain ⟨index, hidx⟩ := failed_of_not_room hstate hroom hstep
    obtain ⟨handed, hhand, hfailed⟩ := has_iff.mp hidx
    exact ⟨index, handed, hhand, hfailed⟩
  · rw [(hsound.sane handed hhand).not_failed (h.finished handed hhand)] at hfailed
    cases hfailed

theorem NothingOpen.admitted (h : NothingOpen owner)
    (hrun : run step (create kind graceful) actions = some owner) :
    Along step Admitted (create kind graceful) actions := by
  have hsound := sound_of_run hrun
  refine along_of_end (fun handed => handed.accepting = none)
    (fun _ _ hlater hnone => hlater.none_of_eq_none hnone)
    (fun state action next hstate hadmitted hstep => refused_of_not_admitted hadmitted hstep) hrun
    fun handed hhand => hsound.not_refused hhand (h.finished handed hhand)

theorem NothingOpen.begun (h : NothingOpen owner) (hsound : Sound owner)
    (hmade : owner.Made index) : index ∈ owner.begun :=
  (hsound.closing_of_not_mem hmade fun hlive => by rw [h.connections] at hlive; cases hlive).1

/-- Behind `close` nothing that was handed over stays open: where nothing comes from the call of
`close` on, `_connections` is empty and every transport connection closes; and when all is at rest,
nothing is open just where nothing came behind `close`, each connection has a teardown (who came
while `close` waited, one of its own) and the ring had room for every cancel. -/
theorem nothingOpen_of_run (hrun : run step (create kind graceful) actions = some owner)
    (hclosed : owner.active = false) :
    (Along step Early (create kind graceful) actions →
      owner.connections = [] ∧ ∀ index < owner.handed.length, owner.Closing index) ∧
    (Resting owner → (NothingOpen owner ↔
      Along step Admitted (create kind graceful) actions ∧
        (∀ index, owner.Made index → index ∈ owner.begun) ∧
          Along step Room (create kind graceful) actions)) := by
  have hsound := sound_of_run hrun
  constructor
  · intro hearly
    obtain ⟨hguarded, hmade⟩ := early_of_run hearly hrun
    have hempty := hguarded.connections_eq_nil hsound hclosed
    refine ⟨hempty, fun index hindex => ?_⟩
    have hmem : index ∉ owner.connections := fun hlive => by rw [hempty] at hlive; cases hlive
    exact (hsound.closing_of_not_mem (hmade.made (List.getElem?_eq_getElem hindex)) hmem).2
  · intro hresting
    constructor
    · intro hnothing
      exact ⟨hnothing.admitted hrun, fun index hmade => hnothing.begun hsound hmade,
        hnothing.room hrun⟩
    · rintro ⟨hadmitted, hbegun, hroom⟩
      exact nothingOpen_of_begun hsound (intact_of_run hroom hrun) (allMade_of_run hadmitted hrun)
        hresting hbegun

/-- A server with one connection. -/
theorem nothingOpen_of_run_accepted :
    ∃ owner, run step (create .serverConnection false) [.accept, .close, .advance 0 true,
      .advance 0 true, .finish 0, .advance 0 true, .advance 0 true, .closed 0] = some owner ∧
      owner.active = false ∧ owner.connections = [] := by
  have hearly : Along step Early (create .serverConnection false) [.accept, .close, .advance 0 true,
      .advance 0 true, .finish 0, .advance 0 true, .advance 0 true, .closed 0] := by decide
  have hclosed (owner : ReactiveOwner) (hrun : run step (create .serverConnection false) [.accept,
      .close, .advance 0 true, .advance 0 true, .finish 0, .advance 0 true, .advance 0 true,
      .closed 0] = some owner) (hactive : owner.active = false) : owner.connections = [] :=
    ((nothingOpen_of_run hrun hactive).1 hearly).1
  exact ⟨_, rfl, rfl, hclosed _ rfl rfl⟩

/-- A pool that comes while `close` waits is not closed, and the next one is dropped. -/
theorem not_nothingOpen : ¬∀ owner, Reachable step (create .client false) owner →
    owner.active = false → Resting owner → NothingOpen owner := by
  intro h
  have hnothing :=
    h _ ⟨[.connect 1, .close, .connect 1, .advance 0 true, .advance 0 true, .finish 0,
    .advance 0 true, .advance 0 true, .closed 0, .connect 1], rfl⟩ rfl
    ⟨fun connection teardown hteardown _ => ?_, ?_⟩
  · exact absurd hnothing.connections (by decide)
  · obtain rfl := List.mem_singleton.mp hteardown
    exact .inl rfl
  · decide

end FengShui.Reactive.ReactiveOwner
