import Mathlib.Logic.Relation
import Mathlib.Data.Nat.Notation
import Mathlib.Tactic.ByContra
import Mathlib.Tactic.SplitIfs

/-!
# Runs of a partial step function

A transition system is a function `step : σ → α → Option σ`, which is `none` where the action is
not enabled. A run is a list of actions. `run_induction` is the one induction on runs: a property of
the actions so far and the state they lead to, which every step that meets a condition extends,
holds at the end of every run whose steps meet that condition. `run_invariant` is its case without
history and condition.
-/

namespace FengShui.Transition

variable {α σ : Type}

section Run

variable (step : σ → α → Option σ)

/-- The state after a list of actions. -/
def run (state : σ) (actions : List α) : Option σ := actions.foldlM step state

/-- Every step of the run meets the condition, which sees the state before the step. -/
def Along (cond : σ → α → Prop) : σ → List α → Prop
  | _, [] => True
  | state, action :: actions =>
    cond state action ∧ ∀ next, step state action = some next → Along cond next actions

/-- Some run leads from the one state to the other. -/
def Reachable (start state : σ) : Prop := ∃ actions, run step start actions = some state

end Run

variable {step : σ → α → Option σ} {cond : σ → α → Prop}

@[simp]
theorem run_nil (state : σ) : run step state [] = some state := rfl

@[simp]
theorem run_cons (state : σ) (action : α) (actions : List α) :
    run step state (action :: actions) = (step state action).bind (run step · actions) := rfl

theorem run_append (state : σ) (front back : List α) :
    run step state (front ++ back) = (run step state front).bind (run step · back) :=
  List.foldlM_append

variable {start state : σ} {front actions back : List α} {action : α} {good : σ → Prop}
  {cond' : σ → α → Prop}

/-- A run that goes through `middle`. -/
theorem run_append_of_run {middle : σ} (h : run step start front = some middle) (back : List α) :
    run step start (front ++ back) = run step middle back := by
  rw [run_append, h, Option.bind_some]

/-- A nonempty run is a step and a run. -/
theorem run_cons_eq_some :
    run step start (action :: actions) = some state ↔
      ∃ next, step start action = some next ∧ run step next actions = some state := by
  rw [run_cons, Option.bind_eq_some_iff]

theorem along_cons :
    Along step cond start (action :: actions) ↔
      cond start action ∧ ∀ next, step start action = some next → Along step cond next actions :=
  Iff.rfl

theorem along_cons_of_step {next : σ} (h : step start action = some next) :
    Along step cond start (action :: actions) ↔
      cond start action ∧ Along step cond next actions := by
  rw [along_cons, h]
  exact and_congr_right fun _ => ⟨fun halong => halong next rfl,
    fun halong _ hnext => Option.some.inj hnext ▸ halong⟩

theorem along_cons_of_stuck (h : step start action = none) :
    Along step cond start (action :: actions) ↔ cond start action := by
  rw [along_cons, h]
  exact and_iff_left nofun

/-- The steps of the front of a run meet the condition as well. -/
theorem along_append (h : Along step cond start (front ++ back)) : Along step cond start front := by
  induction front generalizing start with
  | nil => trivial
  | cons action front ih => exact ⟨h.1, fun next hnext => ih (h.2 next hnext)⟩

/-- So do the steps behind it. -/
theorem along_behind {middle : σ} (h : Along step cond start (front ++ back))
    (hfront : run step start front = some middle) : Along step cond middle back := by
  induction front generalizing start with
  | nil =>
    obtain rfl : start = middle := Option.some.inj hfront
    exact h
  | cons action front ih =>
    obtain ⟨next, hnext, hrest⟩ := run_cons_eq_some.mp hfront
    exact ih (h.2 next hnext) hrest

/-- Where a run does not meet a condition throughout, there is a first step that does not. -/
theorem exists_of_not_along (h : ¬Along step cond start actions) :
    ∃ front action back state, actions = front ++ action :: back ∧
      Along step cond start front ∧ run step start front = some state ∧ ¬cond state action := by
  induction actions generalizing start with
  | nil => exact absurd trivial h
  | cons action actions ih =>
    by_cases hfirst : cond start action
    · rw [along_cons] at h
      obtain ⟨next, hnext, hrest⟩ : ∃ next, step start action = some next ∧
          ¬Along step cond next actions := by
        by_contra hnone
        exact h ⟨hfirst, fun next hnext => by_contra fun hrest => hnone ⟨next, hnext, hrest⟩⟩
      obtain ⟨front, first, back, state, rfl, halong, hrun, hcond⟩ := ih hrest
      exact ⟨action :: front, first, back, state, rfl,
        (along_cons_of_step hnext).mpr ⟨hfirst, halong⟩,
        run_cons_eq_some.mpr ⟨next, hnext, hrun⟩, hcond⟩
    · exact ⟨[], action, actions, start, rfl, trivial, rfl, hfirst⟩

/-- A step in the middle of a run meets the condition. -/
theorem Along.at_step (h : Along step cond start (front ++ action :: back))
    (hrun : run step start front = some state) : cond state action := by
  induction front generalizing start with
  | nil =>
    obtain rfl : start = state := Option.some.inj hrun
    exact h.1
  | cons first front ih =>
    obtain ⟨next, hnext, hrun⟩ := run_cons_eq_some.mp hrun
    exact ih (h.2 next hnext) hrun

/-- A run goes on from its middle by a step. -/
theorem exists_step_of_run {last : σ}
    (hrun : run step start (front ++ action :: back) = some last)
    (hfront : run step start front = some state) : ∃ next, step state action = some next := by
  rw [run_append_of_run hfront] at hrun
  obtain ⟨next, hnext, -⟩ := run_cons_eq_some.mp hrun
  exact ⟨next, hnext⟩

/-- A step at the end of a run. -/
theorem run_concat {next : σ} (hrun : run step start actions = some state)
    (hstep : step state action = some next) : run step start (actions ++ [action]) = some next := by
  rw [run_append_of_run hrun, run_cons, hstep]
  rfl

/-- Where an invariant makes a state good, the steps that meet a condition keep it, and the others
are not taken or lead to a state that is not good, the condition holds along a run if and only if
every front of the run leads to a good state. -/
theorem along_iff_good_fronts {assume : σ → α → Prop} (Inv : σ → Prop)
    (hgood : ∀ state, Inv state → good state)
    (hstep : ∀ state action, Inv state → assume state action → cond state action →
      ∃ next, step state action = some next ∧ Inv next)
    (hbreaks : ∀ state action, Inv state → assume state action → ¬cond state action →
      ∀ next, step state action = some next → ¬good next) (hstart : Inv start) (actions : List α)
    (hassume : Along step assume start actions) :
    Along step cond start actions ↔ ∀ front back, actions = front ++ back →
      ∃ state, run step start front = some state ∧ good state := by
  induction actions generalizing start with
  | nil =>
    refine ⟨fun _ front back h => ?_, fun _ => trivial⟩
    obtain ⟨rfl, -⟩ := List.append_eq_nil_iff.mp h.symm
    exact ⟨start, rfl, hgood start hstart⟩
  | cons action actions ih =>
    constructor
    · rintro ⟨hcond, hrest⟩ front back h
      obtain ⟨next, hnext, hinv⟩ := hstep start action hstart hassume.1 hcond
      cases front with
      | nil => exact ⟨start, rfl, hgood start hstart⟩
      | cons first front =>
        obtain ⟨rfl, rfl⟩ := List.cons.inj h
        obtain ⟨state, hrun, hstate⟩ :=
          (ih hinv (hassume.2 next hnext)).mp (hrest next hnext) front back rfl
        exact ⟨state, run_cons_eq_some.mpr ⟨next, hnext, hrun⟩, hstate⟩
    · intro hfronts
      obtain ⟨first, hrun, hfirst⟩ := hfronts [action] actions rfl
      have htaken : step start action = some first := by
        obtain ⟨next, hnext, hnil⟩ := run_cons_eq_some.mp hrun
        rwa [← Option.some.inj hnil]
      have hcond : cond start action := by
        by_contra hcond
        exact hbreaks start action hstart hassume.1 hcond first htaken hfirst
      refine ⟨hcond, fun next hnext => ?_⟩
      obtain rfl : first = next := Option.some.inj (htaken.symm.trans hnext)
      obtain ⟨after, hafter, hinv⟩ := hstep start action hstart hassume.1 hcond
      obtain rfl : first = after := Option.some.inj (htaken.symm.trans hafter)
      refine (ih hinv (hassume.2 first hnext)).mpr fun front back h => ?_
      obtain ⟨state, hstate, hgood'⟩ := hfronts (action :: front) back (by rw [h]; rfl)
      obtain ⟨middle, hmid, hrest⟩ := run_cons_eq_some.mp hstate
      obtain rfl : first = middle := Option.some.inj (htaken.symm.trans hmid)
      exact ⟨state, hrest, hgood'⟩

theorem along_true (start : σ) (actions : List α) : Along step (fun _ _ => True) start actions := by
  induction actions generalizing start with
  | nil => trivial
  | cons action actions ih =>
    rw [along_cons]
    exact ⟨trivial, fun next _ => ih next⟩

/-- The same where the condition says of every step from a good state that it is taken and leads to
a good state. -/
theorem along_iff_fronts
    (hstep : ∀ state action, good state →
      (cond state action ↔ ∃ next, step state action = some next ∧ good next))
    (hstart : good start) (actions : List α) :
    Along step cond start actions ↔ ∀ front back, actions = front ++ back →
      ∃ state, run step start front = some state ∧ good state := by
  apply along_iff_good_fronts good (fun _ => id) _ _ hstart actions (along_true start actions)
  · intro state action hstate _ hcond
    exact (hstep state action hstate).mp hcond
  · intro state action hstate _ hcond next hnext hgood
    exact hcond ((hstep state action hstate).mpr ⟨next, hnext, hgood⟩)

instance decidableAlong [∀ state action, Decidable (cond state action)] :
    ∀ (start : σ) (actions : List α), Decidable (Along step cond start actions)
  | _, [] => .isTrue trivial
  | start, action :: actions =>
    match h : step start action with
    | none => decidable_of_iff _ (along_cons_of_stuck h).symm
    | some next =>
      have := decidableAlong next actions
      decidable_of_iff _ (along_cons_of_step h).symm

theorem run_induction_from (Inv : List α → σ → Prop)
    (hstep : ∀ history state action next, Inv history state → cond state action →
      step state action = some next → Inv (history ++ [action]) next) (history actions : List α)
    (hstart : Inv history start) (halong : Along step cond start actions)
    (hrun : run step start actions = some state) : Inv (history ++ actions) state := by
  induction actions generalizing history start with
  | nil =>
    obtain rfl : start = state := Option.some.inj hrun
    rwa [List.append_nil]
  | cons action actions ih =>
    obtain ⟨next, hnext, hrun⟩ := run_cons_eq_some.mp hrun
    rw [along_cons] at halong
    have hinv := ih _ (hstep history start action next hstart halong.1 hnext) (halong.2 next hnext)
      hrun
    rwa [List.append_assoc] at hinv

/-- What holds of the actions so far and the state, and is extended by every step that meets the
condition, holds at the end of a run whose steps meet it. -/
theorem run_induction (Inv : List α → σ → Prop)
    (hstep : ∀ history state action next, Inv history state → cond state action →
      step state action = some next → Inv (history ++ [action]) next) (hstart : Inv [] start)
    (halong : Along step cond start actions) (hrun : run step start actions = some state) :
    Inv actions state := run_induction_from Inv hstep [] actions hstart halong hrun

/-- A condition on the actions alone. -/
theorem along_of_forall (h : ∀ action ∈ actions, ∀ state, cond state action) :
    Along step cond start actions := by
  induction actions generalizing start with
  | nil => trivial
  | cons action actions ih =>
    rw [along_cons]
    exact ⟨h action List.mem_cons_self start,
      fun next _ => ih fun other hmem => h other (List.mem_cons_of_mem action hmem)⟩

theorem along_and (h : Along step cond start actions) (h' : Along step cond' start actions) :
    Along step (fun state action => cond state action ∧ cond' state action) start actions := by
  induction actions generalizing start with
  | nil => trivial
  | cons action actions ih =>
    rw [along_cons] at h h' ⊢
    exact ⟨⟨h.1, h'.1⟩, fun next hnext => ih (h.2 next hnext) (h'.2 next hnext)⟩

/-- Conditions that agree where an invariant holds. -/
theorem along_iff_of_invariant (Inv : σ → Prop)
    (hstep : ∀ state action next, Inv state → step state action = some next → Inv next)
    (hcond : ∀ state action, Inv state → (cond state action ↔ cond' state action))
    (hstart : Inv start) : Along step cond start actions ↔ Along step cond' start actions := by
  induction actions generalizing start with
  | nil => exact Iff.rfl
  | cons action actions ih =>
    rw [along_cons, along_cons, hcond start action hstart]
    exact and_congr_right fun _ => forall₂_congr fun next hnext =>
      ih (hstep start action next hstart hnext)

/-- A condition gives another one where an invariant holds, which the steps that meet it
preserve. -/
theorem Along.of_invariant (Inv : σ → Prop)
    (hstep : ∀ state action next, Inv state → cond state action → step state action = some next →
    Inv next) (hcond : ∀ state action, Inv state → cond state action → cond' state action)
    (hstart : Inv start) (halong : Along step cond start actions) :
    Along step cond' start actions := by
  induction actions generalizing start with
  | nil => trivial
  | cons action actions ih =>
    rw [along_cons] at halong ⊢
    exact ⟨hcond start action hstart halong.1, fun next hnext =>
      ih (hstep start action next hstart halong.1 hnext) (halong.2 next hnext)⟩

/-- What every step preserves holds at the end of a run. -/
theorem run_invariant (Inv : σ → Prop)
    (hstep : ∀ state action next, Inv state → step state action = some next → Inv next)
    (hstart : Inv start) (hrun : run step start actions = some state) : Inv state :=
  run_induction (fun _ => Inv) (fun _ state action next hinv _ => hstep state action next hinv)
    hstart (along_true start actions) hrun

/-- The property holds in every state that a front of the run leads to. -/
def Throughout (step : σ → α → Option σ) (good : σ → Prop) (start : σ) (actions : List α) : Prop :=
  ∀ front back state, actions = front ++ back → run step start front = some state → good state

/-- A condition that keeps an invariant, and whose first failure is seen in the state behind it. -/
theorem throughout_iff (Inv : σ → Prop) (hgood : ∀ state, Inv state → good state)
    (hstep : ∀ state action next, Inv state → cond state action → step state action = some next →
    Inv next)
    (hbreaks : ∀ state action next, Inv state → ¬cond state action → step state action = some next →
      ¬good next) {last : σ} (hstart : Inv start) (hrun : run step start actions = some last) :
    Throughout step good start actions ↔ Along step cond start actions := by
  have hinv {front : List α} {state : σ} (halong : Along step cond start front)
      (hfront : run step start front = some state) : Inv state :=
    run_induction (fun _ => Inv) (fun _ state action next => hstep state action next) hstart
      halong hfront
  constructor
  · intro hthroughout
    by_contra halong
    obtain ⟨front, action, back, state, rfl, hbefore, hfront, hcond⟩ := exists_of_not_along halong
    obtain ⟨next, hnext⟩ := exists_step_of_run hrun hfront
    apply hbreaks state action next (hinv hbefore hfront) hcond hnext
    exact hthroughout (front ++ [action]) back next (by simp) (run_concat hfront hnext)
  · rintro halong front back state rfl hfront
    exact hgood state (hinv (along_append halong) hfront)

namespace Reachable

theorem refl (start : σ) : Reachable step start start := ⟨[], rfl⟩

variable {start state : σ}

theorem tail {next : σ} {action : α} (h : Reachable step start state)
    (hstep : step state action = some next) : Reachable step start next := by
  obtain ⟨actions, hrun⟩ := h
  refine ⟨actions ++ [action], ?_⟩
  rw [run_append_of_run hrun, run_cons, hstep]
  rfl

theorem trans {middle : σ} (h : Reachable step start middle) (h' : Reachable step middle state) :
    Reachable step start state := by
  obtain ⟨front, hfront⟩ := h
  obtain ⟨back, hback⟩ := h'
  exact ⟨front ++ back, (run_append_of_run hfront back).trans hback⟩

theorem single {next : σ} {action : α} (h : step state action = some next) :
    Reachable step state next := (refl state).tail h

theorem invariant (Inv : σ → Prop) (h : Reachable step start state) (hstart : Inv start)
    (hstep : ∀ state action next, Inv state → step state action = some next → Inv next) :
    Inv state := by
  obtain ⟨actions, hrun⟩ := h
  exact run_invariant Inv hstep hstart hrun

end Reachable

/-! ## Steps of the places of a list -/

section Places

variable {items : List α} {item last : α} {index place : ℕ}

theorem getElem?_concat_eq_some :
    (items ++ [last])[index]? = some item ↔
      items[index]? = some item ∨ index = items.length ∧ item = last := by
  rw [List.getElem?_append]
  split_ifs with hlt
  · have hne : index ≠ items.length := Nat.ne_of_lt hlt
    simp [hne]
  · have hnone : items[index]? = none := List.getElem?_eq_none (Nat.le_of_not_lt hlt)
    rw [List.getElem?_singleton, hnone]
    split_ifs with hzero
    · have heq : index = items.length := by omega
      simp [heq, eq_comm]
    · have hne : index ≠ items.length := by omega
      simp [hne]

theorem getElem?_modify_eq_some {update : α → α} :
    (items.modify place update)[index]? = some item ↔
      ∃ old, items[index]? = some old ∧ item = if place = index then update old else old := by
  rw [List.getElem?_modify, Option.map_eq_map, Option.map_eq_some_iff]
  exact exists_congr fun old => and_congr_right fun _ => eq_comm

end Places

end FengShui.Transition
