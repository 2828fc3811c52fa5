import Mathlib.Data.Nat.Notation

/-!
# Loops with fuel

A computation may fail, and its `while` loops have fuel for so many rounds; it has no result where
that is not enough. `Computes` says what it comes to with enough fuel. The rules follow the
computation, and a loop comes to every solution of its equation for which the rounds have a measure
(`Solves.computes`).
-/

namespace FengShui.While

/-- A computation on fuel that may fail. -/
abbrev Fueled (ε : Type) := ReaderT ℕ (ExceptT ε Option)

variable {ε σ α β : Type}

/-- The rounds of a loop: none is left where the fuel is 0. -/
def rounds (guard : σ → Prop) [DecidablePred guard] (body : σ → Except ε σ) :
    ℕ → σ → Option (Except ε σ)
  | 0, _ => none
  | fuel + 1, state =>
    if guard state then
      match body state with
      | .ok next => rounds guard body fuel next
      | .error e => some (.error e)
    else some (.ok state)

/-- `while (guard) body`. -/
def whileDo (guard : σ → Prop) [DecidablePred guard] (body : σ → Except ε σ) (state : σ) :
    Fueled ε σ := fun fuel => rounds guard body fuel state

/-- A computation without loops. -/
def exactly (result : Except ε α) : Fueled ε α := fun _ => some result

/-- With enough fuel the computation has this result. -/
def Computes (m : Fueled ε α) (result : Except ε α) : Prop :=
  ∃ enough, ∀ fuel, enough ≤ fuel → m fuel = some result

variable {m : Fueled ε α} {f : α → Fueled ε β} {result other : Except ε α}

theorem computes_exactly (result : Except ε α) : Computes (exactly result) result :=
  ⟨0, fun _ _ => rfl⟩

theorem computes_pure (a : α) : Computes (pure a : Fueled ε α) (.ok a) := ⟨0, fun _ _ => rfl⟩

theorem Computes.unique (h : Computes m result) (h' : Computes m other) : result = other := by
  obtain ⟨enough, hres⟩ := h
  obtain ⟨enough', hother⟩ := h'
  have hfuel := hres (max enough enough') (Nat.le_max_left _ _)
  have hfuel' := hother (max enough enough') (Nat.le_max_right _ _)
  exact Option.some.inj (hfuel.symm.trans hfuel')

theorem Computes.iff (h : Computes m result) : Computes m other ↔ result = other :=
  ⟨h.unique, fun heq => heq ▸ h⟩

theorem Computes.bind {g : α → Except ε β} (h : Computes m result)
    (hf : ∀ a, Computes (f a) (g a)) : Computes (m >>= f) (result >>= g) := by
  obtain ⟨enough, hm⟩ := h
  cases result with
  | error e =>
    refine ⟨enough, fun fuel hle => ?_⟩
    show ExceptT.bindCont (fun a => f a fuel) =<< m fuel = _
    rw [hm fuel hle]
    rfl
  | ok a =>
    obtain ⟨enough', hf⟩ := hf a
    refine ⟨max enough enough', fun fuel hle => ?_⟩
    show ExceptT.bindCont (fun a => f a fuel) =<< m fuel = _
    rw [hm fuel (Nat.le_trans (Nat.le_max_left _ _) hle)]
    exact hf fuel (Nat.le_trans (Nat.le_max_right _ _) hle)

/-- A function is what a loop comes to: nothing behind its guard, and the rest behind a round, of
which a measure is less. -/
structure Solves (guard : σ → Prop) (body : σ → Except ε σ) (measure : σ → ℕ)
    (closed : σ → Except ε σ) : Prop where
  exit : ∀ state, ¬guard state → closed state = .ok state
  round : ∀ state, guard state → body state >>= closed = closed state
  less : ∀ state next, guard state → body state = .ok next → measure next < measure state

section Solves

variable {guard : σ → Prop} [DecidablePred guard] {body closed : σ → Except ε σ} {measure : σ → ℕ}

/-- More rounds than the measure of the state are enough. -/
theorem Solves.rounds_eq (h : Solves guard body measure closed) {fuel : ℕ} {state : σ}
    (hfuel : measure state < fuel) : rounds guard body fuel state = some (closed state) := by
  induction fuel generalizing state with
  | zero => exact absurd hfuel (Nat.not_lt_zero _)
  | succ fuel ih =>
    unfold rounds
    by_cases hguard : guard state
    · rw [if_pos hguard, ← h.round state hguard]
      cases hbody : body state with
      | error e => rfl
      | ok next =>
        have hnext := h.less state next hguard hbody
        exact ih (by omega)
    · rw [if_neg hguard, h.exit state hguard]

/-- A loop comes to what solves its equation. -/
theorem Solves.computes (h : Solves guard body measure closed) (state : σ) :
    Computes (whileDo guard body state) (closed state) :=
  ⟨measure state + 1, fun _ hfuel => h.rounds_eq hfuel⟩

end Solves

end FengShui.While
