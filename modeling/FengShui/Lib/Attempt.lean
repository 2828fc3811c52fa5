import Mathlib.Logic.Basic

/-!
# Computations that may not end

An `Attempt` may throw, keeps what it did to the state until then, and has no result where it is not
over. A recursion without a measure is one with fuel, which is `running` without any. `Ends` says
that an attempt is over from every state, and `Avoids` that it never throws some exception. The
rules follow the computation, as those of `Effect` do.
-/

namespace FengShui.Lib

/-- A computation that may throw, and may not end. -/
def Attempt (ε σ α : Type) : Type := σ → Option (EStateM.Result ε σ α)

namespace Attempt

variable {ε σ α β : Type}

instance : Monad (Attempt ε σ) where
  pure a := fun state => some (.ok a state)
  bind m f := fun state =>
    match m state with
    | none => none
    | some (.ok a next) => f a next
    | some (.error e next) => some (.error e next)

instance : LawfulMonad (Attempt ε σ) := by
  refine LawfulMonad.mk' (Attempt ε σ) ?_ (fun a f => rfl) ?_
  · intro α m
    funext state
    show (match m state with
      | none => none
      | some (.ok a next) => some (.ok a next)
      | some (.error e next) => some (.error e next)) = m state
    rcases m state with _ | ⟨a, next⟩ | ⟨e, next⟩ <;> rfl
  · intro α β γ m f g
    funext state
    show (match (match m state with
        | none => none
        | some (.ok a next) => f a next
        | some (.error e next) => some (.error e next)) with
      | none => none
      | some (.ok a next) => g a next
      | some (.error e next) => some (.error e next)) = (match m state with
        | none => none
        | some (.ok a next) => (f a >>= g) next
        | some (.error e next) => some (.error e next))
    rcases m state with _ | ⟨a, next⟩ | ⟨e, next⟩ <;> rfl

/-- A computation that is not over. -/
def running : Attempt ε σ α := fun _ => none

def raise (e : ε) : Attempt ε σ α := fun state => some (.error e state)

/-- A computation that ends. -/
def lift (m : EStateM ε σ α) : Attempt ε σ α := fun state => some (m state)

/-- What a computation without a state returns or throws. -/
def ofExcept : Except ε α → Attempt ε σ α
  | .ok a => pure a
  | .error e => raise e

/-- The computation is over, from every state. -/
def Ends (m : Attempt ε σ α) : Prop := ∀ state, ∃ result, m state = some result

/-- The computation never throws this exception. -/
def Avoids (e : ε) (m : Attempt ε σ α) : Prop := ∀ state next, m state ≠ some (.error e next)

variable {m : Attempt ε σ α} {f : α → Attempt ε σ β} {e : ε}

/-- Two computations in sequence, lifted. -/
theorem lift_bind (m : EStateM ε σ α) (f : α → EStateM ε σ β) :
    lift (m >>= f) = lift m >>= fun a => lift (f a) := by
  funext state
  show some (EStateM.bind m f state) = _
  unfold EStateM.bind
  show _ = match some (m state) with
    | none => none
    | some (.ok a next) => lift (f a) next
    | some (.error e next) => some (.error e next)
  cases m state with
  | ok a next => rfl
  | error e next => rfl

/-! ### Ends -/

/-- A value is there at once. -/
theorem ends_pure (a : α) : Ends (pure a : Attempt ε σ α) := fun state => ⟨.ok a state, rfl⟩

/-- So is an error. -/
theorem ends_raise (e : ε) : Ends (raise e : Attempt ε σ α) := fun state => ⟨.error e state, rfl⟩

/-- What needs no fuel ends. -/
theorem ends_lift (m : EStateM ε σ α) : Ends (lift m) := fun state => ⟨m state, rfl⟩

/-- A result that is there already. -/
theorem ends_ofExcept (result : Except ε α) : Ends (ofExcept result : Attempt ε σ α) := by
  cases result with
  | ok a => exact ends_pure a
  | error e => exact ends_raise e

/-- A sequence ends if both parts do. -/
theorem Ends.bind (hm : Ends m) (hf : ∀ a, Ends (f a)) : Ends (m >>= f) := by
  intro state
  obtain ⟨result, hres⟩ := hm state
  show ∃ last, (match m state with
    | none => none
    | some (.ok a next) => f a next
    | some (.error e next) => some (.error e next)) = some last
  rw [hres]
  cases result with
  | ok a next => exact hf a next
  | error e next => exact ⟨.error e next, rfl⟩

variable {body : β → α → Attempt ε σ β}

/-- A loop whose rounds all end. -/
theorem ends_foldlM (items : List α)
    (h : ∀ item ∈ items, ∀ accumulator, Ends (body accumulator item)) (start : β) :
    Ends (items.foldlM body start) := by
  induction items generalizing start with
  | nil => exact ends_pure start
  | cons item items ih =>
    have hfirst := h item List.mem_cons_self start
    apply hfirst.bind
    intro next
    exact ih (fun other hmem => h other (List.mem_cons_of_mem item hmem)) next

/-! ### Avoids -/

/-- A value is no error. -/
theorem avoids_pure (a : α) : Avoids e (pure a : Attempt ε σ α) := nofun

/-- What does not end raises nothing. -/
theorem avoids_running : Avoids e (running : Attempt ε σ α) := nofun

/-- Another error is raised. -/
theorem avoids_raise {other : ε} (h : other ≠ e) : Avoids e (raise other : Attempt ε σ α) := by
  intro state next heq
  injection heq with heq
  injection heq with hother
  exact h hother

/-- A result other than the error. -/
theorem avoids_ofExcept {result : Except ε α} (h : result ≠ .error e) :
    Avoids e (ofExcept result : Attempt ε σ α) := by
  cases result with
  | ok a => exact avoids_pure a
  | error other => exact avoids_raise fun heq => h (congrArg Except.error heq)

/-- What needs no fuel, by its own results. -/
theorem avoids_lift {m : EStateM ε σ α} (h : ∀ state next, m state ≠ .error e next) :
    Avoids e (lift m) := fun state next heq => h state next (Option.some.inj heq)

/-- A sequence avoids what both parts avoid. -/
theorem Avoids.bind (hm : Avoids e m) (hf : ∀ a, Avoids e (f a)) : Avoids e (m >>= f) := by
  intro state next
  show (match m state with
    | none => none
    | some (.ok a next) => f a next
    | some (.error e next) => some (.error e next)) ≠ some (.error e next)
  cases hres : m state with
  | none => exact nofun
  | some result =>
    cases result with
    | ok a middle => exact hf a middle next
    | error other middle =>
      intro heq
      obtain ⟨rfl, -⟩ := EStateM.Result.error.inj (Option.some.inj heq)
      exact hm state middle hres

/-- So does a fold, by induction over the items. -/
theorem avoids_foldlM (h : ∀ accumulator item, Avoids e (body accumulator item)) (items : List α)
    (start : β) : Avoids e (items.foldlM body start) := by
  induction items generalizing start with
  | nil => exact avoids_pure start
  | cons item items ih =>
    apply (h start item).bind
    intro next
    exact ih next

end Attempt

end FengShui.Lib
