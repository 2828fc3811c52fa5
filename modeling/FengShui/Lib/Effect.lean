import Mathlib.Logic.Basic

/-!
# Relations that computations keep

A computation in `EStateM` that throws keeps what it did to the state until then. `Keeps R s m` says
that the state `s` and the one behind `m`, whether it returns or throws, are related by `R`. The
rules follow the computation: what a part keeps and what the rest keeps compose (`Keeps.bind`).

`Returns s m post` says that `m` does not throw, and what it returns. Its rules are equivalences, so
that rewriting with them leaves exactly the condition on `s` under which `m` returns. `Meets` also
says in which state `m` throws. Of a computation without a state `except_bind_eq_ok` says what it
returns.
-/

namespace FengShui

theorem except_bind_eq_ok {ε α β : Type} {x : Except ε α} {f : α → Except ε β} {b : β} :
    (x >>= f) = .ok b ↔ ∃ a, x = .ok a ∧ f a = .ok b := by
  cases x with
  | error e => exact ⟨nofun, fun ⟨_, h, _⟩ => (by cases h)⟩
  | ok a => exact ⟨fun h => ⟨a, rfl, h⟩, fun ⟨_, h, hf⟩ => Except.ok.inj h ▸ hf⟩

end FengShui

namespace FengShui.Effect

variable {ε σ α β : Type}

/-- The state behind a computation. -/
def stateOf : EStateM.Result ε σ α → σ
  | .ok _ state => state
  | .error _ state => state

@[simp]
theorem stateOf_ok (a : α) (state : σ) : stateOf (.ok a state : EStateM.Result ε σ α) = state := rfl

@[simp]
theorem stateOf_error (e : ε) (state : σ) :
    stateOf (.error e state : EStateM.Result ε σ α) = state := rfl

/-- The computation leads from the state to a related one. -/
def Keeps (R : σ → σ → Prop) (state : σ) (m : EStateM ε σ α) : Prop := R state (stateOf (m state))

variable {R S T : σ → σ → Prop} {state : σ} {m : EStateM ε σ α} {f : α → EStateM ε σ β}

theorem keeps_pure (h : R state state) (a : α) : Keeps R state (pure a : EStateM ε σ α) := h

theorem keeps_throw (h : R state state) (e : ε) : Keeps R state (throw e : EStateM ε σ α) := h

theorem keeps_modify {update : σ → σ} (h : R state (update state)) :
    Keeps R state (modify update : EStateM ε σ PUnit) := h

/-- A part of the computation, and the rest of it from the state behind that part on. -/
theorem Keeps.bind (hm : Keeps R state m)
    (hf : ∀ a next, R state next → m state = .ok a next → Keeps S next (f a))
    (hthrow : ∀ next, R state next → T state next)
    (hcomp : ∀ next last, R state next → S next last → T state last) : Keeps T state (m >>= f) := by
  unfold Keeps at *
  change T state (stateOf (EStateM.bind m f state))
  unfold EStateM.bind
  cases hres : m state with
  | ok a next =>
    rw [hres] at hm
    exact hcomp next _ hm (hf a next hm hres)
  | error e next =>
    rw [hres] at hm
    exact hthrow next hm

/-- The same relation throughout, when it is transitive. -/
theorem Keeps.bind_trans (htrans : ∀ s t u, R s t → R t u → R s u) (hm : Keeps R state m)
    (hf : ∀ a next, R state next → m state = .ok a next → Keeps R next (f a)) :
    Keeps R state (m >>= f) :=
  hm.bind hf (fun _ h => h) fun next last => htrans state next last

theorem get_bind_apply {f : σ → EStateM ε σ β} : (get >>= f) state = f state state := rfl

theorem keeps_get_bind {f : σ → EStateM ε σ β} (h : Keeps R state (f state)) :
    Keeps R state (get >>= f) := h

theorem keeps_modify_bind {update : σ → σ} {f : PUnit → EStateM ε σ β}
    (h : R state (stateOf (f ⟨⟩ (update state)))) : Keeps R state (modify update >>= f) := h

theorem keeps_modifyGet_bind {update : σ → α × σ} {f : α → EStateM ε σ β}
    (h : R state (stateOf (f (update state).1 (update state).2))) :
    Keeps R state (modifyGet update >>= f) := h

/-- A relation that every round of a loop keeps. -/
theorem keeps_forM (hrefl : ∀ s, R s s) (htrans : ∀ s t u, R s t → R t u → R s u)
    {body : α → EStateM ε σ PUnit} (h : ∀ a next, Keeps R next (body a)) (items : List α)
    (state : σ) : Keeps R state (items.forM body) := by
  induction items generalizing state with
  | nil => exact keeps_pure (hrefl state) _
  | cons item items ih =>
    rw [List.forM_eq_forM, List.forM_cons]
    exact (h item state).bind_trans htrans fun _ next _ _ => ih next

/-- The computation does not throw, and ends in this way. -/
def Returns (state : σ) (m : EStateM ε σ α) (post : α → σ → Prop) : Prop :=
  match m state with
  | .ok a next => post a next
  | .error _ _ => False

section Returns

variable {post : β → σ → Prop}

@[simp]
theorem returns_pure (a : β) : Returns state (pure a : EStateM ε σ β) post ↔ post a state := Iff.rfl

@[simp]
theorem returns_throw (e : ε) : Returns state (throw e : EStateM ε σ β) post ↔ False := Iff.rfl

/-- A part returns, and the rest of it from the state behind that part on. -/
theorem returns_bind :
    Returns state (m >>= f) post ↔ Returns state m fun a next => Returns next (f a) post := by
  unfold Returns
  change (match EStateM.bind m f state with
    | .ok a next => post a next
    | .error _ _ => False) ↔ _
  unfold EStateM.bind
  cases m state with
  | ok a next => rfl
  | error e next => rfl

theorem returns_get {post : σ → σ → Prop} :
    Returns state (get : EStateM ε σ σ) post ↔ post state state := Iff.rfl

@[simp]
theorem returns_get_bind {f : σ → EStateM ε σ β} :
    Returns state (get >>= f) post ↔ Returns state (f state) post := Iff.rfl

theorem returns_modify {update : σ → σ} {post : PUnit → σ → Prop} :
    Returns state (modify update : EStateM ε σ PUnit) post ↔ post ⟨⟩ (update state) := Iff.rfl

theorem returns_modify_bind {update : σ → σ} {f : PUnit → EStateM ε σ β} :
    Returns state (modify update >>= f) post ↔ Returns (update state) (f ⟨⟩) post := Iff.rfl

theorem returns_modifyGet_bind {update : σ → α × σ} :
    Returns state (modifyGet update >>= f) post ↔
      Returns (update state).2 (f (update state).1) post := Iff.rfl

theorem returns_congr {post' : β → σ → Prop} {m : EStateM ε σ β}
    (h : ∀ a next, m state = .ok a next → (post a next ↔ post' a next)) :
    Returns state m post ↔ Returns state m post' := by
  unfold Returns
  cases hres : m state with
  | ok a next => exact h a next hres
  | error e next => rfl

/-- Where nothing is returned, the end is the state behind the computation. -/
theorem returns_iff_stateOf {m : EStateM ε σ Unit} {post : Unit → σ → Prop} :
    Returns state m post ↔ Returns state m (fun _ _ => True) ∧ post () (stateOf (m state)) := by
  unfold Returns
  cases m state with
  | ok a next => exact (and_iff_right trivial).symm
  | error e next => exact (and_iff_left_of_imp False.elim).symm

/-- A computation whose result is known. -/
theorem returns_of_ok {m : EStateM ε σ β} {a : β} {next : σ} (h : m state = .ok a next) :
    Returns state m post ↔ post a next := by
  unfold Returns
  rw [h]

/-- A guard that throws. -/
theorem returns_guard {c : Prop} [Decidable c] {e : ε} {m : EStateM ε σ β} :
    Returns state (if c then throw e >>= f else m) post ↔ ¬c ∧ Returns state m post := by
  by_cases hc : c
  · rw [if_pos hc]
    exact iff_of_false id fun h => h.1 hc
  · rw [if_neg hc]
    exact (and_iff_right hc).symm

/-- A loop whose rounds return on a condition on the item, and then change the state by it. -/
theorem returns_forM {γ : Type} {body : γ → EStateM ε σ PUnit} {fine : γ → Prop}
    {update : γ → σ → σ}
    (h : ∀ item state post, Returns state (body item) post ↔
      fine item ∧ post ⟨⟩ (update item state))
    (items : List γ) (state : σ) (post : PUnit → σ → Prop) :
    Returns state (items.forM body) post ↔
      (∀ item ∈ items, fine item) ∧ post ⟨⟩
      (items.foldl (fun state item => update item state) state) := by
  induction items generalizing state with
  | nil => exact (and_iff_right (List.forall_mem_nil _)).symm
  | cons item items ih =>
    rw [List.forM_eq_forM, List.forM_cons, returns_bind, h, List.forall_mem_cons, and_assoc]
    exact and_congr_right fun _ => ih (update item state)

theorem returns_iff_ok {m : EStateM ε σ β} :
    Returns state m (fun _ _ => True) ↔ ∃ a next, m state = .ok a next := by
  unfold Returns
  cases m state with
  | ok a next => exact ⟨fun _ => ⟨a, next, rfl⟩, fun _ => trivial⟩
  | error e next => exact ⟨False.elim, fun ⟨_, _, h⟩ => by cases h⟩

end Returns

/-- The computation returns in the one way, or throws in the other. -/
def Meets (state : σ) (m : EStateM ε σ α) (post : α → σ → Prop) (thrown : σ → Prop) : Prop :=
  match m state with
  | .ok a next => post a next
  | .error _ next => thrown next

section Meets

variable {mid : α → σ → Prop} {post : β → σ → Prop} {thrown : σ → Prop}

theorem meets_pure {a : β} (h : post a state) :
    Meets state (pure a : EStateM ε σ β) post thrown := h

theorem Meets.bind (hm : Meets state m mid thrown)
    (hf : ∀ a next, mid a next → Meets next (f a) post thrown) :
    Meets state (m >>= f) post thrown := by
  unfold Meets at *
  change (match EStateM.bind m f state with
    | .ok a next => post a next
    | .error _ next => thrown next)
  unfold EStateM.bind
  cases hres : m state with
  | ok a next =>
    rw [hres] at hm
    exact hf a next hm
  | error e next =>
    rw [hres] at hm
    exact hm

theorem meets_get_bind {f : σ → EStateM ε σ β} (h : Meets state (f state) post thrown) :
    Meets state (get >>= f) post thrown := h

theorem meets_modify_bind {update : σ → σ} {f : PUnit → EStateM ε σ β}
    (h : Meets (update state) (f ⟨⟩) post thrown) :
    Meets state (modify update >>= f) post thrown := h

/-- What holds of the state behind the computation in either case. -/
theorem Meets.stateOf {m : EStateM ε σ β} (h : Meets state m post thrown)
    (hpost : ∀ a next, post a next → thrown next) : thrown (stateOf (m state)) := by
  unfold Meets at h
  cases hres : m state with
  | ok a next =>
    rw [hres] at h
    exact hpost a next h
  | error e next =>
    rw [hres] at h
    exact h

end Meets

theorem Keeps.mono (h : Keeps R state m) (hle : ∀ next, R state next → S state next) :
    Keeps S state m := hle _ h

end FengShui.Effect
