import FengShui.Core.Launcher

/-!
# The lifecycle of a launch (`core/launcher.dart`)

A launch that does not return leaves the launcher launched, since the one assignment that takes it
back is its last step. `lifecycle_iff` says for which programs a launch ends as it should.
-/

namespace FengShui.Launcher

open Context Effect List

variable {hash : CString → ℕ} {α : Type} {process : Process hash} {modules : List Module}

/-! ## A launch that does not return -/

/-- `_launched` is left as it is. -/
def SameLaunched (process next : Process hash) : Prop := next.launched = process.launched

/-- Also by a throw. -/
def KeepsLaunched (m : Launch hash α) : Prop := ∀ process, Keeps SameLaunched process m

section KeepsLaunched

variable {β : Type} {m : Launch hash β} {f : α → Launch hash β}

/-- A sequence keeps what both parts keep. -/
theorem KeepsLaunched.bind {m : Launch hash α} (hm : KeepsLaunched m)
    (hf : ∀ a, KeepsLaunched (f a)) :
    KeepsLaunched (m >>= f) := fun process =>
  (hm process).bind_trans (fun _ _ _ h h' => Eq.trans h' h) fun a next _ _ => hf a next

/-- What is read may be used. -/
theorem keepsLaunched_get_bind {f : Process hash → Launch hash β}
    (h : ∀ process, KeepsLaunched (f process)) :
    KeepsLaunched (get >>= f) := fun process => keeps_get_bind (h process process)

/-- A check that throws keeps it too. -/
theorem keepsLaunched_guard {c : Prop} [Decidable c] {halt : Halt} (h : KeepsLaunched m) :
    KeepsLaunched (if c then throw halt >>= f else m) := by
  split_ifs
  · exact fun _ => rfl
  · exact h

/-- So does a loop, by its body. -/
theorem keepsLaunched_forM {body : Module → Launch hash Unit}
    (h : ∀ module, KeepsLaunched (body module))
    (modules : List Module) : KeepsLaunched (modules.forM body) :=
  keeps_forM (R := SameLaunched) (fun _ => rfl) (fun _ _ _ h h' => Eq.trans h' h)
    (fun module => h module) modules

theorem keepsLaunched_pure (a : α) : KeepsLaunched (pure a : Launch hash α) := fun _ => rfl

theorem keepsLaunched_throw (halt : Halt) :
    KeepsLaunched (throw halt : Launch hash α) := fun _ => rfl

theorem keepsLaunched_modify {update : Process hash → Process hash}
    (h : ∀ process, SameLaunched process (update process)) :
    KeepsLaunched (modify update : Launch hash Unit) := h

theorem keepsLaunched_ofExcept (result : Except Thrown α) :
    KeepsLaunched (ofExcept result : Launch hash α) := by
  cases result with
  | ok a => exact keepsLaunched_pure a
  | error thrown => exact keepsLaunched_throw (.thrown thrown)

theorem keepsLaunched_ofOption (result : Option α) :
    KeepsLaunched (ofOption result : Launch hash α) := by
  cases result with
  | some a => exact keepsLaunched_pure a
  | none => exact keepsLaunched_throw .undefined

theorem keepsLaunched_log (event : Event) :
    KeepsLaunched (log event : Launch hash Unit) := fun _ => rfl

theorem keepsLaunched_registered :
    KeepsLaunched (registered : Launch hash (List Module)) := fun _ => rfl

theorem keepsLaunched_validate (module : Module) :
    KeepsLaunched (module.validate : Launch hash Unit) :=
  (keepsLaunched_ofExcept module.validates).bind fun _ => keepsLaunched_pure ()

theorem keepsLaunched_start (module : Module) : KeepsLaunched (module.start : Launch hash Unit) :=
  (keepsLaunched_log (.initializing module)).bind fun _ =>
    (keepsLaunched_ofExcept module.initializes).bind fun _ =>
      keepsLaunched_log (.initialized module)

theorem keepsLaunched_shutdown (module : Module) :
    KeepsLaunched (module.shutdown : Launch hash Unit) :=
  (keepsLaunched_log (.shutdown module)).bind fun _ => keepsLaunched_ofExcept module.shutsDown

theorem keepsLaunched_destroy (module : Module) :
    KeepsLaunched (module.destroy : Launch hash Unit) :=
  (keepsLaunched_log (.destroy module)).bind fun _ => keepsLaunched_ofExcept module.destroys

/-- `create` launches nothing. -/
theorem keepsLaunched_create (module : Module) :
    KeepsLaunched (create module : Launch hash Unit) := by
  unfold create
  apply keepsLaunched_get_bind
  intro process
  have hput : KeepsLaunched (do
      modify fun process : Process hash =>
        { process with modules := process.modules.set module.name module }
      let context ← ofOption (putModule process.nativeContext module)
      modify fun process => { process with
        context := some context, native := process.native.set module.name module.native } :
      Launch hash Unit) := by
    refine KeepsLaunched.bind (keepsLaunched_modify ?_) fun _ =>
      (keepsLaunched_ofOption _).bind fun _ => keepsLaunched_modify ?_
    · exact fun _ => rfl
    · exact fun _ => rfl
  exact keepsLaunched_guard (keepsLaunched_guard hput)

/-- Nor does `clear`. -/
theorem keepsLaunched_clear : KeepsLaunched (clear : Launch hash Unit) :=
  keepsLaunched_get_bind fun _ =>
    (keepsLaunched_ofOption _).bind fun _ => keepsLaunched_modify fun _ => rfl

/-- Nor does the look for the core module. -/
theorem keepsLaunched_coreModule : KeepsLaunched (coreModule : Launch hash Module) := by
  unfold coreModule
  apply keepsLaunched_get_bind
  intro process
  cases process.modules.get? coreModuleName with
  | none => exact keepsLaunched_throw _
  | some module =>
    dsimp only
    split_ifs
    · exact keepsLaunched_pure module
    · exact keepsLaunched_throw _

/-- Nor does `main`. -/
theorem keepsLaunched_runZonedGuarded (main : Main) (onError : Thrown → β) :
    KeepsLaunched (runZonedGuarded main fun error => pure (onError error) : Launch hash Unit) := by
  intro process
  unfold runZonedGuarded
  cases main with
  | completes => rfl
  | throws thrown => rfl
  | fails thrown => rfl

end KeepsLaunched

/-- Where the computation throws, `_launched` is true. -/
def Stays (m : Launch hash Unit) : Prop :=
  ∀ process, process.launched = true → Meets process m (fun _ _ => True) fun next =>
    next.launched = true

/-- In front of what stays it stays. -/
theorem KeepsLaunched.stays_bind {m : Launch hash α} {f : α → Launch hash Unit}
    (hm : KeepsLaunched m) (hf : ∀ a, Stays (f a)) : Stays (m >>= f) := by
  intro process hlaunched
  have hkept := hm process
  have hfirst : Meets process m (fun _ next => next.launched = true) fun next =>
      next.launched = true := by
    unfold Keeps at hkept
    unfold Meets
    cases hres : m process with
    | ok a next =>
      rw [hres] at hkept
      exact hkept.trans hlaunched
    | error halt next =>
      rw [hres] at hkept
      exact hkept.trans hlaunched
  exact hfirst.bind fun a next hnext => hf a next hnext

variable {program : Program}

/-- The one assignment that makes `_launched` false is the last step of a launch. -/
theorem launched_of_not_returns (hlaunched : process.launched = false)
    (h : ¬Returns process (launch program) fun _ _ => True) :
    (stateOf (launch program process)).launched = true := by
  have hmeets : Meets process (launch program) (fun _ _ => True) fun next =>
      next.launched = true := by
    unfold launch createContext
    apply meets_get_bind
    rw [if_neg (by simp [hlaunched])]
    apply meets_modify_bind
    apply meets_modify_bind
    apply meets_modify_bind
    refine KeepsLaunched.stays_bind (keepsLaunched_ofExcept _) (fun modules => ?_) _ rfl
    refine KeepsLaunched.stays_bind (keepsLaunched_forM keepsLaunched_create modules) fun _ => ?_
    refine KeepsLaunched.stays_bind keepsLaunched_registered fun validated => ?_
    refine KeepsLaunched.stays_bind (keepsLaunched_forM keepsLaunched_validate validated) fun _ =>
      ?_
    refine KeepsLaunched.stays_bind keepsLaunched_registered fun started => ?_
    refine KeepsLaunched.stays_bind (keepsLaunched_forM keepsLaunched_start started) fun _ => ?_
    refine KeepsLaunched.stays_bind keepsLaunched_coreModule fun _ => ?_
    refine KeepsLaunched.stays_bind (keepsLaunched_runZonedGuarded program.main _) fun _ => ?_
    refine KeepsLaunched.stays_bind (keepsLaunched_modify fun _ => rfl) fun _ => ?_
    refine KeepsLaunched.stays_bind keepsLaunched_registered fun down => ?_
    refine KeepsLaunched.stays_bind
      (keepsLaunched_forM keepsLaunched_shutdown down.reverse) fun _ => ?_
    refine KeepsLaunched.stays_bind keepsLaunched_registered fun destroyed => ?_
    refine KeepsLaunched.stays_bind
      (keepsLaunched_forM keepsLaunched_destroy destroyed.reverse) fun _ => ?_
    exact KeepsLaunched.stays_bind keepsLaunched_clear fun _ _ _ => trivial
  unfold Meets at hmeets
  unfold Returns at h
  cases hres : launch program process with
  | ok a next =>
    rw [hres] at h
    exact absurd trivial h
  | error halt next =>
    rw [hres] at hmeets
    exact hmeets

/-! ## The lifecycle -/

namespace Event

def initialized? : Event → Option Module
  | .initialized module => some module
  | _ => none

def shutdown? : Event → Option Module
  | .shutdown module => some module
  | _ => none

def destroy? : Event → Option Module
  | .destroy module => some module
  | _ => none

def isHandler : Event → Bool
  | .errorHandler _ | .exceptionHandler _ => true
  | _ => false

end Event

/-- The handler that an object is passed to. -/
def handler (thrown : Thrown) : Event :=
  if thrown.isException then .exceptionHandler thrown else .errorHandler thrown

/-- What is passed to a handler for `main`. -/
def Main.handled : Main → List Event
  | completes => []
  | throws thrown | fails thrown => [handler thrown]

/-- No module is registered, so that there may be a launch. -/
structure Process.Cleared (process : Process hash) : Prop where
  launched : process.launched = false
  modules : process.modules.entries = []
  native : process.native.entries = []
  context : Vacant process.nativeContext

/-- A launch that makes these calls ends as it should. -/
structure Lifecycle (program : Program) (start last : Process hash)
    (calls : List Event) : Prop where
  events : last.events = start.events ++ calls
  dependencies : ∀ front module back, calls = front ++ .initializing module :: back →
    ∀ dependency ∈ module.dependencies, ∃ other, other.name = dependency ∧
      .initialized other ∈ front
  shutdown : calls.filterMap Event.shutdown? = (calls.filterMap Event.initialized?).reverse
  destroy : calls.filterMap Event.destroy? = (calls.filterMap Event.initialized?).reverse
  cleared : last.Cleared
  handled : .main ∈ calls → calls.filter Event.isHandler = program.main.handled

/-- The launch of the program ends as it should. -/
def Launches (program : Program) (start : Process hash) : Prop :=
  ∃ calls, Lifecycle program start (stateOf (launch program start)) calls

/-- Nothing throws, the modules are registered behind their dependencies and the core module is
among them, and the native context has room for them. -/
def Smooth (program : Program) (context : ContextStructure hash) : Prop :=
  program.main = .completes ∧ ∃ modules, program.factory = .ok modules ∧ Registers [] modules ∧
    (∀ module ∈ modules, module.Quiet) ∧ HasCore modules ∧ Settles context modules

/-- What a selection of the events finds in the calls of a launch. -/
theorem filterMap_calls {β : Type} (f : Event → Option β) (modules : List Module) :
    (calls modules).filterMap f =
      modules.flatMap (fun module => (f (.initializing module)).toList ++
        (f (.initialized module)).toList) ++
        (f .main).toList ++ modules.reverse.filterMap (fun module => f (.shutdown module)) ++
        modules.reverse.filterMap fun module => f (.destroy module) := by
  have htwo (first second : Event) :
      [first, second].filterMap f = (f first).toList ++ (f second).toList := by
    cases hfirst : f first <;> cases hsecond : f second <;> simp [hfirst, hsecond]
  have hone (event : Event) : [event].filterMap f = (f event).toList := by
    cases hevent : f event <;> simp [hevent]
  unfold calls
  rw [filterMap_append, filterMap_append, filterMap_append, filterMap_flatMap, hone,
    filterMap_map, filterMap_map]
  simp only [htwo]
  rfl

/-- The modules are initialized in their order. -/
theorem initialized_calls (modules : List Module) :
    (calls modules).filterMap Event.initialized? = modules := by
  rw [filterMap_calls]
  simp [Event.initialized?]

/-- They are shut down the other way around. -/
theorem shutdown_calls (modules : List Module) :
    (calls modules).filterMap Event.shutdown? = modules.reverse := by
  rw [filterMap_calls]
  simp [Event.shutdown?]

/-- They are destroyed the other way around. -/
theorem destroy_calls (modules : List Module) :
    (calls modules).filterMap Event.destroy? = modules.reverse := by
  rw [filterMap_calls]
  simp [Event.destroy?]

/-- No handler of errors is called. -/
theorem handlers_calls (modules : List Module) : (calls modules).filter Event.isHandler = [] := by
  rw [← filterMap_eq_filter, filterMap_calls]
  simp [Event.isHandler]

/-- A module is initialized behind those that were registered in front of it. -/
theorem dependencies_flatMap {rest : List Event} (hrest : ∀ module, .initializing module ∉ rest)
    {before : List Module} (hregisters : Registers before modules) {front back : List Event}
    {module : Module}
    (hsplit :
    modules.flatMap (fun module => [Event.initializing module, .initialized module]) ++ rest =
      front ++ .initializing module :: back) :
    ∀ dependency ∈ module.dependencies, dependency ∈ before.map Module.name ∨
      ∃ other, other.name = dependency ∧ .initialized other ∈ front := by
  induction modules generalizing before front with
  | nil =>
    rw [flatMap_nil, nil_append] at hsplit
    have hmem : .initializing module ∈ rest := hsplit ▸ mem_append_right _ mem_cons_self
    exact absurd hmem (hrest module)
  | cons next modules ih =>
    obtain ⟨-, hdependencies, hregisters⟩ := hregisters
    rw [flatMap_cons, append_assoc] at hsplit
    cases front with
    | nil =>
      have hsame : next = module := Event.initializing.inj (List.cons.inj hsplit).1
      intro dependency hmem
      exact .inl (hdependencies dependency (hsame ▸ hmem))
    | cons first front =>
      have htail := (List.cons.inj hsplit).2
      cases front with
      | nil => cases (List.cons.inj htail).1
      | cons second front =>
        obtain ⟨rfl, hinner⟩ := List.cons.inj htail
        intro dependency hmem
        rcases ih hregisters hinner dependency hmem with hbefore | ⟨other, hname, hother⟩
        · rw [map_append, mem_append, map_singleton, mem_singleton] at hbefore
          rcases hbefore with hbefore | hname
          · exact .inl hbefore
          · refine .inr ⟨next, hname.symm, ?_⟩
            exact mem_cons_of_mem _ mem_cons_self
        · exact .inr ⟨other, hname, mem_cons_of_mem _ (mem_cons_of_mem _ hother)⟩

/-- A module is initialized behind what it depends on. -/
theorem dependencies_calls (hregisters : Registers [] modules) {front back : List Event}
    {module : Module} (hsplit : calls modules = front ++ .initializing module :: back) :
    ∀ dependency ∈ module.dependencies, ∃ other, other.name = dependency ∧
      .initialized other ∈ front := by
  intro dependency hmem
  unfold calls at hsplit
  simp only [append_assoc] at hsplit
  have hrest (module : Module) : .initializing module ∉
      [Event.main] ++ (modules.reverse.map .shutdown ++ modules.reverse.map .destroy) := by
    simp
  rcases dependencies_flatMap hrest hregisters hsplit dependency hmem with hnil | hfound
  · cases hnil
  · exact hfound

/-- A smooth program is launched as it should be. -/
theorem Smooth.launches {start : Process hash} (h : Smooth program start.nativeContext)
    (hcleared : start.Cleared) : Launches program start := by
  obtain ⟨hmain, modules, hfactory, hregisters, hquiet, hcore, hsettles⟩ := h
  obtain ⟨middle, hput, next, hremove, hvacant⟩ :=
    (hcleared.context.settles_iff modules).mpr hsettles
  have hreturns : Returns start (launch program) fun _ last => last =
      start.finish modules next := by
    rw [returns_launch hcleared.launched]
    refine ⟨modules, hfactory, hregisters, middle, hput, hquiet, hcore, ?_, next, hremove, rfl⟩
    intro thrown hfails
    cases hmain.symm.trans hfails
  have hlast : stateOf (launch program start) = start.finish modules next :=
    (returns_iff_stateOf.mp hreturns).2
  refine ⟨calls modules, ?_⟩
  rw [hlast]
  exact {
    events := rfl
    dependencies := fun front module back hsplit => dependencies_calls hregisters hsplit
    shutdown := by rw [shutdown_calls, initialized_calls]
    destroy := by rw [destroy_calls, initialized_calls]
    cleared := ⟨rfl, rfl, rfl, hvacant⟩
    handled := fun _ => by rw [handlers_calls, hmain, Main.handled] }

/-- Another program is not. -/
theorem Launches.smooth {start : Process hash} (h : Launches program start)
    (hcleared : start.Cleared) : Smooth program start.nativeContext := by
  obtain ⟨made, hlifecycle⟩ := h
  have hreturns : Returns start (launch program) fun _ _ => True := by
    by_contra hnot
    have htrue := launched_of_not_returns hcleared.launched hnot
    rw [hlifecycle.cleared.launched] at htrue
    cases htrue
  have hcalls : Returns start (launch program) fun _ last => last.Cleared ∧
      last.events = start.events ++ made := by
    rw [returns_iff_stateOf]
    exact ⟨hreturns, hlifecycle.cleared, hlifecycle.events⟩
  rw [returns_launch hcleared.launched] at hcalls
  obtain ⟨modules, hfactory, hregisters, middle, hput, hquiet, hcore, hfails, next, hremove,
    hlast, hev⟩ :=
    hcalls
  have hmade : made = calls modules := (append_cancel_left hev).symm
  -- `main` is called, and no handler is.
  have hmain : .main ∈ made := by
    rw [hmade]
    unfold calls
    simp
  have hhandled : program.main.handled = [] := by
    rw [← hlifecycle.handled hmain, hmade, handlers_calls]
  refine ⟨?_, modules, hfactory, hregisters, hquiet, hcore, ?_⟩
  · cases hprogram : program.main with
    | completes => rfl
    | throws thrown =>
      rw [hprogram] at hhandled
      cases hhandled
    | fails thrown => exact absurd hprogram (hfails thrown)
  · exact (hcleared.context.settles_iff modules).mp ⟨middle, hput, next, hremove, hlast.context⟩

/-- A launch ends as it should if and only if the program is smooth. -/
theorem lifecycle_iff (program : Program) (start : Process hash) (hcleared : start.Cleared) :
    Launches program start ↔ Smooth program start.nativeContext :=
  ⟨fun h => h.smooth hcleared, fun h => h.launches hcleared⟩

/-- The process in front of the first launch. -/
def Process.first : Process hash := ⟨false, ⟨0, []⟩, .empty, .empty, none, []⟩

/-- The process starts without modules. -/
theorem cleared_first : (Process.first : Process hash).Cleared := ⟨rfl, rfl, rfl, vacant_create⟩

/-- The core module, where nothing throws. -/
def quietCore : Module where
  name := coreModuleName
  runtimeType := literal "CoreModule"
  native := 16
  dependencies := []
  core := true
  validates := .ok true
  initializes := .ok ()
  shutsDown := .ok ()
  destroys := .ok ()

instance (context : ContextStructure hash) (modules : List Module) :
    Decidable (Settles context modules) :=
  match h : putModules context modules with
  | none => .isFalse fun ⟨_, hput, _⟩ => by cases h.symm.trans hput
  | some next => decidable_of_iff (next.modules.resizePosition = 0 ∧ next.modules.prime < 29)
      ⟨fun hnext => ⟨next, h, hnext⟩, fun ⟨other, hput, hother⟩ =>
        Option.some.inj (h.symm.trans hput) ▸ hother⟩

/-- The core module and one that depends on it. -/
theorem launches_of_two : Launches ⟨.ok [quietCore, { quietCore with
    name := [109], dependencies := [coreModuleName], core := false }], .completes⟩
    (Process.first : Process List.length) := by
  apply (lifecycle_iff _ Process.first cleared_first).mpr
  refine ⟨rfl, _, rfl,
    ⟨by decide, by decide, by decide +kernel, by decide +kernel, trivial⟩, ?_, ?_,
    by decide +kernel⟩
  · intro module hmem
    rcases List.mem_cons.mp hmem with rfl | hmem
    · exact ⟨⟨true, rfl⟩, rfl, rfl, rfl⟩
    · obtain rfl := List.mem_singleton.mp hmem
      exact ⟨⟨true, rfl⟩, rfl, rfl, rfl⟩
  · exact ⟨quietCore, List.mem_cons_self, rfl, rfl⟩

/-- `main` throws an exception, and the handler is not called. -/
theorem exception_not_handled : ¬∀ (hash : CString → ℕ) (program : Program) (start : Process hash),
    start.Cleared → Launches program start := by
  intro h
  have hlaunches :=
    h List.length ⟨.ok [quietCore], .throws (.exception 1)⟩ Process.first cleared_first
  obtain ⟨hmain, -⟩ := hlaunches.smooth cleared_first
  cases hmain

end FengShui.Launcher
