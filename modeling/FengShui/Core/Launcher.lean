import FengShui.Core.Context
import FengShui.Core.DartMap
import FengShui.Lib.Effect

/-!
# Launching the modules (`core/launcher.dart`, `_Context` of `core/context.dart`)

`launch` registers the modules, initializes them, runs `main`, and takes everything back. Nothing of
it is in a `finally`, and the callback for what `main` throws evaluates to a handler that it does
not call. `returns_launch` says when a launch returns, and in which state.
-/

namespace FengShui.Launcher

open Context Effect List

/-- `coreModuleName`. -/
def coreModuleName : DartString := literal "core"

/-- What is thrown. -/
inductive Thrown where
  | coreModuleError (message : DartString)
  | typeError
  /-- Another `Error`. -/
  | error (id : ℕ)
  | exception (id : ℕ)
  /-- Neither of the two. -/
  | object (id : ℕ)
  deriving DecidableEq, Repr

namespace Thrown

def isError : Thrown → Bool
  | coreModuleError _ | typeError | error _ => true
  | exception _ | object _ => false

def isException : Thrown → Bool
  | exception _ => true
  | _ => false

end Thrown

namespace CoreErrors

def moduleAlreadyLoaded (name : DartString) : DartString :=
  literal "Module is already loaded: " ++ name

def moduleNotFound (name : DartString) : DartString := literal "Module is not found: " ++ name

def moduleDependenciesNotFound (dependencies : List DartString) : DartString :=
  literal "Module dependencies are not found: [" ++ (literal ", ").intercalate dependencies ++
    literal "]"

end CoreErrors

/-- A module, with how its methods end. A method throws what its `Future` ends with as well. -/
structure Module where
  name : DartString
  runtimeType : DartString
  native : ℕ
  dependencies : List DartString
  /-- It is a `ModuleProvider<core_module, CoreModuleConfiguration, CoreModuleState>`. -/
  core : Bool
  validates : Except Thrown Bool
  initializes : Except Thrown Unit
  shutsDown : Except Thrown Unit
  destroys : Except Thrown Unit

/-- `main`: what it throws itself, or what its `Future` ends with. -/
inductive Main where
  | completes
  | throws (thrown : Thrown)
  | fails (thrown : Thrown)

/-- The arguments of `launch`. -/
structure Program where
  factory : Except Thrown (List Module)
  main : Main

/-- What is called, in its order. -/
inductive Event where
  | initializing (module : Module)
  | initialized (module : Module)
  | main
  | errorHandler (thrown : Thrown)
  | exceptionHandler (thrown : Thrown)
  | shutdown (module : Module)
  | destroy (module : Module)

/-- `Signal`: how often the same callback is there, and which subscriptions are active. -/
structure Signal where
  callbacks : ℕ
  subscriptions : List Bool

variable {hash : CString → ℕ} {α : Type}

structure Process (hash : CString → ℕ) where
  launched : Bool
  /-- `signals().reload`. -/
  reload : Signal
  /-- `_context._modules`. -/
  modules : DartMap DartString Module
  /-- `_context._native`. -/
  native : DartMap DartString ℕ
  /-- `context_instance`, without a value where it is not initialized. -/
  context : Option (ContextStructure hash)
  events : List Event

/-- Why a computation does not return. -/
inductive Halt where
  | thrown (thrown : Thrown)
  /-- An `await` of a `Future` that never completes. -/
  | waiting
  /-- The native code has no defined behaviour. -/
  | undefined

abbrev Launch (hash : CString → ℕ) (α : Type) : Type := EStateM Halt (Process hash) α

/-- What a call returns or throws. -/
def ofExcept : Except Thrown α → Launch hash α
  | .ok a => pure a
  | .error thrown => throw (.thrown thrown)

/-- A call into the native context. -/
def ofOption : Option α → Launch hash α
  | some a => pure a
  | none => throw .undefined

def Process.add (process : Process hash) (events : List Event) : Process hash :=
  { process with events := process.events ++ events }

def log (event : Event) : Launch hash Unit := modify fun process => process.add [event]

/-- `toNativeUtf8`: the native code sees the bytes in front of the first zero. -/
def toNative (string : DartString) : CString := (utf8Encode string).takeWhile (· ≠ 0)

namespace Module

def nativeName (module : Module) : CString := toNative module.name

def nativeType (module : Module) : CString := toNative module.runtimeType

/-- What the method returns is not looked at. -/
def validate (module : Module) : Launch hash Unit := discard (ofExcept module.validates)

/-- The call of `initialize`. -/
def start (module : Module) : Launch hash Unit := do
  log (.initializing module)
  ofExcept module.initializes
  log (.initialized module)

def shutdown (module : Module) : Launch hash Unit := do
  log (.shutdown module)
  ofExcept module.shutsDown

def destroy (module : Module) : Launch hash Unit := do
  log (.destroy module)
  ofExcept module.destroys

end Module

namespace Signal

def callback (signal : Signal) : Signal := { signal with callbacks := signal.callbacks + 1 }

def register (signal : Signal) : Signal :=
  { signal with subscriptions := signal.subscriptions ++ [true] }

/-- The subscriptions are cancelled, and stay in the list. -/
def destroy (signal : Signal) : Signal :=
  { signal with subscriptions := signal.subscriptions.map fun _ => false }

end Signal

/-- `context_put_module` of a module. -/
def putModule (context : ContextStructure hash) (module : Module) :
    Option (ContextStructure hash) :=
  context.putModule module.nativeName module.native module.nativeType

/-- `context_instance` behind `context_create`. -/
def Process.nativeContext (process : Process hash) : ContextStructure hash :=
  process.context.getD .create

/-- `_Context._create()`. -/
def createContext : Launch hash Unit := modify fun process =>
  { process with modules := .empty, native := .empty, context := some process.nativeContext }

/-- `_create`. -/
def create (module : Module) : Launch hash Unit := do
  let process ← get
  if (process.native.get? module.name).isSome then
    throw (.thrown (.coreModuleError (CoreErrors.moduleAlreadyLoaded module.name)))
  let failedDependencies :=
    module.dependencies.filter fun dependency => dependency ∉ process.modules.keys
  if failedDependencies ≠ [] then
    throw (.thrown (.coreModuleError (CoreErrors.moduleDependenciesNotFound failedDependencies)))
  modify fun process => { process with modules := process.modules.set module.name module }
  let context ← ofOption (putModule process.nativeContext module)
  modify fun process =>
    { process with context := some context, native := process.native.set module.name module.native }

/-- `context_remove_module` of each name. -/
def removeModules (context : ContextStructure hash) (names : List DartString) :
    Option (ContextStructure hash) :=
  names.foldlM (fun context name => context.removeModule (toNative name)) context

/-- `_clear`. -/
def clear : Launch hash Unit := do
  let process ← get
  let context ← ofOption (removeModules process.nativeContext process.modules.keys)
  modify fun process =>
    { process with context := some context, modules := .empty, native := .empty }

/-- `context().coreModule()`. -/
def coreModule : Launch hash Module := do
  match (← get).modules.get? coreModuleName with
  | none => throw (.thrown (.coreModuleError (CoreErrors.moduleNotFound coreModuleName)))
  | some module => if module.core then pure module else throw (.thrown .typeError)

/-- `runZonedGuarded`, and the `await` of what it returns. An error of a `Future` does not leave its
error zone, and what `onError` returns is not looked at. -/
def runZonedGuarded {β : Type} (main : Main) (onError : Thrown → Launch hash β) :
    Launch hash Unit := do
  log .main
  match main with
  | .completes => pure ()
  | .throws thrown => discard (onError thrown)
  | .fails thrown =>
    discard (onError thrown)
    throw .waiting

def registered : Launch hash (List Module) := return (← get).modules.values

def launch (program : Program) : Launch hash Unit := do
  if (← get).launched then return
  modify fun process => { process with launched := true }
  modify fun process => { process with reload := process.reload.callback.register }
  createContext
  let modules ← ofExcept program.factory
  modules.forM create
  (← registered).forM Module.validate
  (← registered).forM Module.start
  let _ ← coreModule
  let errorHandler : Thrown → Launch hash Unit := fun thrown => log (.errorHandler thrown)
  let exceptionHandler : Thrown → Launch hash Unit := fun thrown => log (.exceptionHandler thrown)
  runZonedGuarded program.main fun error => pure
    (if error.isError then errorHandler
    else if error.isException then exceptionHandler
    else errorHandler)
  modify fun process => { process with reload := process.reload.destroy }
  (← registered).reverse.forM Module.shutdown
  (← registered).reverse.forM Module.destroy
  clear
  modify fun process => { process with launched := false }

/-! ## The native context -/

/-- `context_put_module` of each module. -/
def putModules (context : ContextStructure hash) (modules : List Module) :
    Option (ContextStructure hash) :=
  modules.foldlM putModule context

/-- A native context without a module, that modules can be put into. -/
structure Vacant (context : ContextStructure hash) : Prop where
  size : context.size = 0
  nodes : context.modules.nodes = []
  valid : SimpleMap.Map.Valid context.modules
  resizePosition : context.modules.resizePosition = 0

/-- The modules have room in the native context, and their map is not left in the middle of a
resize. -/
def Settles (context : ContextStructure hash) (modules : List Module) : Prop :=
  ∃ next, putModules context modules = some next ∧ next.modules.resizePosition = 0 ∧
    next.modules.prime < 29

/-- The modules in the map have some of these names, each of which was put once. -/
structure Tracks (names : List CString) (context : ContextStructure hash) : Prop where
  size : context.size = names.length
  length_le : names.length ≤ modulesMaximum
  valid : context.modules.prime < 29 → SimpleMap.Map.Valid context.modules
  named : context.modules.prime < 29 → ∀ node ∈ context.modules.nodes, node.name ∈ names

variable {context next : ContextStructure hash} {names : List CString} {module : Module}

theorem vacant_create : Vacant (ContextStructure.create : ContextStructure hash) where
  size := rfl
  nodes := rfl
  valid := .inl SimpleMap.Map.idle_create
  resizePosition := rfl

/-- An empty context tracks no module. -/
theorem Vacant.tracks (h : Vacant context) : Tracks [] context where
  size := h.size
  length_le := Nat.zero_le _
  valid := fun _ => h.valid
  named := fun _ node hnode => by
    rw [h.nodes] at hnode
    cases hnode

theorem Tracks.put (h : Tracks names context) (hput : putModule context module = some next) :
    Tracks (names ++ [module.nativeName]) next := by
  unfold putModule ContextStructure.putModule at hput
  dsimp only at hput
  split_ifs at hput with hsize
  obtain ⟨modules, hcopy, rfl⟩ := Option.map_eq_some_iff.mp hput
  have hprime := (SimpleMap.Map.prime_of_putCopy hcopy).1
  have hlen : (names ++ [module.nativeName]).length = names.length + 1 := by
    rw [length_append, length_singleton]
  rw [h.size] at hsize
  -- The map behind the call, where its size is below `2^31`.
  have hafter (hlt : modules.prime < 29) : SimpleMap.Map.Valid modules ∧
      ∀ node ∈ modules.nodes, node.name = module.nativeName ∨ node ∈ context.modules.nodes := by
    have hvalid := h.valid (hprime.trans_lt hlt)
    obtain ⟨after, hafter, hnext, hnodes⟩ := hvalid.putCopy _ (hvalid.larger hcopy hlt)
    obtain rfl := Option.some.inj (hafter.symm.trans hcopy)
    refine ⟨hnext, fun node hnode => ?_⟩
    rcases (hnodes node).mp hnode with rfl | ⟨hold, -⟩
    · exact .inl rfl
    · exact .inr hold
  refine ⟨?_, ?_, fun hlt => (hafter hlt).1, fun hlt node hnode => ?_⟩
  · unfold modulesMaximum at hsize
    dsimp only
    rw [hlen, h.size]
    omega
  · rw [hlen]
    exact hsize
  · rcases (hafter hlt).2 node hnode with hname | hold
    · rw [hname]
      exact mem_append_right _ (mem_singleton_self _)
    · exact mem_append_left _ (h.named (hprime.trans_lt hlt) node hold)

theorem Tracks.putModules (h : Tracks names context) {modules : List Module}
    (hput : putModules context modules = some next) :
    Tracks (names ++ modules.map Module.nativeName) next := by
  induction modules generalizing names context with
  | nil =>
    obtain rfl := Option.some.inj hput
    rwa [map_nil, append_nil]
  | cons module modules ih =>
    obtain ⟨middle, hmid, hrest⟩ := Option.bind_eq_some_iff.mp hput
    have hnext := ih (h.put hmid) hrest
    rwa [append_assoc] at hnext

/-- `context_remove_module` is not defined for a module in the map where this is resized. -/
theorem removeModule_mono {name : CString} (h : context.removeModule name = some next) :
    next.modules.prime = context.modules.prime ∧
      next.modules.resizePosition = context.modules.resizePosition := by
  unfold ContextStructure.removeModule at h
  cases hfind : context.modules.table.find name with
  | none =>
    rw [hfind] at h
    cases h
  | some slot =>
    rw [hfind] at h
    dsimp only at h
    cases hnode : (OpenAddressing.slotAt context.modules.table.slots slot).node with
    | none =>
      rw [hnode] at h
      obtain rfl := Option.some.inj h
      exact ⟨rfl, rfl⟩
    | some container =>
      rw [hnode] at h
      dsimp only at h
      split_ifs at h with hresizing
      obtain ⟨modules, hdel, rfl⟩ := Option.map_eq_some_iff.mp h
      refine ⟨SimpleMap.Map.prime_of_del hdel, ?_⟩
      unfold SimpleMap.Map.del at hdel
      rw [hnode] at hdel
      dsimp only at hdel
      rw [if_neg hresizing] at hdel
      obtain rfl := Option.some.inj hdel
      rfl

/-- The names of a vacant context that is not resized are taken away one after the other. -/
theorem Tracks.exists_remove {name : CString} (h : Tracks (name :: names) context)
    (hprime : context.modules.prime < 29) (hidle : context.modules.resizePosition = 0) :
    ∃ next, context.removeModule name = some next ∧ Tracks names next := by
  have hvalid := h.valid hprime
  have hnamed := h.named hprime
  have hle := h.length_le
  have hsize := h.size
  rw [length_cons] at hle hsize
  have hpred : (context.size + (2 ^ 64 - 1)) % 2 ^ 64 = names.length := by
    rw [hsize]
    exact pred_size hle
  by_cases habsent : ∀ node ∈ context.modules.nodes, node.name ≠ name
  · refine ⟨_, removeModule_of_absent hvalid habsent, hpred,
      Nat.le_of_succ_le hle, fun _ => hvalid, ?_⟩
    intro _ node hnode
    exact mem_of_ne_of_mem (habsent node hnode) (hnamed node hnode)
  · obtain ⟨node, hnode, rfl⟩ : ∃ node ∈ context.modules.nodes, node.name = name := by
      by_contra hnone
      exact habsent fun node hnode heq => hnone ⟨node, hnode, heq⟩
    obtain ⟨modules, hremove, hafter, hnodes⟩ := removeModule_of_mem hvalid hnode hidle
    refine ⟨_, hremove, hpred, Nat.le_of_succ_le hle, fun _ => hafter, fun _ other hother => ?_⟩
    -- No other node has the name.
    obtain ⟨hold, hne⟩ := (hnodes other).mp hother
    have hname : other.name ≠ node.name := fun heq => hne (hvalid.eq_of_key hold hnode heq)
    exact mem_of_ne_of_mem hname (hnamed other hold)

theorem removeModules_mono {names : List DartString} (h : removeModules context names = some next) :
    next.modules.prime = context.modules.prime ∧
      next.modules.resizePosition = context.modules.resizePosition := by
  induction names generalizing context with
  | nil =>
    obtain rfl := Option.some.inj h
    exact ⟨rfl, rfl⟩
  | cons name names ih =>
    obtain ⟨middle, hmid, hrest⟩ := Option.bind_eq_some_iff.mp h
    obtain ⟨hprime, hpos⟩ := removeModule_mono hmid
    obtain ⟨hprime', hpos'⟩ := ih hrest
    exact ⟨hprime'.trans hprime, hpos'.trans hpos⟩

theorem Tracks.exists_removeModules {names : List DartString}
    (h : Tracks (names.map toNative) context)
    (hprime : context.modules.prime < 29) (hidle : context.modules.resizePosition = 0) :
    ∃ next, removeModules context names = some next ∧ Vacant next := by
  induction names generalizing context with
  | nil =>
    refine ⟨context, rfl, h.size, eq_nil_iff_forall_not_mem.mpr ?_, h.valid hprime, hidle⟩
    intro node hnode
    cases h.named hprime node hnode
  | cons name names ih =>
    obtain ⟨middle, hremove, htracks⟩ := h.exists_remove hprime hidle
    obtain ⟨hkept, hpos⟩ := removeModule_mono hremove
    obtain ⟨next, hrest, hvacant⟩ := ih htracks (hkept.trans_lt hprime) (hpos.trans hidle)
    refine ⟨next, ?_, hvacant⟩
    unfold removeModules at hrest ⊢
    rw [foldlM_cons, hremove]
    exact hrest

/-- What is put into a vacant context and taken away again leaves it vacant, exactly where it
settles. -/
theorem Vacant.settles_iff (h : Vacant context) (modules : List Module) :
    (∃ middle, putModules context modules = some middle ∧
      ∃ next, removeModules middle (modules.map Module.name) = some next ∧ Vacant next) ↔
      Settles context modules := by
  refine exists_congr fun middle => and_congr_right fun hput => ?_
  constructor
  · rintro ⟨next, hremove, hvacant⟩
    obtain ⟨hprime, hpos⟩ := removeModules_mono hremove
    have hlt : next.modules.prime < 29 := by
      rcases hvacant.valid with hidle | ⟨hresizing, -⟩
      · exact hidle.prime
      · exact hresizing.prime
    exact ⟨hpos.symm.trans hvacant.resizePosition, hprime.symm.trans_lt hlt⟩
  · rintro ⟨hidle, hprime⟩
    have htracks := h.tracks.putModules hput
    rw [nil_append] at htracks
    have hnames : (modules.map Module.name).map toNative = modules.map Module.nativeName :=
      map_map ..
    exact (hnames ▸ htracks).exists_removeModules hprime hidle

/-! ## The phases -/

/-- Each module has a new name, and its dependencies are in front of it. -/
def Registers : List Module → List Module → Prop
  | _, [] => True
  | front, module :: modules => module.name ∉ front.map Module.name ∧
      (∀ dependency ∈ module.dependencies, dependency ∈ front.map Module.name) ∧
      Registers (front ++ [module]) modules

/-- The process behind the registration of modules. -/
def Process.register (process : Process hash) (modules : List Module)
    (context : ContextStructure hash) :
    Process hash :=
  { process with
    modules := modules.foldl (fun map module => map.set module.name module) process.modules
    native := modules.foldl (fun map module => map.set module.name module.native) process.native
    context := some context }

/-- The modules are registered, in their order. -/
structure Registered (registered : List Module) (process : Process hash) : Prop where
  modules : process.modules.entries = registered.map fun module => (module.name, module)
  native : process.native.keys = registered.map Module.name

variable {process : Process hash} {post : Unit → Process hash → Prop} {front modules : List Module}

/-- A result returns if it is a value. -/
theorem returns_ofExcept {result : Except Thrown α} {post : α → Process hash → Prop} :
    Returns process (ofExcept result) post ↔ ∃ a, result = .ok a ∧ post a process := by
  cases result with
  | ok a => simp [ofExcept]
  | error thrown => simp [ofExcept]

/-- A result that may be missing. -/
theorem returns_ofOption {result : Option α} {post : α → Process hash → Prop} :
    Returns process (ofOption result) post ↔ ∃ a, result = some a ∧ post a process := by
  cases result with
  | some a => simp [ofOption]
  | none => simp [ofOption]

/-- The map has the names, in their order. -/
theorem Registered.keys (h : Registered front process) :
    process.modules.keys = front.map Module.name := by
  unfold DartMap.keys
  rw [h.modules, map_map]
  rfl

/-- The map has the modules, in their order. -/
theorem Registered.values (h : Registered front process) : process.modules.values = front := by
  unfold DartMap.values
  rw [h.modules, map_map]
  exact map_id front

/-- `create` returns for a new name behind its dependencies, if the native map takes it. -/
theorem returns_create (h : Registered front process) (module : Module) :
    Returns process (create module) post ↔
      (module.name ∉ front.map Module.name ∧
        ∀ dependency ∈ module.dependencies, dependency ∈ front.map Module.name) ∧
      ∃ next, putModule process.nativeContext module = some next ∧
        post () (process.register [module] next) := by
  have hloaded : ¬(process.native.get? module.name).isSome = true ↔
      module.name ∉ front.map Module.name := by
    rw [← h.native, DartMap.mem_keys_iff, Option.isSome_iff_exists]
  have hdependencies :
    ¬module.dependencies.filter (fun dependency => dependency ∉ process.modules.keys) ≠ [] ↔
      ∀ dependency ∈ module.dependencies, dependency ∈ front.map Module.name := by
    simp [filter_eq_nil_iff, h.keys]
  unfold create
  rw [returns_get_bind]
  dsimp only
  rw [returns_guard, returns_guard, hloaded, hdependencies, and_assoc, returns_modify_bind,
    returns_bind, returns_ofOption]
  rfl

theorem Registered.register (h : Registered front process)
    (hnew : module.name ∉ front.map Module.name) (next : ContextStructure hash) :
    Registered (front ++ [module]) (process.register [module] next) := by
  have hmodules : module.name ∉ process.modules.keys := h.keys ▸ hnew
  have hnative : module.name ∉ process.native.keys := h.native ▸ hnew
  constructor
  · have hset : (process.modules.set module.name module).entries =
        process.modules.entries ++ [(module.name, module)] := by
      rw [DartMap.set, dif_neg hmodules]
    show (process.modules.set module.name module).entries = _
    rw [hset, h.modules, map_append, map_singleton]
  · show (process.native.set module.name module.native).keys = _
    rw [DartMap.keys_set_of_notMem _ _ hnative, h.native, map_append, map_singleton]

/-- So the modules are created one by one. -/
theorem returns_forM_create (h : Registered front process)
    (hcontext : process.context = some context) (modules : List Module) :
    Returns process (modules.forM create) post ↔ Registers front modules ∧
      ∃ next, putModules context modules = some next ∧ post () (process.register modules next) := by
  induction modules generalizing front process context with
  | nil =>
    have hsame : process.register [] context = process := by
      unfold Process.register
      rw [← hcontext]
      rfl
    rw [forM_eq_forM, forM_nil, returns_pure, Registers, true_and]
    constructor
    · intro hpost
      exact ⟨context, rfl, hsame.symm ▸ hpost⟩
    · rintro ⟨next, hput, hpost⟩
      obtain rfl := Option.some.inj hput
      exact hsame ▸ hpost
  | cons module modules ih =>
    have hnative : process.nativeContext = context := by
      unfold Process.nativeContext
      rw [hcontext, Option.getD_some]
    rw [forM_eq_forM, forM_cons, returns_bind, returns_create h, hnative, Registers]
    simp only [and_assoc]
    refine and_congr_right fun hnew => and_congr_right fun _ => ?_
    unfold putModules
    rw [foldlM_cons]
    constructor
    · rintro ⟨middle, hmid, hrest⟩
      obtain ⟨hregisters, next, hput, hpost⟩ := (ih (h.register hnew middle) rfl).mp hrest
      refine ⟨hregisters, next, ?_, hpost⟩
      rw [hmid]
      exact hput
    · rintro ⟨hregisters, next, hput, hpost⟩
      obtain ⟨middle, hmid, hput⟩ := Option.bind_eq_some_iff.mp hput
      exact ⟨middle, hmid, (ih (h.register hnew middle) rfl).mpr ⟨hregisters, next, hput, hpost⟩⟩

theorem Registered.register_all (h : Registered front process)
    (hregisters : Registers front modules) (next : ContextStructure hash) :
    Registered (front ++ modules) (process.register modules next) := by
  induction modules generalizing front process with
  | nil =>
    rw [append_nil]
    exact ⟨h.modules, h.native⟩
  | cons module modules ih =>
    obtain ⟨hnew, -, hrest⟩ := hregisters
    have hall := ih (h.register hnew next) hrest
    rwa [append_assoc] at hall

/-- A phase that calls a method of each module. -/
theorem returns_forM_call {body : Module → Launch hash Unit} {fine : Module → Prop}
    {events : Module → List Event}
    (h : ∀ module process post, Returns process (body module) post ↔
      fine module ∧ post () (process.add (events module))) (modules : List Module) :
    Returns process (modules.forM body) post ↔
      (∀ module ∈ modules, fine module) ∧ post () (process.add (modules.flatMap events)) := by
  have hfold : modules.foldl (fun process module => process.add (events module)) process =
      process.add (modules.flatMap events) := by
    induction modules generalizing process with
    | nil =>
      unfold Process.add
      rw [flatMap_nil, append_nil, foldl_nil]
    | cons module modules ih =>
      rw [foldl_cons, ih, flatMap_cons]
      unfold Process.add
      rw [append_assoc]
  rw [returns_forM h, hfold]

/-- `validate` returns also where it is false. -/
theorem returns_validate (module : Module) (process : Process hash)
    (post : Unit → Process hash → Prop) :
    Returns process module.validate post ↔
      (∃ valid, module.validates = .ok valid) ∧ post () (process.add []) := by
  have hsame : process.add [] = process := by
    unfold Process.add
    rw [append_nil]
  rw [hsame]
  unfold Module.validate
  cases module.validates with
  | ok valid => exact (and_iff_right ⟨valid, rfl⟩).symm
  | error thrown => exact iff_of_false id fun ⟨⟨_, h⟩, _⟩ => by cases h

/-- `initialize`, between its two events. -/
theorem returns_start (module : Module) (process : Process hash)
    (post : Unit → Process hash → Prop) :
    Returns process module.start post ↔ module.initializes = .ok () ∧
      post () (process.add [.initializing module, .initialized module]) := by
  have hboth : (process.add [.initializing module]).add [.initialized module] =
      process.add [.initializing module, .initialized module] := by
    unfold Process.add
    rw [append_assoc]
    rfl
  unfold Module.start log
  rw [returns_modify_bind, returns_bind, returns_ofExcept, ← hboth]
  constructor
  · rintro ⟨⟨⟩, hres, hpost⟩
    exact ⟨hres, hpost⟩
  · rintro ⟨hres, hpost⟩
    exact ⟨(), hres, hpost⟩

/-- `shutdown`, with its event. -/
theorem returns_shutdown (module : Module) (process : Process hash)
    (post : Unit → Process hash → Prop) :
    Returns process module.shutdown post ↔
      module.shutsDown = .ok () ∧ post () (process.add [.shutdown module]) := by
  unfold Module.shutdown log
  rw [returns_modify_bind, returns_ofExcept]
  exact ⟨fun ⟨_, h⟩ => h, fun h => ⟨(), h⟩⟩

/-- `destroy`, with its event. -/
theorem returns_destroy (module : Module) (process : Process hash)
    (post : Unit → Process hash → Prop) :
    Returns process module.destroy post ↔
      module.destroys = .ok () ∧ post () (process.add [.destroy module]) := by
  unfold Module.destroy log
  rw [returns_modify_bind, returns_ofExcept]
  exact ⟨fun ⟨_, h⟩ => h, fun h => ⟨(), h⟩⟩

/-- The core module is among the modules. -/
def HasCore (modules : List Module) : Prop :=
  ∃ module ∈ modules, module.name = coreModuleName ∧ module.core

/-- The core module has to be there. -/
theorem returns_coreModule_bind (h : Registered modules process) (rest : Launch hash Unit) :
    Returns process (coreModule >>= fun _ => rest) post ↔
      HasCore modules ∧ Returns process rest post := by
  have hget (module : Module) : process.modules.get? coreModuleName = some module ↔
      module ∈ modules ∧ module.name = coreModuleName := by
    rw [DartMap.get?_eq_some, h.modules, mem_map]
    constructor
    · rintro ⟨other, hmem, heq⟩
      obtain ⟨hname, rfl⟩ := Prod.mk.inj heq
      exact ⟨hmem, hname⟩
    · rintro ⟨hmem, hname⟩
      exact ⟨module, hmem, Prod.ext hname rfl⟩
  unfold coreModule
  rw [returns_bind, returns_get_bind]
  cases hfound : process.modules.get? coreModuleName with
  | none =>
    refine iff_of_false id ?_
    rintro ⟨⟨module, hmem, hname, -⟩, -⟩
    rw [(hget module).mpr ⟨hmem, hname⟩] at hfound
    cases hfound
  | some found =>
    obtain ⟨hmem, hname⟩ := (hget found).mp hfound
    dsimp only
    split_ifs with hcore
    · exact (and_iff_right ⟨found, hmem, hname, hcore⟩).symm
    · refine iff_of_false id ?_
      rintro ⟨⟨module, hmem', hname', hcore'⟩, -⟩
      obtain rfl := Option.some.inj (hfound.symm.trans ((hget module).mpr ⟨hmem', hname'⟩))
      exact hcore hcore'

/-- It returns unless the `Future` of `main` ends with an error, which leaves it waiting. -/
theorem returns_runZonedGuarded {β : Type} (main : Main) (onError : Thrown → β) :
    Returns process (runZonedGuarded main fun error => pure (onError error)) post ↔
      (∀ thrown, main ≠ .fails thrown) ∧ post () (process.add [.main]) := by
  unfold runZonedGuarded log
  rw [returns_modify_bind]
  cases main with
  | completes => exact (and_iff_right nofun).symm
  | throws thrown => exact (and_iff_right nofun).symm
  | fails thrown => exact iff_of_false id fun h => h.1 thrown rfl

/-! ## A launch -/

/-- No method of the module throws. -/
structure Module.Quiet (module : Module) : Prop where
  validates : ∃ valid, module.validates = .ok valid
  initializes : module.initializes = .ok ()
  shutsDown : module.shutsDown = .ok ()
  destroys : module.destroys = .ok ()

/-- What a launch that returns calls. -/
def calls (modules : List Module) : List Event :=
  modules.flatMap (fun module => [.initializing module, .initialized module]) ++ [.main] ++
    modules.reverse.map .shutdown ++ modules.reverse.map .destroy

/-- The process behind a launch that returns. -/
def Process.finish (process : Process hash) (modules : List Module)
    (context : ContextStructure hash) :
    Process hash where
  launched := false
  reload := process.reload.callback.register.destroy
  modules := .empty
  native := .empty
  context := some context
  events := process.events ++ calls modules

theorem returns_registered_bind (h : Registered modules process)
    {f : List Module → Launch hash Unit} :
    Returns process (registered >>= f) post ↔ Returns process (f modules) post := by
  unfold registered
  rw [bind_assoc, returns_get_bind, pure_bind, h.values]

theorem Registered.add (h : Registered modules process) (events : List Event) :
    Registered modules (process.add events) := ⟨h.modules, h.native⟩

theorem forall_quiet_iff : (∀ module ∈ modules, module.Quiet) ↔
    (∀ module ∈ modules, ∃ valid, module.validates = .ok valid) ∧
      (∀ module ∈ modules, module.initializes = .ok ()) ∧
      (∀ module ∈ modules.reverse, module.shutsDown = .ok ()) ∧
      ∀ module ∈ modules.reverse, module.destroys = .ok () := by
  simp only [mem_reverse]
  constructor
  · intro h
    exact ⟨fun module hmem => (h module hmem).validates, fun module hmem =>
      (h module hmem).initializes,
      fun module hmem => (h module hmem).shutsDown, fun module hmem => (h module hmem).destroys⟩
  · rintro ⟨hvalidates, hinitializes, hshutsDown, hdestroys⟩ module hmem
    exact ⟨hvalidates module hmem, hinitializes module hmem, hshutsDown module hmem,
      hdestroys module hmem⟩

/-- `clear` removes the modules from the native map, by their names. -/
theorem returns_clear (h : Registered modules process) (hcontext : process.context = some context) :
    Returns process clear post ↔ ∃ next, removeModules context (modules.map Module.name) =
      some next ∧
      post () { process with context := some next, modules := .empty, native := .empty } := by
  have hnative : process.nativeContext = context := by
    unfold Process.nativeContext
    rw [hcontext, Option.getD_some]
  unfold clear
  rw [returns_get_bind, returns_bind, returns_ofOption, hnative, h.keys]
  rfl

/-- The end of a launch, from the shutdown on. -/
theorem returns_takeDown (h : Registered modules process)
    (hcontext : process.context = some context) :
    Returns process (do
      (← registered).reverse.forM Module.shutdown
      (← registered).reverse.forM Module.destroy
      clear
      modify fun process => { process with launched := false }) post ↔
    (∀ module ∈ modules.reverse, module.shutsDown = .ok ()) ∧
      (∀ module ∈ modules.reverse, module.destroys = .ok ()) ∧
      ∃ next, removeModules context (modules.map Module.name) = some next ∧
        post () { process with
          launched := false
          modules := .empty
          native := .empty
          context := some next
          events :=
            process.events ++ modules.reverse.map .shutdown ++ modules.reverse.map .destroy } := by
  rw [returns_registered_bind h, returns_bind, returns_forM_call returns_shutdown,
    returns_registered_bind (h.add _), returns_bind, returns_forM_call returns_destroy,
      returns_bind,
    returns_clear ((h.add _).add _) hcontext]
  rw [← map_eq_flatMap, ← map_eq_flatMap]
  rfl

/-- A launch returns where nothing throws and the native code is defined. -/
theorem returns_launch {program : Program} (hlaunched : process.launched = false) :
    Returns process (launch program) post ↔ ∃ modules, program.factory = .ok modules ∧
      Registers [] modules ∧ ∃ middle, putModules process.nativeContext modules = some middle ∧
      (∀ module ∈ modules, module.Quiet) ∧ HasCore modules ∧
        (∀ thrown, program.main ≠ .fails thrown) ∧
      ∃ next, removeModules middle (modules.map Module.name) = some next ∧
        post () (process.finish modules next) := by
  unfold launch createContext Process.nativeContext
  rw [returns_get_bind, if_neg (by simp [hlaunched]), returns_modify_bind, returns_modify_bind,
    returns_modify_bind, returns_bind, returns_ofExcept]
  dsimp only
  refine exists_congr fun modules => and_congr_right fun _ => ?_
  rw [returns_bind, returns_forM_create (⟨rfl, rfl⟩ : Registered [] _) rfl]
  refine and_congr_right fun hregisters => exists_congr fun middle => and_congr_right fun _ => ?_
  have hreg : Registered modules (Process.register { process with
      launched := true
      reload := process.reload.callback.register
      modules := .empty
      native := .empty
      context := some (process.context.getD .create) } modules middle) :=
    (⟨rfl, rfl⟩ : Registered [] _).register_all hregisters middle
  rw [returns_registered_bind hreg, returns_bind, returns_forM_call returns_validate,
    returns_registered_bind (hreg.add _), returns_bind, returns_forM_call returns_start,
    returns_coreModule_bind ((hreg.add _).add _), returns_bind, returns_runZonedGuarded,
      returns_modify_bind]
  have hnone : modules.flatMap (fun _ => ([] : List Event)) = [] :=
    flatMap_eq_nil_iff.mpr fun _ _ => rfl
  have hfinish (next : ContextStructure hash) : process.finish modules next =
      { launched := false
        reload := process.reload.callback.register.destroy
        modules := .empty
        native := .empty
        context := some next
        events := process.events ++ modules.flatMap (fun _ => []) ++
          modules.flatMap (fun module => [.initializing module, .initialized module]) ++ [.main] ++
          modules.reverse.map .shutdown ++ modules.reverse.map .destroy } := by
    unfold Process.finish calls
    rw [hnone, append_nil]
    simp only [append_assoc]
  rw [forall_quiet_iff]
  constructor
  · rintro ⟨hvalidates, hinitializes, hcore, hmain, hrest⟩
    obtain ⟨hshutsDown, hdestroys, next, hremove, hpost⟩ :=
      (returns_takeDown (by exact ⟨hreg.modules, hreg.native⟩) (by rfl)).mp hrest
    refine ⟨⟨hvalidates, hinitializes, hshutsDown, hdestroys⟩, hcore, hmain, next, hremove, ?_⟩
    rw [hfinish]
    exact hpost
  · rintro ⟨⟨hvalidates, hinitializes, hshutsDown, hdestroys⟩, hcore, hmain, next, hremove, hpost⟩
    refine ⟨hvalidates, hinitializes, hcore, hmain,
      (returns_takeDown (by exact ⟨hreg.modules, hreg.native⟩) (by rfl)).mpr
        ⟨hshutsDown, hdestroys, next, hremove, ?_⟩⟩
    rw [hfinish] at hpost
    exact hpost

end FengShui.Launcher
