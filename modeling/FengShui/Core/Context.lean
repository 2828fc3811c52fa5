import FengShui.Core.MapResizes

/-!
# The modules of the native context (`core/native/context/context.c`)

A module is kept twice: in the map of the modules under its name, and in an array, at the index that
is its id. `context_load` and the restore of `core/context.dart` walk over the array up to `size`.
Taking a module away leaves the ids of the others as they are and makes `size` smaller, whatever was
taken: `kept_iff` says for which calls the array, the map and `size` still tell of the same modules.
-/

namespace FengShui.Context

open SimpleMap OpenAddressing Transition List

/-- `const char*`: the bytes in front of the zero. -/
abbrev CString := List UInt8

/-- `MODULES_MAXIMUM`. -/
def modulesMaximum : ℕ := 64

/-- `module_container`, with addresses for its pointers other than the names. The hash of the names
is a parameter of the type. -/
structure ModuleContainer (hash : CString → ℕ) where
  id : ℕ
  name : CString
  module : ℕ
  type : CString
  deriving DecidableEq, Repr

instance (hash : CString → ℕ) : MapNode (ModuleContainer hash) CString where
  key := ModuleContainer.name
  hash := hash

/-- `context_structure`. -/
structure ContextStructure (hash : CString → ℕ) where
  size : ℕ
  /-- `none` is a container of zeros. -/
  containers : ℕ → Option (ModuleContainer hash)
  modules : Map (ModuleContainer hash)

variable {hash : CString → ℕ}

namespace ContextStructure

/-- `context_create`. -/
def create : ContextStructure hash := ⟨0, fun _ => none, .create⟩

/-- `context_get_module`, with 0 for a null pointer. -/
def getModule (context : ContextStructure hash) (name : CString) : Option ℕ :=
  (context.modules.findValue name).map fun found => (found.map ModuleContainer.module).getD 0

/-- `context_put_module`. A write behind the array is undefined. -/
def putModule (context : ContextStructure hash) (name : CString) (module : ℕ) (type : CString) :
    Option (ContextStructure hash) :=
  let container := ⟨context.size % 2 ^ 32, name, module, type⟩
  if context.size < modulesMaximum then
    (context.modules.putCopy container).map fun modules =>
      { size := (context.size + 1) % 2 ^ 64
        containers := Function.update context.containers context.size (some container)
        modules }
  else none

/-- `context_remove_module`. The name is freed in front of `simple_map_modules_del`, which hashes it
where the map is resized: that is undefined as well. -/
def removeModule (context : ContextStructure hash) (name : CString) :
    Option (ContextStructure hash) :=
  let size := (context.size + (2 ^ 64 - 1)) % 2 ^ 64
  match context.modules.table.find name with
  | none => none
  | some slot =>
    match (slotAt context.modules.table.slots slot).node with
    -- `simple_map_end`.
    | none => some { context with size }
    | some container =>
      if context.modules.resizePosition ≠ 0 then none
      else (context.modules.del slot).map fun modules =>
        { size, containers := Function.update context.containers container.id none, modules }

/-- What `context_load` and `_restore` see. -/
def walk (context : ContextStructure hash) : List (Option (ModuleContainer hash)) :=
  (List.range context.size).map context.containers

end ContextStructure

/-! ## Calls -/

inductive ContextCall where
  | put (name : CString) (module : ℕ) (type : CString)
  | remove (name : CString)
  deriving DecidableEq, Repr

/-- A module that is registered. -/
structure Registration where
  name : CString
  module : ℕ
  type : CString
  deriving DecidableEq, Repr

/-- The registered modules behind a call, in the order of their registration. -/
def register (registrations : List Registration) : ContextCall → List Registration
  | .put name module type => registrations.filter (·.name ≠ name) ++ [⟨name, module, type⟩]
  | .remove name => registrations.filter (·.name ≠ name)

/-- The context, with the modules that should be in it. -/
structure Tracked (hash : CString → ℕ) where
  registrations : List Registration
  context : ContextStructure hash

def Tracked.create : Tracked hash := ⟨[], .create⟩

def perform (context : ContextStructure hash) : ContextCall → Option (ContextStructure hash)
  | .put name module type => context.putModule name module type
  | .remove name => context.removeModule name

def step (state : Tracked hash) (call : ContextCall) : Option (Tracked hash) :=
  (perform state.context call).map fun context => ⟨register state.registrations call, context⟩

/-- The container of a module at an index. -/
def containerAt (hash : CString → ℕ) (index : ℕ) (registration : Registration) :
    Option (ModuleContainer hash) :=
  some ⟨index, registration.name, registration.module, registration.type⟩

/-- The array has the registered modules at the indexes below `size`, in some order and each with
its index for an id, and the map has the same containers. -/
structure Agrees (state : Tracked hash) : Prop where
  walk : ∃ order : List Registration, order.Perm state.registrations ∧
    state.context.walk = order.mapIdx (containerAt hash)
  map : ∀ container, container ∈ state.context.modules.nodes ↔ some container ∈ state.context.walk

/-- The modules are kept along the calls, and taking an absent one away changes nothing. -/
def Kept (hash : CString → ℕ) (calls : List ContextCall) : Prop :=
  (∀ front back, calls = front ++ back →
    ∃ state : Tracked hash, run step .create front = some state ∧ Agrees state) ∧
  ∀ front name back (state : Tracked hash), calls = front ++ .remove name :: back →
    run step .create front = some state →
      (∀ registration ∈ state.registrations, registration.name ≠ name) →
    step state (.remove name) = some state

/-- A new name is put while there is room in the array, and the module that is taken away is the one
that was registered last, while the map is not resized. -/
def InOrder (state : Tracked hash) : ContextCall → Prop
  | .put name _ _ => state.context.size < modulesMaximum ∧ ∀ registration ∈ state.registrations,
      registration.name ≠ name
  | .remove name => state.context.modules.resizePosition = 0 ∧
      (state.registrations.getLast?.map Registration.name) = some name

/-- The table of the map has a larger size where it is full. -/
def Roomy (state : Tracked hash) : ContextCall → Prop
  | .put .. => state.context.modules.resizePosition = 0 →
      state.context.modules.table.upperBound ≤ state.context.modules.table.nDirty →
      state.context.modules.prime < 28
  | .remove _ => True

instance : (state : Tracked hash) → (call : ContextCall) → Decidable (InOrder state call)
  | _, .put .. => inferInstanceAs (Decidable (_ ∧ _))
  | _, .remove _ => inferInstanceAs (Decidable (_ ∧ _))

instance : (state : Tracked hash) → (call : ContextCall) → Decidable (Roomy state call)
  | _, .put .. => inferInstanceAs (Decidable (_ → _ → _))
  | _, .remove _ => inferInstanceAs (Decidable True)

/-! ## The invariant -/

/-- The order of the array is that of the registrations. -/
structure Orderly (state : Tracked hash) : Prop where
  walk : state.context.walk = state.registrations.mapIdx (containerAt hash)
  map : ∀ container, container ∈ state.context.modules.nodes ↔ some container ∈ state.context.walk
  distinct : (state.registrations.map Registration.name).Nodup
  size_le : state.context.size ≤ modulesMaximum
  valid : Map.Valid state.context.modules

variable {state next : Tracked hash} {name type : CString} {module : ℕ}

theorem length_walk (context : ContextStructure hash) : context.walk.length = context.size := by
  rw [ContextStructure.walk, length_map, length_range]

theorem Orderly.agrees (h : Orderly state) : Agrees state :=
  ⟨⟨state.registrations, .refl _, h.walk⟩, h.map⟩

theorem Agrees.size (h : Agrees state) : state.context.size = state.registrations.length := by
  obtain ⟨order, hperm, hwalk⟩ := h.walk
  rw [← length_walk, hwalk, length_mapIdx, hperm.length_eq]

/-- No container of zeros is seen. -/
theorem Agrees.none_notMem (h : Agrees state) : none ∉ state.context.walk := by
  obtain ⟨order, -, hwalk⟩ := h.walk
  rw [hwalk, mem_mapIdx]
  rintro ⟨index, hidx, hcont⟩
  cases hcont

theorem orderly_create : Orderly (Tracked.create : Tracked hash) where
  walk := rfl
  map := fun container => iff_of_false nofun nofun
  distinct := nodup_nil
  size_le := Nat.zero_le _
  valid := .inl Map.idle_create

namespace Orderly

theorem size (h : Orderly state) : state.context.size = state.registrations.length := h.agrees.size

/-- The containers in the map are those of the registered modules. -/
theorem mem_nodes_iff (h : Orderly state) (container : ModuleContainer hash) :
    container ∈ state.context.modules.nodes ↔ ∃ index, ∃ hidx : index < state.registrations.length,
      containerAt hash index state.registrations[index] = some container := by
  rw [h.map, h.walk, mem_mapIdx]

variable {registration : Registration}

/-- A registered module has a container under its name, at an index of the array. -/
theorem exists_container (h : Orderly state) (hmem : registration ∈ state.registrations) :
    ∃ container ∈ state.context.modules.nodes, container.name = registration.name ∧
      container.id < state.context.size ∧ state.context.containers container.id =
        some container := by
  obtain ⟨index, hidx, rfl⟩ := getElem_of_mem hmem
  let container : ModuleContainer hash := ⟨index, state.registrations[index].name,
    state.registrations[index].module, state.registrations[index].type⟩
  have hnode : container ∈ state.context.modules.nodes :=
    (h.mem_nodes_iff container).mpr ⟨index, hidx, rfl⟩
  have hlt : index < state.context.size := h.size ▸ hidx
  refine ⟨container, hnode, rfl, hlt, ?_⟩
  have hwalk :
      state.context.walk[index]? = (state.registrations.mapIdx (containerAt hash))[index]? := by
    rw [h.walk]
  rw [ContextStructure.walk, getElem?_map, getElem?_range hlt, getElem?_mapIdx,
    getElem?_eq_getElem hidx] at hwalk
  exact Option.some.inj hwalk

/-- A container of the map is that of a registered module. -/
theorem exists_registration (h : Orderly state) {container : ModuleContainer hash}
    (hnode : container ∈ state.context.modules.nodes) :
    ∃ registration ∈ state.registrations, registration.name = container.name := by
  obtain ⟨index, hidx, hcont⟩ := (h.mem_nodes_iff container).mp hnode
  refine ⟨state.registrations[index], getElem_mem hidx, ?_⟩
  rw [← Option.some.inj hcont]

/-- A registered module is found under its name. -/
theorem getModule (h : Orderly state) (hmem : registration ∈ state.registrations) :
    state.context.getModule registration.name = some registration.module := by
  obtain ⟨index, hidx, rfl⟩ := getElem_of_mem hmem
  let container : ModuleContainer hash := ⟨index, state.registrations[index].name,
    state.registrations[index].module, state.registrations[index].type⟩
  have hnode : container ∈ state.context.modules.nodes :=
    (h.mem_nodes_iff container).mpr ⟨index, hidx, rfl⟩
  have hfound : state.context.modules.findValue container.name = some (some container) :=
    h.valid.findValue hnode
  unfold ContextStructure.getModule
  rw [hfound]
  rfl

end Orderly

/-! ## Putting a module -/

variable {container : ModuleContainer hash}

theorem walk_put {context : ContextStructure hash} {modules : Map (ModuleContainer hash)}
    (hsize : context.size < modulesMaximum) :
    ContextStructure.walk ⟨(context.size + 1) % 2 ^ 64,
      Function.update context.containers context.size (some container), modules⟩ =
        context.walk ++ [some container] := by
  have hsucc : (context.size + 1) % 2 ^ 64 = context.size + 1 := by
    unfold modulesMaximum at hsize
    exact Nat.mod_eq_of_lt (by omega)
  have hkept : (List.range context.size).map (Function.update context.containers context.size
      (some container)) = context.walk := by
    apply map_congr_left
    intro index hidx
    rw [Function.update_of_ne (mem_range.mp hidx).ne]
  unfold ContextStructure.walk at hkept ⊢
  dsimp only
  rw [hsucc, range_succ, map_append, hkept, map_singleton, Function.update_self]

/-- What a put leads to, where the map has room. -/
theorem Orderly.exists_put (h : Orderly state) (hsize : state.context.size < modulesMaximum)
    (hroomy : Roomy state (.put name module type)) :
    ∃ context, state.context.putModule name module type = some context ∧
      context.walk =
        state.context.walk ++ [containerAt hash state.context.size ⟨name, module, type⟩] ∧
      context.size = state.context.size + 1 ∧ Map.Valid context.modules ∧
      ∀ other, other ∈ context.modules.nodes ↔
        containerAt hash state.context.size ⟨name, module, type⟩ = some other ∨
          other ∈ state.context.modules.nodes ∧ other.name ≠ name := by
  have hid : state.context.size % 2 ^ 32 = state.context.size := by
    unfold modulesMaximum at hsize
    exact Nat.mod_eq_of_lt (by omega)
  obtain ⟨modules, hput, hvalid, hnodes⟩ :=
    h.valid.putCopy ⟨state.context.size, name, module, type⟩ hroomy
  refine ⟨_, ?_, walk_put hsize, ?_, hvalid, fun other => ?_⟩
  · unfold ContextStructure.putModule
    rw [if_pos hsize, hid, hput]
    rfl
  · unfold modulesMaximum at hsize
    exact Nat.mod_eq_of_lt (by omega)
  · have hnew : containerAt hash state.context.size ⟨name, module, type⟩ = some other ↔
        other = ⟨state.context.size, name, module, type⟩ := by
      rw [containerAt, Option.some_inj]
      exact eq_comm
    rw [hnew]
    exact hnodes other

theorem filter_of_absent {registrations : List Registration}
    (habsent : ∀ registration ∈ registrations, registration.name ≠ name) :
    registrations.filter (·.name ≠ name) = registrations := by
  rw [filter_eq_self]
  intro registration hmem
  exact decide_eq_true (habsent registration hmem)

/-- A new name goes behind the others. -/
theorem Orderly.put (h : Orderly state) (hroomy : Roomy state (.put name module type))
    (horder : InOrder state (.put name module type)) :
    ∃ next, step state (.put name module type) = some next ∧ Orderly next := by
  obtain ⟨hsize, habsent⟩ := horder
  obtain ⟨context, hput, hwalk, hsucc, hvalid, hnodes⟩ := h.exists_put hsize hroomy
  refine ⟨⟨state.registrations ++ [⟨name, module, type⟩], context⟩, ?_, ?_, fun other => ?_, ?_,
    ?_, hvalid⟩
  · unfold step perform
    dsimp only
    rw [hput, Option.map_some, register, filter_of_absent habsent]
  · dsimp only
    rw [hwalk, h.walk, mapIdx_concat, h.size]
  · -- No other node has the name.
    dsimp only
    rw [hnodes, hwalk, mem_append, mem_singleton, h.map, eq_comm, or_comm]
    apply or_congr_left
    refine and_iff_left_of_imp fun hmem hname => ?_
    obtain ⟨registration, hreg, heq⟩ := h.exists_registration ((h.map other).mpr hmem)
    exact habsent registration hreg (heq.trans hname)
  · rw [map_append, map_singleton]
    refine nodup_append.mpr ⟨h.distinct, nodup_singleton name, ?_⟩
    intro first hfirst second hsecond heq
    obtain ⟨registration, hreg, rfl⟩ := mem_map.mp hfirst
    exact habsent registration hreg (heq.trans (mem_singleton.mp hsecond))
  · dsimp only
    omega

/-- A name that is there already stays in the array, and its first container leaves the map. -/
theorem Orderly.put_breaks (h : Orderly state) (hroomy : Roomy state (.put name module type))
    (horder : ¬InOrder state (.put name module type))
    (hstep : step state (.put name module type) = some next) : ¬Agrees next := by
  intro hagrees
  obtain ⟨context, hperform, rfl⟩ := Option.map_eq_some_iff.mp hstep
  have hsize : state.context.size < modulesMaximum := by
    by_contra hsize
    change state.context.putModule name module type = some context at hperform
    unfold ContextStructure.putModule at hperform
    rw [if_neg hsize] at hperform
    cases hperform
  obtain ⟨registration, hmem, hname⟩ : ∃ registration ∈ state.registrations,
      registration.name = name := by
    by_contra hnone
    exact horder ⟨hsize, fun registration hmem heq => hnone ⟨registration, hmem, heq⟩⟩
  obtain ⟨after, hput, hwalk, -, -, hnodes⟩ := h.exists_put hsize hroomy
  obtain rfl : after = context := Option.some.inj (hput.symm.trans hperform)
  obtain ⟨container, hnode, hcont, hid, -⟩ := h.exists_container hmem
  have hseen : some container ∈ after.walk := by
    rw [hwalk]
    exact mem_append_left _ ((h.map container).mp hnode)
  rcases (hnodes container).mp ((hagrees.map container).mpr hseen) with hnew | ⟨-, hother⟩
  · -- The new container has another id.
    have heq : state.context.size = container.id :=
      congrArg ModuleContainer.id (Option.some.inj hnew)
    omega
  · exact hother (hcont.trans hname)

/-! ## Taking a module away -/

section Removal

variable {context : ContextStructure hash}

/-- Of a name that is not there only `size` is changed. -/
theorem removeModule_of_absent (hvalid : Map.Valid context.modules)
    (habsent : ∀ container ∈ context.modules.nodes, container.name ≠ name) :
    context.removeModule name =
      some { context with size := (context.size + (2 ^ 64 - 1)) % 2 ^ 64 } := by
  have hfind : context.modules.table.find name = some context.modules.table.nBuckets := by
    refine hvalid.table.find_of_absent hvalid.nDirty_lt fun index hholds => ?_
    obtain ⟨container, hnode, hname⟩ := hholds
    exact habsent container (Map.mem_nodes.mpr ⟨index, hnode⟩) hname
  have hend : slotAt context.modules.table.slots context.modules.table.nBuckets = ⟨none, false⟩ :=
    slotAt_of_le le_rfl
  unfold ContextStructure.removeModule
  rw [hfind]
  dsimp only
  rw [hend]

/-- The container goes out of the map, and its place in the array is cleared. -/
theorem removeModule_of_mem (hvalid : Map.Valid context.modules) {container : ModuleContainer hash}
    (hnode : container ∈ context.modules.nodes) (hidle : context.modules.resizePosition = 0) :
    ∃ modules, context.removeModule container.name =
        some { size := (context.size + (2 ^ 64 - 1)) % 2 ^ 64
               containers := Function.update context.containers container.id none
               modules } ∧
      Map.Valid modules ∧
      ∀ other, other ∈ modules.nodes ↔ other ∈ context.modules.nodes ∧ other ≠ container := by
  obtain ⟨slot, hslot⟩ := Map.mem_nodes.mp hnode
  have hfind : context.modules.table.find container.name = some slot :=
    hvalid.table.find_of_node hslot
  obtain ⟨modules, hdel, hdeleted⟩ := hvalid.del hslot
  refine ⟨modules, ?_, hdeleted.valid, hdeleted.nodes⟩
  unfold ContextStructure.removeModule
  rw [hfind]
  dsimp only
  rw [hslot]
  dsimp only
  rw [if_neg (not_not.mpr hidle), hdel]
  rfl

end Removal

theorem Orderly.remove_absent (h : Orderly state)
    (habsent : ∀ registration ∈ state.registrations, registration.name ≠ name) :
    state.context.removeModule name =
      some { state.context with size := (state.context.size + (2 ^ 64 - 1)) % 2 ^ 64 } := by
  apply removeModule_of_absent h.valid
  intro container hnode hname
  obtain ⟨registration, hmem, heq⟩ := h.exists_registration hnode
  exact habsent registration hmem (heq.trans hname)

theorem Orderly.remove_resizing (h : Orderly state)
    (hnode : container ∈ state.context.modules.nodes)
    (hresizing : state.context.modules.resizePosition ≠ 0) :
    state.context.removeModule container.name = none := by
  obtain ⟨slot, hslot⟩ := Map.mem_nodes.mp hnode
  have hfind : state.context.modules.table.find container.name = some slot :=
    h.valid.table.find_of_node hslot
  unfold ContextStructure.removeModule
  rw [hfind]
  dsimp only
  rw [hslot]
  dsimp only
  rw [if_pos hresizing]

/-- `size - 1`, where there is a module. -/
theorem pred_size {size : ℕ} (hsize : size + 1 ≤ modulesMaximum) :
    (size + 1 + (2 ^ 64 - 1)) % 2 ^ 64 = size := by
  unfold modulesMaximum at hsize
  omega

/-- The module that was registered last goes. -/
theorem Orderly.remove (h : Orderly state) (horder : InOrder state (.remove name)) :
    ∃ next, step state (.remove name) = some next ∧ Orderly next := by
  obtain ⟨hidle, hlast⟩ := horder
  obtain ⟨last, hgetLast, rfl⟩ := Option.map_eq_some_iff.mp hlast
  obtain ⟨front, hfront⟩ := getLast?_eq_some_iff.mp hgetLast
  have hsize : state.context.size = front.length + 1 := by
    rw [h.size, hfront, length_append, length_singleton]
  have hlen : (front.mapIdx (containerAt hash)).length = front.length := length_mapIdx
  have hwalk : state.context.walk = front.mapIdx (containerAt hash) ++
      [containerAt hash front.length last] := by
    rw [h.walk, hfront, mapIdx_concat]
  let container : ModuleContainer hash := ⟨front.length, last.name, last.module, last.type⟩
  have hnode : container ∈ state.context.modules.nodes := by
    rw [h.map, hwalk]
    exact mem_append_right _ (mem_singleton_self _)
  obtain ⟨modules, hremove, hvalid, hnodes⟩ := removeModule_of_mem h.valid hnode hidle
  -- The array below the new size is what it was.
  have hkept :
    (List.range front.length).map (Function.update state.context.containers front.length none) =
      front.mapIdx (containerAt hash) := by
    have hsame :
      (List.range front.length).map (Function.update state.context.containers front.length none) =
        (List.range front.length).map state.context.containers := by
      apply map_congr_left
      intro index hidx
      rw [Function.update_of_ne (mem_range.mp hidx).ne]
    have hfull := hwalk
    rw [ContextStructure.walk, hsize, range_succ, map_append] at hfull
    rw [hsame]
    exact (append_inj' hfull rfl).1
  have hdistinct := h.distinct
  rw [hfront, map_append, nodup_append] at hdistinct
  obtain ⟨hnodup, -, hapart⟩ := hdistinct
  have hfilter : state.registrations.filter (·.name ≠ last.name) = front := by
    rw [hfront, filter_append, filter_of_absent]
    · simp
    · intro registration hmem
      exact hapart _ (mem_map_of_mem hmem) _ (mem_singleton_self _)
  let context : ContextStructure hash :=
    ⟨front.length, Function.update state.context.containers front.length none, modules⟩
  refine ⟨⟨front, context⟩, ?_, hkept, fun other => ?_, hnodup, ?_, hvalid⟩
  · unfold step perform
    dsimp only
    rw [hremove, Option.map_some, register, hfilter, hsize, pred_size (hsize ▸ h.size_le)]
  · have hwalk' : context.walk = front.mapIdx (containerAt hash) := hkept
    dsimp only
    rw [hnodes, h.map, hwalk, hwalk', mem_append, mem_singleton]
    constructor
    · rintro ⟨hmem | hlast, hne⟩
      · exact hmem
      · exact absurd (Option.some.inj hlast) hne
    · intro hmem
      refine ⟨.inl hmem, fun heq => ?_⟩
      -- The ids in front are smaller.
      obtain ⟨index, hidx, hcont⟩ := mem_mapIdx.mp hmem
      have hid : index = container.id := by
        rw [← heq, ← Option.some.inj hcont]
      exact hidx.ne hid
  · have hle := h.size_le
    change front.length ≤ modulesMaximum
    omega

/-- Every other name makes `size` wrong, or leaves a hole in the array. -/
theorem Orderly.remove_breaks (h : Orderly state) (horder : ¬InOrder state (.remove name))
    (hstep : step state (.remove name) = some next) : ¬Agrees next := by
  intro hagrees
  have hle := h.size_le
  unfold modulesMaximum at hle
  obtain ⟨context, hperform, rfl⟩ := Option.map_eq_some_iff.mp hstep
  change state.context.removeModule name = some context at hperform
  by_cases habsent : ∀ registration ∈ state.registrations, registration.name ≠ name
  · -- Nothing is taken away, and `size` is another one.
    obtain rfl := Option.some.inj ((h.remove_absent habsent).symm.trans hperform)
    have hsize := hagrees.size
    rw [register, filter_of_absent habsent, ← h.size] at hsize
    dsimp only at hsize
    omega
  · obtain ⟨registration, hmem, rfl⟩ : ∃ registration ∈ state.registrations,
        registration.name = name := by
      by_contra hnone
      exact habsent fun registration hmem heq => hnone ⟨registration, hmem, heq⟩
    obtain ⟨container, hnode, hname, hid, hplace⟩ := h.exists_container hmem
    rw [← hname] at hperform horder
    by_cases hidle : state.context.modules.resizePosition = 0
    · obtain ⟨modules, hremove, -⟩ := removeModule_of_mem h.valid hnode hidle
      obtain rfl := Option.some.inj (hremove.symm.trans hperform)
      have hpos : (state.context.size + (2 ^ 64 - 1)) % 2 ^ 64 = state.context.size - 1 := by omega
      by_cases hlast : container.id + 1 = state.context.size
      · -- It was registered last.
        apply horder
        obtain ⟨index, hidx, hcont⟩ := (h.mem_nodes_iff container).mp hnode
        have hid' : index = container.id := congrArg ModuleContainer.id (Option.some.inj hcont)
        have hname' : state.registrations[index].name = container.name :=
          congrArg ModuleContainer.name (Option.some.inj hcont)
        have hend : state.registrations.length - 1 = index := by
          rw [← h.size]
          omega
        refine ⟨hidle, ?_⟩
        rw [getLast?_eq_getElem?, hend, getElem?_eq_getElem hidx, Option.map_some, hname']
      · -- Its place is seen with zeros in it.
        apply hagrees.none_notMem
        dsimp only [ContextStructure.walk]
        rw [hpos, mem_map]
        exact ⟨container.id, mem_range.mpr (by omega), Function.update_self ..⟩
    · rw [h.remove_resizing hnode hidle] at hperform
      cases hperform

/-! ## Runs -/

/-- While the table of the map has a larger size left, the array and the map agree all along exactly
where the calls are in order. -/
theorem along_inOrder_iff {calls : List ContextCall}
    (hroomy : Along step Roomy (Tracked.create : Tracked hash) calls) :
    Along step InOrder (Tracked.create : Tracked hash) calls ↔ ∀ front back, calls = front ++ back →
      ∃ state : Tracked hash, run step .create front = some state ∧ Agrees state := by
  refine along_iff_good_fronts Orderly (fun _ => Orderly.agrees)
    (fun state call h hroomy horder => ?_)
    (fun state call h hroomy horder next hstep => ?_) orderly_create calls hroomy
  · cases call with
    | put name module type => exact h.put hroomy horder
    | remove name => exact h.remove horder
  · cases call with
    | put name module type => exact h.put_breaks hroomy horder hstep
    | remove name => exact h.remove_breaks horder hstep

/-- Then the modules are kept if and only if the calls are in order. -/
theorem kept_iff (hash : CString → ℕ) (calls : List ContextCall)
    (hroomy : Along step Roomy (Tracked.create : Tracked hash) calls) :
    Kept hash calls ↔ Along step InOrder (Tracked.create : Tracked hash) calls := by
  refine ⟨fun hkept => (along_inOrder_iff hroomy).mpr hkept.1,
    fun halong => ⟨(along_inOrder_iff hroomy).mp halong, ?_⟩⟩
  rintro front name back state rfl hrun habsent
  -- In order, no absent module is taken away.
  obtain ⟨-, hlast⟩ := halong.at_step hrun
  obtain ⟨last, hgetLast, rfl⟩ := Option.map_eq_some_iff.mp hlast
  exact absurd rfl (habsent last (List.mem_of_getLast? hgetLast))

/-- Two modules, and the second one away. -/
theorem kept_of_stack : Kept List.length [.put [1] 16 [9], .put [2] 32 [9], .remove [2]] :=
  (kept_iff List.length [.put [1] 16 [9], .put [2] 32 [9], .remove [2]] (by decide)).mpr (by decide)

/-- The first of two modules goes: the other one is at the index 1, and `size` is 1. -/
theorem removed_in_the_middle : ¬∀ (hash : CString → ℕ) (calls : List ContextCall),
    calls.length ≤ modulesMaximum → Kept hash calls := by
  intro h
  have hroomy : Along step Roomy (Tracked.create : Tracked List.length)
      [.put [1] 16 [9], .put [2] 32 [9], .remove [1]] := by decide
  have horder : ¬Along step InOrder (Tracked.create : Tracked List.length)
      [.put [1] 16 [9], .put [2] 32 [9], .remove [1]] := by decide
  exact horder ((along_inOrder_iff hroomy).mpr (h List.length _ (by decide)).1)

end FengShui.Context
