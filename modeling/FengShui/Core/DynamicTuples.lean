import FengShui.Core.Tuples
import FengShui.Lib.Attempt

/-!
# Dynamic values (`core/tuples.dart`)

`tupleDynamicSize` and `tupleDynamicSerialize` take whatever object there is. An object that is none
of the types they know passes the test against `Serializable`, which at run time is one against
`dynamic`, and its getter calls the function again with the same object. Both functions run on fuel,
of which each call takes one; `serializes_iff` says for which objects they end.
-/

namespace FengShui

open Lib Attempt

/-- `TupleErrors.unknownType`. -/
def TupleErrors.unknownType (type : DartString) : DartString := literal "Unknown type: " ++ type

/-- An object that implements `Tuple`: what its own methods return or throw, which is never that a
type is unknown. -/
structure TupleObject where
  tupleSize : Except DartException ℕ
  serialize : ℕ → Writing ℕ
  size_ne (type : DartString) : tupleSize ≠ .error (.argumentError (TupleErrors.unknownType type))
  serialize_ne (type : DartString) (offset : ℕ) (buffer next : Uint8List) :
    serialize offset buffer ≠ .error (.argumentError (TupleErrors.unknownType type)) next

/-- An object, by the first type that the functions know it as. -/
inductive DartObject where
  | null
  | bool (value : Bool)
  | int (value : Int64)
  | double (bits : UInt64)
  | string (value : DartString)
  | binary (value : Uint8List)
  | iterable (items : List DartObject)
  | map (entries : List (DartObject × DartObject))
  | tuple (object : TupleObject)
  /-- `StorageUpdateOperation`, a tuple whose value is `Serializable`. -/
  | updateOperation (operation : DartString) (field : Int64) (value : DartObject)
  | other (runtimeType : DartString)

namespace DartObject

/-- `value is Serializable`. -/
def isSerializable (_ : DartObject) : Bool := true

def tupleDynamicSize : ℕ → DartObject → Attempt DartException Unit ℕ
  | 0, _ => running
  | _ + 1, null => return tupleSizeOfNull
  | _ + 1, int value => return tupleSizeOfInt value.toInt
  | _ + 1, double _ => return tupleSizeOfDouble
  | _ + 1, bool _ => return tupleSizeOfBool
  | _ + 1, string value => return tupleSizeOfString value.length
  | _ + 1, binary value => return tupleSizeOfBinary value.length
  | fuel + 1, iterable items =>
    items.foldlM (fun size entry => do
      let entrySize ← tupleDynamicSize fuel entry
      return size + entrySize) (tupleSizeOfList items.length)
  | fuel + 1, map entries =>
    entries.foldlM (fun size entry => do
      let keySize ← tupleDynamicSize fuel entry.1
      let valueSize ← tupleDynamicSize fuel entry.2
      return size + keySize + valueSize) (tupleSizeOfMap entries.length)
  | _ + 1, tuple object => ofExcept object.tupleSize
  | fuel + 1, updateOperation operation field value => do
    let valueSize ← tupleDynamicSize fuel value
    return tupleSizeOfList 3 + tupleSizeOfString operation.length +
      tupleSizeOfInt field.toInt + valueSize
  | fuel + 1, other type =>
    -- The getter of the extension type calls the function again.
    if isSerializable (other type) then tupleDynamicSize fuel (other type)
    else raise (.argumentError (TupleErrors.unknownType type))

def tupleDynamicSerialize : ℕ → DartObject → ℕ → Attempt DartException Uint8List ℕ
  | 0, _, _ => running
  | _ + 1, null, offset => lift (tupleWriteNull offset)
  | _ + 1, int value, offset => lift (tupleWriteInt value.toInt offset)
  | _ + 1, double bits, offset => lift (tupleWriteDouble bits offset)
  | _ + 1, bool value, offset => lift (tupleWriteBool value offset)
  | _ + 1, string value, offset => lift (tupleWriteString value offset)
  | _ + 1, binary value, offset => lift (tupleWriteBinary value offset)
  | fuel + 1, iterable items, offset => do
    let offset ← lift (tupleWriteList items.length offset)
    items.foldlM (fun offset entry => tupleDynamicSerialize fuel entry offset) offset
  | fuel + 1, map entries, offset => do
    let offset ← lift (tupleWriteMap entries.length offset)
    entries.foldlM (fun offset entry => do
      let offset ← tupleDynamicSerialize fuel entry.1 offset
      tupleDynamicSerialize fuel entry.2 offset) offset
  | _ + 1, tuple object, offset => lift (object.serialize offset)
  | fuel + 1, updateOperation operation field value, offset => do
    let offset ← lift (tupleWriteList 3 offset)
    let offset ← lift (tupleWriteString operation offset)
    let offset ← lift (tupleWriteInt field.toInt offset)
    tupleDynamicSerialize fuel value offset
  | fuel + 1, other type, offset =>
    if isSerializable (other type) then tupleDynamicSerialize fuel (other type) offset
    else raise (.argumentError (TupleErrors.unknownType type))

mutual

/-- The types of the objects in a value that are none of those the functions know. -/
def unknownTypes : DartObject → List DartString
  | iterable items => unknownTypesOfItems items
  | map entries => unknownTypesOfEntries entries
  | updateOperation _ _ value => unknownTypes value
  | other type => [type]
  | _ => []

def unknownTypesOfItems : List DartObject → List DartString
  | [] => []
  | item :: items => unknownTypes item ++ unknownTypesOfItems items

def unknownTypesOfEntries : List (DartObject × DartObject) → List DartString
  | [] => []
  | (key, value) :: entries =>
    unknownTypes key ++ unknownTypes value ++ unknownTypesOfEntries entries

end

/-- A call with enough fuel is over, and throws that a type is unknown if there is one. -/
def Settles {σ : Type} (object : DartObject) (call : ℕ → Attempt DartException σ ℕ)
    (state : σ) : Prop :=
  ∃ fuel result, call fuel state = some result ∧ (object.unknownTypes ≠ [] →
    ∃ type ∈ object.unknownTypes, ∃ next,
      result = .error (.argumentError (TupleErrors.unknownType type)) next)

/-- The size of an object, and its serialization into any buffer, settle. -/
def Serializes (object : DartObject) : Prop :=
  object.Settles (fun fuel => object.tupleDynamicSize fuel) () ∧
    ∀ offset buffer, object.Settles (fun fuel => object.tupleDynamicSerialize fuel offset) buffer

/-! ## A value without unknown objects -/

theorem unknownTypes_item {items : List DartObject} (h : unknownTypesOfItems items = []) :
    ∀ item ∈ items, item.unknownTypes = [] := by
  induction items with
  | nil => exact nofun
  | cons first items ih =>
    obtain ⟨hfirst, hrest⟩ := List.append_eq_nil_iff.mp h
    exact List.forall_mem_cons.mpr ⟨hfirst, ih hrest⟩

variable {entries : List (DartObject × DartObject)} {object : DartObject}

theorem unknownTypes_entry (h : unknownTypesOfEntries entries = []) :
    ∀ entry ∈ entries, entry.1.unknownTypes = [] ∧ entry.2.unknownTypes = [] := by
  induction entries with
  | nil => exact nofun
  | cons first entries ih =>
    obtain ⟨hfirst, hrest⟩ := List.append_eq_nil_iff.mp h
    exact List.forall_mem_cons.mpr ⟨List.append_eq_nil_iff.mp hfirst, ih hrest⟩

/-- What is in a list of entries is smaller than the list. -/
theorem sizeOf_entry_lt {entry : DartObject × DartObject} (h : entry ∈ entries) :
    sizeOf entry.1 < sizeOf entries ∧ sizeOf entry.2 < sizeOf entries := by
  have hent := List.sizeOf_lt_of_mem h
  obtain ⟨key, value⟩ := entry
  rw [Prod.mk.sizeOf_spec] at hent
  constructor
  · show sizeOf key < sizeOf entries
    omega
  · show sizeOf value < sizeOf entries
    omega

/-- The fuel that lasts is the size of the object: each call is one for a smaller object. -/
theorem ends_tupleDynamicSize {fuel : ℕ} (hfuel : sizeOf object ≤ fuel)
    (h : object.unknownTypes = []) : Ends (object.tupleDynamicSize fuel) := by
  induction fuel generalizing object with
  | zero => cases object <;> simp at hfuel
  | succ fuel ih =>
    cases object with
    | null | bool | int | double | string | binary => exact ends_pure _
    | iterable items =>
      have hitems := unknownTypes_item h
      rw [iterable.sizeOf_spec] at hfuel
      apply ends_foldlM
      intro item hmem size
      have hlt := List.sizeOf_lt_of_mem hmem
      exact (ih (by omega) (hitems item hmem)).bind fun _ => ends_pure _
    | map entries =>
      have hents := unknownTypes_entry h
      rw [map.sizeOf_spec] at hfuel
      apply ends_foldlM
      intro entry hmem size
      obtain ⟨hkey, hval⟩ := hents entry hmem
      obtain ⟨hkeyLt, hvalLt⟩ := sizeOf_entry_lt hmem
      exact (ih (by omega) hkey).bind fun _ => (ih (by omega) hval).bind fun _ => ends_pure _
    | tuple object => exact ends_ofExcept _
    | updateOperation operation field value =>
      have hval : value.unknownTypes = [] := h
      rw [updateOperation.sizeOf_spec] at hfuel
      exact (ih (by omega) hval).bind fun _ => ends_pure _
    | other type => exact absurd h (List.cons_ne_nil _ _)

theorem ends_tupleDynamicSerialize {fuel : ℕ} (hfuel : sizeOf object ≤ fuel)
    (h : object.unknownTypes = []) (offset : ℕ) :
    Ends (object.tupleDynamicSerialize fuel offset) := by
  induction fuel generalizing object offset with
  | zero => cases object <;> simp at hfuel
  | succ fuel ih =>
    cases object with
    | null | bool | int | double | string | binary => exact ends_lift _
    | iterable items =>
      have hitems := unknownTypes_item h
      rw [iterable.sizeOf_spec] at hfuel
      apply (ends_lift _).bind
      intro start
      apply ends_foldlM
      intro item hmem offset
      have hlt := List.sizeOf_lt_of_mem hmem
      exact ih (by omega) (hitems item hmem) offset
    | map entries =>
      have hents := unknownTypes_entry h
      rw [map.sizeOf_spec] at hfuel
      apply (ends_lift _).bind
      intro start
      apply ends_foldlM
      intro entry hmem offset
      obtain ⟨hkey, hval⟩ := hents entry hmem
      obtain ⟨hkeyLt, hvalLt⟩ := sizeOf_entry_lt hmem
      exact (ih (by omega) hkey offset).bind fun behind => ih (by omega) hval behind
    | tuple object => exact ends_lift _
    | updateOperation operation field value =>
      have hval : value.unknownTypes = [] := h
      rw [updateOperation.sizeOf_spec] at hfuel
      apply (ends_lift _).bind
      intro behindList
      apply (ends_lift _).bind
      intro behindOperation
      apply (ends_lift _).bind
      intro behindField
      exact ih (by omega) hval behindField
    | other type => exact absurd h (List.cons_ne_nil _ _)

/-! ## The exception that is never thrown -/

section Avoids

variable {type : DartString}

/-- The texts of `TupleErrors` begin with another letter. -/
theorem maxLength_ne {message : DartString}
    (h : message ∈ [TupleErrors.maxStringLength, TupleErrors.maxBinaryLength,
      TupleErrors.maxListLength, TupleErrors.maxMapLength]) :
    DartException.argumentError message ≠ .argumentError (TupleErrors.unknownType type) := by
  intro heq
  have hhead := congrArg List.head? (DartException.argumentError.inj heq)
  have hunknown : (TupleErrors.unknownType type).head? = some 0x55 := rfl
  have hmax : message.head? = some 0x4D := by
    simp only [List.mem_cons, List.not_mem_nil, or_false] at h
    rcases h with rfl | rfl | rfl | rfl <;> rfl
  rw [hunknown, hmax] at hhead
  exact absurd hhead (by decide)

/-- A write never throws that a type is unknown. -/
def Spares (type : DartString) (write : Writing ℕ) : Prop :=
  Avoids (.argumentError (TupleErrors.unknownType type)) (lift write)

variable {write other : Writing ℕ}

theorem spares_pure (offset : ℕ) : Spares type (pure offset) := avoids_lift nofun

theorem spares_throw {e : DartException} (h : e ≠ .argumentError (TupleErrors.unknownType type)) :
    Spares type (throw e) := by
  apply avoids_lift
  intro buffer next heq
  exact h (EStateM.Result.error.inj heq).1

theorem Spares.bind {m : Writing ℕ} {f : ℕ → Writing ℕ} (hm : Spares type m)
    (hf : ∀ offset, Spares type (f offset)) : Spares type (m >>= f) := by
  unfold Spares
  rw [lift_bind]
  exact Avoids.bind hm hf

/-- Bytes in front of a write. -/
theorem Spares.setBytes (h : Spares type write) (offset : ℕ) (bytes : Uint8List) :
    Spares type (do FengShui.setBytes offset bytes; write) := by
  unfold Spares
  rw [lift_bind]
  refine Avoids.bind (avoids_lift fun buffer next => ?_) fun _ => h
  unfold FengShui.setBytes
  split
  · exact nofun
  · exact nofun

theorem Spares.setNumber (h : Spares type write) (width offset : ℕ) (value : ℤ) :
    Spares type (do FengShui.setNumber width offset value; write) := h.setBytes offset _

theorem spares_ite {condition : Prop} [Decidable condition] (h : Spares type write)
    (h' : Spares type other) : Spares type (if condition then write else other) := by
  split
  · exact h
  · exact h'

theorem spares_encode : ∀ (value : DartString) (offset : ℕ), Spares type (encode value offset)
  | [], offset => spares_pure offset
  | [codeUnit], offset => by
    have hrest := fun behind => spares_encode [] behind
    unfold encode
    dsimp only
    apply spares_ite ((hrest _).setNumber 1 _ _)
    apply spares_ite (spares_throw fun heq => by cases heq)
    exact spares_ite (((hrest _).setNumber 1 _ _).setNumber 1 _ _)
      ((((hrest _).setNumber 1 _ _).setNumber 1 _ _).setNumber 1 _ _)
  | codeUnit :: next :: rest, offset => by
    have hrest := fun behind => spares_encode rest behind
    have hnext := fun behind => spares_encode (next :: rest) behind
    unfold encode
    dsimp only
    apply spares_ite ((hnext _).setNumber 1 _ _)
    apply spares_ite
      (((((hrest _).setNumber 1 _ _).setNumber 1 _ _).setNumber 1 _ _).setNumber 1 _ _)
    exact spares_ite (((hnext _).setNumber 1 _ _).setNumber 1 _ _)
      ((((hnext _).setNumber 1 _ _).setNumber 1 _ _).setNumber 1 _ _)

theorem spares_tupleWriteUnits (value : DartString) (offset : ℕ) :
    Spares type (tupleWriteUnits value offset) :=
  (spares_encode value offset).bind fun _ => spares_pure _

theorem spares_tupleWriteLarge (value : ℤ) (offset : ℕ) :
    Spares type (tupleWriteLarge value offset) := by
  have hreturn (behind : ℕ) : Spares type (pure behind) := spares_pure behind
  unfold tupleWriteLarge
  apply spares_ite (((hreturn _).setNumber 2 _ _).setNumber 1 _ _)
  exact spares_ite (((hreturn _).setNumber 4 _ _).setNumber 1 _ _)
    (((hreturn _).setNumber 8 _ _).setNumber 1 _ _)

theorem spares_tupleWriteInt (value : ℤ) (offset : ℕ) :
    Spares type (tupleWriteInt value offset) := by
  have hreturn (behind : ℕ) : Spares type (pure behind) := spares_pure behind
  have hlarge (behind : ℕ) : Spares type (tupleWriteLarge value behind) :=
    spares_tupleWriteLarge value behind
  unfold tupleWriteInt
  apply spares_ite
  · apply spares_ite ((hreturn _).setNumber 1 _ _)
    exact spares_ite (((hlarge _).setNumber 1 _ _).setNumber 1 _ _) (hlarge _)
  · apply spares_ite ((hreturn _).setNumber 1 _ _)
    apply spares_ite (((hreturn _).setNumber 1 _ _).setNumber 1 _ _)
    apply spares_ite (((hreturn _).setNumber 2 _ _).setNumber 1 _ _)
    exact spares_ite (((hreturn _).setNumber 4 _ _).setNumber 1 _ _)
      (((hreturn _).setNumber 8 _ _).setNumber 1 _ _)

theorem spares_tupleWriteString (value : DartString) (offset : ℕ) :
    Spares type (tupleWriteString value offset) := by
  have hunits (behind : ℕ) : Spares type (tupleWriteUnits value behind) :=
    spares_tupleWriteUnits value behind
  unfold tupleWriteString
  apply spares_ite ((hunits _).setNumber 1 _ _)
  apply spares_ite (((hunits _).setNumber 1 _ _).setNumber 1 _ _)
  apply spares_ite (((hunits _).setNumber 2 _ _).setNumber 1 _ _)
  apply spares_ite (((hunits _).setNumber 4 _ _).setNumber 1 _ _)
  exact spares_throw (maxLength_ne (by simp))

theorem spares_tupleWriteBinary (value : Uint8List) (offset : ℕ) :
    Spares type (tupleWriteBinary value offset) := by
  have hrange (behind : ℕ) : Spares type (tupleWriteRange value behind) :=
    (spares_pure (behind + value.length)).setBytes behind value
  unfold tupleWriteBinary
  apply spares_ite (((hrange _).setNumber 1 _ _).setNumber 1 _ _)
  apply spares_ite (((hrange _).setNumber 2 _ _).setNumber 1 _ _)
  apply spares_ite (((hrange _).setNumber 4 _ _).setNumber 1 _ _)
  exact spares_throw (maxLength_ne (by simp))

theorem spares_tupleWriteHeader (short medium long : ℕ) {message : DartString}
    (h : message ∈ [TupleErrors.maxStringLength, TupleErrors.maxBinaryLength,
      TupleErrors.maxListLength, TupleErrors.maxMapLength]) (length offset : ℕ) :
    Spares type (tupleWriteHeader short medium long message length offset) := by
  have hreturn (behind : ℕ) : Spares type (pure behind) := spares_pure behind
  unfold tupleWriteHeader
  apply spares_ite ((hreturn _).setNumber 1 _ _)
  apply spares_ite (((hreturn _).setNumber 2 _ _).setNumber 1 _ _)
  apply spares_ite (((hreturn _).setNumber 4 _ _).setNumber 1 _ _)
  exact spares_throw (maxLength_ne h)

theorem spares_tupleWriteList (length offset : ℕ) : Spares type (tupleWriteList length offset) :=
  spares_tupleWriteHeader _ _ _ (by simp) length offset

theorem spares_tupleWriteMap (length offset : ℕ) : Spares type (tupleWriteMap length offset) :=
  spares_tupleWriteHeader _ _ _ (by simp) length offset

/-- The test in front of the exception always succeeds. -/
theorem avoids_tupleDynamicSize (fuel : ℕ) (object : DartObject) :
    Avoids (.argumentError (TupleErrors.unknownType type)) (object.tupleDynamicSize fuel) := by
  induction fuel generalizing object with
  | zero => exact avoids_running
  | succ fuel ih =>
    cases object with
    | null | bool | int | double | string | binary => exact avoids_pure _
    | iterable items =>
      apply avoids_foldlM
      intro size item
      exact (ih item).bind fun _ => avoids_pure _
    | map entries =>
      apply avoids_foldlM
      intro size entry
      exact (ih entry.1).bind fun _ => (ih entry.2).bind fun _ => avoids_pure _
    | tuple object => exact avoids_ofExcept (object.size_ne type)
    | updateOperation operation field value => exact (ih value).bind fun _ => avoids_pure _
    | other other => exact ih (.other other)

theorem avoids_tupleDynamicSerialize (fuel : ℕ) (object : DartObject) (offset : ℕ) :
    Avoids (.argumentError (TupleErrors.unknownType type))
      (object.tupleDynamicSerialize fuel offset) := by
  induction fuel generalizing object offset with
  | zero => exact avoids_running
  | succ fuel ih =>
    cases object with
    | null => exact (spares_pure _).setNumber 1 _ _
    | bool value => exact (spares_pure _).setNumber 1 _ _
    | int value => exact spares_tupleWriteInt _ _
    | double bits => exact ((spares_pure _).setNumber 8 _ _).setNumber 1 _ _
    | string value => exact spares_tupleWriteString _ _
    | binary value => exact spares_tupleWriteBinary _ _
    | iterable items =>
      apply Avoids.bind (spares_tupleWriteList _ _)
      intro start
      exact avoids_foldlM (fun offset item => ih item offset) items start
    | map entries =>
      apply Avoids.bind (spares_tupleWriteMap _ _)
      intro start
      exact avoids_foldlM (fun offset entry => (ih entry.1 offset).bind fun behind =>
        ih entry.2 behind) entries start
    | tuple object => exact avoids_lift (object.serialize_ne type offset)
    | updateOperation operation field value =>
      apply Avoids.bind (spares_tupleWriteList _ _)
      intro behindList
      apply Avoids.bind (spares_tupleWriteString _ _)
      intro behindOperation
      apply Avoids.bind (spares_tupleWriteInt _ _)
      intro behindField
      exact ih value behindField
    | other other => exact ih (.other other) offset

end Avoids

/-- A call that always ends, and never throws that a type is unknown, settles unless there is
one. -/
theorem settles_iff {σ : Type} {call : ℕ → Attempt DartException σ ℕ} {state : σ}
    (hends : object.unknownTypes = [] → ∃ fuel, Ends (call fuel))
    (havoids : ∀ fuel type, Avoids (.argumentError (TupleErrors.unknownType type)) (call fuel)) :
    object.Settles call state ↔ object.unknownTypes = [] := by
  constructor
  · rintro ⟨fuel, result, hcall, hunknown⟩
    by_contra hne
    obtain ⟨type, -, next, rfl⟩ := hunknown hne
    exact havoids fuel type state next hcall
  · intro hnone
    obtain ⟨fuel, hfuel⟩ := hends hnone
    obtain ⟨result, hres⟩ := hfuel state
    exact ⟨fuel, result, hres, fun hne => absurd hnone hne⟩

/-- Both functions end just for the objects without an unknown one in them; where there is one,
neither throws what it is meant to. -/
theorem serializes_iff (object : DartObject) : object.Serializes ↔ object.unknownTypes = [] := by
  have hsize : object.Settles (fun fuel => object.tupleDynamicSize fuel) () ↔
      object.unknownTypes = [] :=
    settles_iff (fun h => ⟨sizeOf object, ends_tupleDynamicSize le_rfl h⟩)
      fun fuel _ => avoids_tupleDynamicSize fuel object
  have hserialize (offset : ℕ) (buffer : Uint8List) :
      object.Settles (fun fuel => object.tupleDynamicSerialize fuel offset) buffer ↔
        object.unknownTypes = [] :=
    settles_iff (fun h => ⟨sizeOf object, ends_tupleDynamicSerialize le_rfl h offset⟩)
      fun fuel _ => avoids_tupleDynamicSerialize fuel object offset
  constructor
  · exact fun h => hsize.mp h.1
  · exact fun h => ⟨hsize.mpr h, fun offset buffer => (hserialize offset buffer).mpr h⟩

/-- The call for an unknown object is never over. -/
theorem tupleDynamicSize_other (fuel : ℕ) (type : DartString) :
    (other type).tupleDynamicSize fuel = running := by
  induction fuel with
  | zero => rfl
  | succ fuel ih => exact ih

/-- An object of some class. -/
theorem not_serializes : ¬∀ object : DartObject, object.Serializes := by
  intro h
  obtain ⟨⟨fuel, result, hcall, -⟩, -⟩ := h (.other (literal "Object"))
  have hrunning := congrFun (tupleDynamicSize_other fuel (literal "Object")) ()
  cases hrunning.symm.trans hcall

end DartObject

end FengShui
