import FengShui.Core.DartMap
import Mathlib.Data.List.TakeWhile

/-!
# Events (`core/event.dart`, `native/events/event.c`)

An event is backed by a Dart map or by a native array of fields. The name of a native field points
into an arena that is freed when the setter returns. What a later comparison reads there is not
determined: it is a parameter of the native functions.
-/

namespace FengShui.Events

open List

/-- `EventFieldType`, without the objects that a native event cannot hold. -/
inductive FieldType where
  | integer
  | double
  | boolean
  | string
  deriving DecidableEq, Repr

/-- The value of a field; a double is its bits. -/
inductive FieldValue where
  | integer (value : Int64)
  | double (bits : UInt64)
  | boolean (value : Bool)
  | string (value : DartString)
  deriving DecidableEq

def FieldValue.type : FieldValue → FieldType
  | .integer _ => .integer
  | .double _ => .double
  | .boolean _ => .boolean
  | .string _ => .string

/-- A call of `setInteger`, `setDouble`, `setBoolean` or `setString`. -/
structure Assignment where
  name : DartString
  value : FieldValue

/-- A call of `has`, or of `getInteger`, `getDouble`, `getBoolean` or `getString`. -/
inductive Access where
  | has (name : DartString)
  | get (type : FieldType) (name : DartString)

def Access.name : Access → DartString
  | .has name => name
  | .get _ name => name

/-- What a call gives its caller. -/
inductive Result where
  | done
  | has (found : Bool)
  | value (value : FieldValue)
  | coreModuleError (message : DartString)
  | exception (exception : DartException)
  /-- `exit(-1)` of the native `raise`. -/
  | exit
  deriving DecidableEq

/-- The results of calls, up to the end of the process. -/
def results {σ : Type*} : List (σ → Result × σ) → σ → List Result
  | [], _ => []
  | call :: calls, state =>
    if (call state).1 = .exit then [.exit] else (call state).1 :: results calls (call state).2

/-! ## The Dart map -/

/-- `CoreErrors.eventFieldNotFound`. -/
def eventFieldNotFound (name : DartString) : DartString :=
  literal "Event field " ++ name ++ literal " is not found"

/-- `CoreErrors.eventFieldNotInteger` and its siblings. -/
def eventFieldNot (type : FieldType) (name : DartString) : DartString :=
  literal "Event field " ++ name ++ literal (match type with
    | .integer => " is not integer"
    | .double => " is not double"
    | .boolean => " is not boolean"
    | .string => " is not string")

/-- `Event.fields`. -/
abbrev Fields := DartMap DartString FieldValue

namespace Fields

/-- A setter: `fields[name] = EventField.integer(name, value)` and its siblings. -/
def assign (assignment : Assignment) (fields : Fields) : Result × Fields :=
  (.done, fields.set assignment.name assignment.value)

/-- A getter, with the type that it asks for. -/
def get (type : FieldType) (name : DartString) (fields : Fields) : Result :=
  match fields.get? name with
  | none => .coreModuleError (eventFieldNotFound name)
  | some value =>
    if value.type ≠ type then .coreModuleError (eventFieldNot type name) else .value value

def access (call : Access) (fields : Fields) : Result × Fields :=
  match call with
  | .has name => (.has (fields.get? name).isSome, fields)
  | .get type name => (fields.get type name, fields)

end Fields

/-! ## The native fields -/

/-- The string that a `char*` to the bytes denotes. -/
def cString (bytes : Uint8List) : Uint8List := bytes.takeWhile (· ≠ 0)

/-- `event_field_structure`, with the part of the union that its type names. -/
inductive NativeValue where
  | signed (number : Int64)
  | unsigned (number : UInt64)
  | double (bits : UInt64)
  | boolean (value : Bool)
  | string (bytes : Uint8List)
  deriving DecidableEq

def NativeValue.isSigned : NativeValue → Bool
  | .signed _ => true
  | _ => false

def NativeValue.isUnsigned : NativeValue → Bool
  | .unsigned _ => true
  | _ => false

/-- The value of a field, and the bytes that were at its name when it was set. -/
structure NativeField where
  name : Uint8List
  value : NativeValue

/-- `event`, with the number of lookups so far. -/
structure NativeEvent where
  fields : List NativeField
  lookups : ℕ

/-- What is read at the name of a field, by the number of the lookup and the index of the field. -/
abbrev Memory := ℕ → ℕ → Uint8List → Uint8List

/-- `EVENT_FIELDS_MAXIMUM`. -/
def eventFieldsMaximum : ℕ := 20

namespace NativeEvent

/-- `event_create`. -/
def create : NativeEvent := ⟨[], 0⟩

variable (memory : Memory)

/-- `event_find_field`, with the index of the field. -/
def findField (name : Uint8List) (event : NativeEvent) : Option (NativeField × ℕ) :=
  event.fields.zipIdx.find? fun entry =>
    cString (memory event.lookups entry.2 entry.1.name) = cString name

/-- The event behind a lookup. -/
def looked (event : NativeEvent) : NativeEvent := { event with lookups := event.lookups + 1 }

/-- `event_set_field`. -/
def setField (name : Uint8List) (value : NativeValue) (event : NativeEvent) :
    Result × NativeEvent :=
  match event.findField memory name with
  | some (_, index) =>
    (.done,
      { event.looked with
        fields := event.fields.modify index fun field => { field with value := value } })
  | none =>
    if event.fields.length = eventFieldsMaximum then (.exit, event.looked)
    else (.done, { event.looked with fields := event.fields ++ [⟨name, value⟩] })

/-- The native setter of a Dart setter, with its value; `event_field_set_string` copies the
string. -/
def valueOf : FieldValue → NativeValue
  | .integer value => if value < 0 then .signed value else .unsigned value.toUInt64
  | .double bits => .double bits
  | .boolean value => .boolean value
  | .string value => .string (cString (utf8Encode value))

/-- A setter. -/
def assign (assignment : Assignment) (event : NativeEvent) : Result × NativeEvent :=
  event.setField memory (utf8Encode assignment.name) (valueOf assignment.value)

/-- A native getter, with the type that it takes. -/
def eventGet (read : NativeValue → Option Result) (name : Uint8List) (event : NativeEvent) :
    Result × NativeEvent :=
  match event.findField memory name with
  | none => (.exit, event.looked)
  | some (field, _) => ((read field.value).getD .exit, event.looked)

def eventGetSigned : Uint8List → NativeEvent → Result × NativeEvent :=
  eventGet memory fun value => match value with
    | .signed number => some (.value (.integer number))
    | _ => none

def eventGetDouble : Uint8List → NativeEvent → Result × NativeEvent :=
  eventGet memory fun value => match value with
    | .double bits => some (.value (.double bits))
    | _ => none

def eventGetBoolean : Uint8List → NativeEvent → Result × NativeEvent :=
  eventGet memory fun value => match value with
    | .boolean value => some (.value (.boolean value))
    | _ => none

/-- `event_get_string` and `toDartString`. -/
def eventGetString : Uint8List → NativeEvent → Result × NativeEvent :=
  eventGet memory fun value => match value with
    | .string bytes => some (match utf8Decode bytes with
      | .ok string => .value (.string string)
      | .error exception => .exception exception)
    | _ => none

/-- `event_field_is_signed` and `event_field_is_unsigned`. -/
def eventFieldIs (type : NativeValue → Bool) (name : Uint8List) (event : NativeEvent) : Bool :=
  (event.findField memory name).any fun entry => type entry.1.value

/-- `getInteger`, which gets the signed number in both cases. -/
def getInteger (name : DartString) (event : NativeEvent) : Result × NativeEvent :=
  if event.eventFieldIs memory NativeValue.isSigned (utf8Encode name) then
    event.looked.eventGetSigned memory (utf8Encode name)
  else if event.looked.eventFieldIs memory NativeValue.isUnsigned (utf8Encode name) then
    event.looked.looked.eventGetSigned memory (utf8Encode name)
  else (.coreModuleError (eventFieldNotFound name), event.looked.looked)

def access (call : Access) (event : NativeEvent) : Result × NativeEvent :=
  match call with
  | .has name => (.has (event.findField memory (utf8Encode name)).isSome, event.looked)
  | .get .integer name => event.getInteger memory name
  | .get .double name => event.eventGetDouble memory (utf8Encode name)
  | .get .boolean name => event.eventGetBoolean memory (utf8Encode name)
  | .get .string name => event.eventGetString memory (utf8Encode name)

end NativeEvent

/-! ## What an event is for -/

/-- The value that was written last. -/
def lastWritten (assignments : List Assignment) (name : DartString) : Option FieldValue :=
  (assignments.reverse.find? fun assignment => assignment.name = name).map Assignment.value

/-- What a call is to give behind the assignments. -/
def expected (assignments : List Assignment) : Access → Result
  | .has name => .has (lastWritten assignments name).isSome
  | .get type name => match lastWritten assignments name with
    | none => .coreModuleError (eventFieldNotFound name)
    | some value =>
      if value.type ≠ type then .coreModuleError (eventFieldNot type name) else .value value

/-- A `CoreModuleError` is one whatever its text. -/
def Result.withoutText : Result → Result
  | .coreModuleError _ => .coreModuleError []
  | result => result

/-- Both events give the results that are expected. -/
def BehaveAlike (memory : Memory) (assignments : List Assignment) (accesses : List Access) : Prop :=
  results (assignments.map Fields.assign ++ accesses.map Fields.access) DartMap.empty =
      assignments.map (fun _ => .done) ++ accesses.map (expected assignments) ∧
    (results (assignments.map (NativeEvent.assign memory) ++
      accesses.map (NativeEvent.access memory)) NativeEvent.create).map Result.withoutText =
      (results (assignments.map Fields.assign ++ accesses.map Fields.access) DartMap.empty).map
        Result.withoutText

theorem lastWritten_append (assignments : List Assignment) (assignment : Assignment)
    (name : DartString) :
    lastWritten (assignments ++ [assignment]) name =
      if assignment.name = name then some assignment.value else lastWritten assignments name := by
  unfold lastWritten
  rw [reverse_append, reverse_singleton, singleton_append, find?_cons]
  by_cases hname : assignment.name = name <;> simp [hname]

section Results

variable {σ : Type*}

@[simp]
theorem results_cons (call : σ → Result × σ) (calls : List (σ → Result × σ)) (state : σ) :
    results (call :: calls) state =
      if (call state).1 = .exit then [.exit] else (call state).1 :: results calls (call state).2 :=
  rfl

theorem withoutText_eq_exit {result : Result} : result.withoutText = .exit ↔ result = .exit := by
  cases result <;> simp [Result.withoutText]

end Results

/-! ## The map gives what is expected -/

/-- The map holds what was written last. -/
def Holds (fields : Fields) (assignments : List Assignment) : Prop :=
  ∀ name, fields.get? name = lastWritten assignments name

variable {fields : Fields} {assignments : List Assignment}

theorem Holds.assign (h : Holds fields assignments) (assignment : Assignment) :
    Holds (fields.assign assignment).2 (assignments ++ [assignment]) := by
  intro name
  rw [lastWritten_append]
  unfold Fields.assign
  by_cases hname : assignment.name = name
  · rw [if_pos hname, ← hname, DartMap.get?_set_self]
  · rw [if_neg hname, DartMap.get?_set_of_ne _ _ (Ne.symm hname), h name]

theorem Holds.access (h : Holds fields assignments) (call : Access) :
    fields.access call = (expected assignments call, fields) := by
  cases call with
  | has name =>
    unfold Fields.access expected
    dsimp only
    rw [h name]
  | get type name =>
    unfold Fields.access Fields.get expected
    dsimp only
    rw [h name]

theorem expected_ne_exit (assignments : List Assignment) (call : Access) :
    expected assignments call ≠ .exit := by
  unfold expected
  cases call with
  | has name => nofun
  | get type name =>
    dsimp only
    split
    · nofun
    · split <;> nofun

theorem results_access (h : Holds fields assignments) (accesses : List Access) :
    results (accesses.map Fields.access) fields = accesses.map (expected assignments) := by
  induction accesses with
  | nil => rfl
  | cons call accesses ih =>
    rw [map_cons, results_cons, h.access, if_neg (expected_ne_exit _ _), ih, map_cons]

theorem results_fields {fields : Fields} {before : List Assignment} (h : Holds fields before)
    (assignments : List Assignment) (accesses : List Access) :
    results (assignments.map Fields.assign ++ accesses.map Fields.access) fields =
      assignments.map (fun _ => .done) ++ accesses.map (expected (before ++ assignments)) := by
  induction assignments generalizing fields before with
  | nil =>
    rw [append_nil]
    exact results_access h accesses
  | cons assignment assignments ih =>
    have hnext := ih (h.assign assignment)
    rw [append_assoc] at hnext
    rw [map_cons, cons_append, results_cons, if_neg nofun, hnext]
    rfl

/-- The Dart map gives what is expected, whatever is done. -/
theorem results_dart (assignments : List Assignment) (accesses : List Access) :
    results (assignments.map Fields.assign ++ accesses.map Fields.access) DartMap.empty =
      assignments.map (fun _ => .done) ++ accesses.map (expected assignments) :=
  @results_fields DartMap.empty [] (fun _ => rfl) assignments accesses

/-! ## The native event -/

section Native

variable {memory : Memory} {event : NativeEvent}

open NativeEvent

theorem findField_of_empty {name : Uint8List} (h : event.fields = []) :
    event.findField memory name = none := by
  unfold findField
  rw [h]
  rfl

variable {field : NativeField} {length : ℕ}

theorem findField_mem {name : Uint8List} {index : ℕ}
    (h : event.findField memory name = some (field, index)) :
    event.fields[index]? = some field := by
  have hmem := mem_of_find?_eq_some h
  exact mem_zipIdx_iff_getElem?.mp hmem

/-- No field is an integer. -/
def NoInteger (event : NativeEvent) : Prop :=
  ∀ field ∈ event.fields, ¬field.value.isSigned ∧ ¬field.value.isUnsigned

theorem NoInteger.eventFieldIs (h : NoInteger event) (name : Uint8List) :
    event.eventFieldIs memory NativeValue.isSigned name = false ∧
      event.eventFieldIs memory NativeValue.isUnsigned name = false := by
  unfold NativeEvent.eventFieldIs
  cases hfind : event.findField memory name with
  | none => exact ⟨rfl, rfl⟩
  | some entry =>
    obtain ⟨field, index⟩ := entry
    obtain ⟨hsigned, hunsigned⟩ := h field (mem_of_getElem? (findField_mem hfind))
    exact ⟨Bool.eq_false_of_not_eq_true hsigned, Bool.eq_false_of_not_eq_true hunsigned⟩

theorem NoInteger.getInteger (h : NoInteger event) (name : DartString) :
    event.getInteger memory name =
      (.coreModuleError (eventFieldNotFound name), event.looked.looked) := by
  have hlooked : NoInteger event.looked := h
  unfold NativeEvent.getInteger
  rw [(h.eventFieldIs _).1, (hlooked.eventFieldIs _).2]
  rfl

/-- An assignment to an event that is not full. -/
theorem assign_of_room (assignment : Assignment)
    (hroom : event.fields.length < eventFieldsMaximum) :
    (event.assign memory assignment).1 = .done ∧
      (event.assign memory assignment).2.fields.length ≤ event.fields.length + 1 ∧
      ∀ field ∈ (event.assign memory assignment).2.fields,
        (∃ old ∈ event.fields, field.value = old.value) ∨
          field.value = valueOf assignment.value := by
  unfold NativeEvent.assign setField
  cases hfind : event.findField memory (utf8Encode assignment.name) with
  | some entry =>
    refine ⟨rfl, ?_, ?_⟩
    · dsimp only
      rw [length_modify]
      exact Nat.le_succ _
    · intro field hfield
      obtain ⟨index, hidx⟩ := getElem?_of_mem hfield
      rw [getElem?_modify] at hidx
      obtain ⟨old, hold, hmodified⟩ := Option.map_eq_some_iff.mp hidx
      split at hmodified
      · exact .inr (hmodified ▸ rfl)
      · exact .inl ⟨old, mem_of_getElem? hold, hmodified ▸ rfl⟩
  | none =>
    rw [if_neg hroom.ne]
    refine ⟨rfl, ?_, ?_⟩
    · dsimp only
      rw [length_append, length_singleton]
    · intro field hfield
      rcases mem_append.mp hfield with hold | hnew
      · exact .inl ⟨field, hold, rfl⟩
      · rw [mem_singleton.mp hnew]
        exact .inr rfl

/-- Assignments that leave room go through. -/
theorem results_assign (assignments : List Assignment)
    (rest : List (NativeEvent → Result × NativeEvent))
    (hroom : event.fields.length + assignments.length ≤ eventFieldsMaximum) :
    ∃ after : NativeEvent, results (assignments.map (NativeEvent.assign memory) ++ rest) event =
        assignments.map (fun _ => .done) ++ results rest after ∧
      ∀ field ∈ after.fields, (∃ old ∈ event.fields, field.value = old.value) ∨
        ∃ assignment ∈ assignments, field.value = valueOf assignment.value := by
  induction assignments generalizing event with
  | nil => exact ⟨event, rfl, fun field hfield => .inl ⟨field, hfield, rfl⟩⟩
  | cons assignment assignments ih =>
    rw [length_cons] at hroom
    obtain ⟨hdone, hlen, hvals⟩ :=
      @assign_of_room memory event assignment (by omega)
    obtain ⟨after, hresults, hafter⟩ := @ih (event.assign memory assignment).2 (by omega)
    refine ⟨after, ?_, fun field hfield => ?_⟩
    · rw [map_cons, cons_append, results_cons, hdone, if_neg nofun, hresults]
      rfl
    · rcases hafter field hfield with ⟨old, hold, heq⟩ | ⟨later, hlater, heq⟩
      · rcases hvals old hold with ⟨older, holder, hold'⟩ | hnew
        · exact .inl ⟨older, holder, heq.trans hold'⟩
        · exact .inr ⟨assignment, mem_cons_self, heq.trans hnew⟩
      · exact .inr ⟨later, mem_cons_of_mem _ hlater, heq⟩

theorem valueOf_isInteger {value : FieldValue} (h : value.type ≠ .integer) :
    ¬(valueOf value).isSigned ∧ ¬(valueOf value).isUnsigned := by
  cases value with
  | integer value => exact absurd rfl h
  | double bits => exact ⟨nofun, nofun⟩
  | boolean value => exact ⟨nofun, nofun⟩
  | string value => exact ⟨nofun, nofun⟩

theorem isInteger_valueOf {value : FieldValue} (h : value.type = .integer)
    (hsigned : ¬(valueOf value).isSigned) : (valueOf value).isUnsigned := by
  cases value with
  | integer value =>
    unfold valueOf at hsigned ⊢
    dsimp only at hsigned ⊢
    split
    · rename_i hneg
      rw [if_pos hneg] at hsigned
      exact absurd rfl hsigned
    · rfl
  | double bits | boolean value | string value => exact absurd h nofun

/-- Calls of `getInteger` when there is no integer. -/
theorem results_getInteger (hinteger : NoInteger event) {assignments : List Assignment}
    (hassigned : ∀ assignment ∈ assignments, assignment.value.type ≠ .integer)
    {accesses : List Access}
    (haccesses : ∀ access ∈ accesses, (∃ name, access = .get .integer name) ∨
      (∃ name, access = .has name) ∧ event.fields = [] ∧ assignments = []) :
    (results (accesses.map (NativeEvent.access memory)) event).map Result.withoutText =
      (accesses.map (expected assignments)).map Result.withoutText := by
  induction accesses generalizing event with
  | nil => rfl
  | cons call accesses ih =>
    rw [forall_mem_cons] at haccesses
    obtain ⟨hcall, hrest⟩ := haccesses
    rw [map_cons, map_cons, map_cons, results_cons]
    rcases hcall with ⟨name, rfl⟩ | ⟨⟨name, rfl⟩, hempty, rfl⟩
    · have haccess : event.access memory (.get .integer name) = event.getInteger memory name := rfl
      have hexpected : (expected assignments (.get .integer name)).withoutText =
          .coreModuleError [] := by
        unfold expected
        dsimp only
        cases hlast : lastWritten assignments name with
        | none => rfl
        | some value =>
          obtain ⟨assignment, hfind, rfl⟩ := Option.map_eq_some_iff.mp hlast
          have hmem := mem_reverse.mp (mem_of_find?_eq_some hfind)
          dsimp only
          rw [if_pos (hassigned assignment hmem)]
          rfl
      rw [haccess, hinteger.getInteger, if_neg nofun, hexpected, map_cons,
        @ih event.looked.looked hinteger hrest]
      rfl
    · have haccess : event.access memory (.has name) = (.has false, event.looked) := by
        unfold NativeEvent.access
        dsimp only
        rw [findField_of_empty hempty]
        rfl
      rw [haccess, if_neg nofun, map_cons, @ih event.looked hinteger hrest]
      rfl

/-! ## What the freed memory may hold -/

/-- A byte string that is longer than every name in use. -/
def Longer (length : ℕ) (names : List DartString) : Prop :=
  ∀ name ∈ names, (utf8Encode name).length < length

theorem exists_longer (names : List DartString) : ∃ length, Longer length names := by
  induction names with
  | nil => exact ⟨0, nofun⟩
  | cons name names ih =>
    obtain ⟨length, hlen⟩ := ih
    refine ⟨length + (utf8Encode name).length + 1, forall_mem_cons.mpr ⟨by omega, ?_⟩⟩
    intro other hother
    have hother := hlen other hother
    omega

/-- Bytes without a NUL. -/
def noise (length : ℕ) : Uint8List := List.replicate length 1

theorem cString_noise (length : ℕ) : cString (noise length) = noise length :=
  takeWhile_eq_self_iff.mpr fun byte hbyte => by
    rw [eq_of_mem_replicate hbyte]
    decide

theorem noise_ne {name : DartString} (h : (utf8Encode name).length < length) :
    cString (noise length) ≠ cString (utf8Encode name) := by
  intro heq
  have hlen := congrArg List.length heq
  have hle : (cString (utf8Encode name)).length ≤ (utf8Encode name).length :=
    (takeWhile_sublist _).length_le
  rw [cString_noise, noise, length_replicate] at hlen
  omega

/-- A lookup that finds nothing but noise. -/
theorem findField_noise {name : DartString} (h : (utf8Encode name).length < length)
    (hnoise : ∀ index bytes, memory event.lookups index bytes = noise length) :
    event.findField memory (utf8Encode name) = none := by
  unfold findField
  rw [find?_eq_none]
  intro entry _
  simp only [hnoise, decide_eq_true_eq]
  exact noise_ne h

/-- A lookup that finds the name at one field only. -/
theorem findField_only {name : DartString} (h : (utf8Encode name).length < length) {found : ℕ}
    (hfield : event.fields[found]? = some field)
    (honly : ∀ index bytes, memory event.lookups index bytes =
      if index = found then utf8Encode name else noise length) :
    event.findField memory (utf8Encode name) = some (field, found) := by
  have hsome : (event.findField memory (utf8Encode name)).isSome := by
    unfold findField
    rw [find?_isSome]
    refine ⟨(field, found), mem_zipIdx_iff_getElem?.mpr hfield, ?_⟩
    simp only [honly, if_true, decide_true]
  obtain ⟨⟨other, index⟩, hfind⟩ := Option.isSome_iff_exists.mp hsome
  have hidx : index = found := by
    by_contra hne
    have hname := find?_some hfind
    simp only [honly, if_neg hne, decide_eq_true_eq] at hname
    exact noise_ne h hname
  subst hidx
  rw [hfind]
  have hother := findField_mem hfind
  rw [hfield] at hother
  rw [Option.some.inj hother]

/-- Without any name found every assignment takes a new field. -/
theorem results_assign_noise {length lookups : ℕ} (assignments : List Assignment)
    (hlonger : Longer length (assignments.map Assignment.name))
    (rest : List (NativeEvent → Result × NativeEvent))
    (hnoise : ∀ lookup < lookups, ∀ index bytes, memory lookup index bytes = noise length)
    (hlookups : event.lookups + assignments.length ≤ lookups)
    (hfull : event.fields.length ≤ eventFieldsMaximum) :
    (eventFieldsMaximum < event.fields.length + assignments.length →
        .exit ∈ results (assignments.map (NativeEvent.assign memory) ++ rest) event) ∧
      (event.fields.length + assignments.length ≤ eventFieldsMaximum →
        results (assignments.map (NativeEvent.assign memory) ++ rest) event =
          assignments.map (fun _ => .done) ++ results rest
            ⟨event.fields ++ assignments.map fun assignment =>
              ⟨utf8Encode assignment.name, valueOf assignment.value⟩,
              event.lookups + assignments.length⟩) := by
  induction assignments generalizing event with
  | nil =>
    refine ⟨fun hlt => ?_, fun _ => ?_⟩
    · rw [length_nil] at hlt
      omega
    · simp
  | cons assignment assignments ih =>
    rw [map_cons, Longer, forall_mem_cons] at hlonger
    rw [length_cons] at hlookups ⊢
    -- The name is not found, so that each assignment takes a new place.
    have hfind : event.findField memory (utf8Encode assignment.name) = none :=
      findField_noise hlonger.1 (hnoise event.lookups (by omega))
    by_cases hlimit : event.fields.length = eventFieldsMaximum
    · have hassign : (event.assign memory assignment).1 = .exit := by
        unfold NativeEvent.assign setField
        rw [hfind]
        dsimp only
        rw [if_pos hlimit]
      refine ⟨fun _ => ?_, fun hroom => absurd hroom (by omega)⟩
      rw [map_cons, cons_append, results_cons, if_pos hassign]
      exact mem_singleton_self _
    · have hassign : event.assign memory assignment =
          (.done, ⟨event.fields ++ [⟨utf8Encode assignment.name, valueOf assignment.value⟩],
            event.lookups + 1⟩) := by
        unfold NativeEvent.assign setField
        rw [hfind]
        dsimp only
        rw [if_neg hlimit]
        rfl
      have hlen : (event.fields ++ [(⟨utf8Encode assignment.name, valueOf assignment.value⟩ :
          NativeField)]).length = event.fields.length + 1 := by
        rw [length_append, length_singleton]
      obtain ⟨hexit, hdone⟩ := @ih ⟨event.fields ++
          [⟨utf8Encode assignment.name, valueOf assignment.value⟩], event.lookups + 1⟩ hlonger.2
        (by dsimp only; omega) (by dsimp only; omega)
      dsimp only at hexit hdone
      rw [hlen] at hexit hdone
      rw [map_cons, cons_append, results_cons, hassign, if_neg nofun]
      refine ⟨fun hlt => mem_cons_of_mem _ (hexit (by omega)), fun hroom => ?_⟩
      rw [hdone (by omega), append_assoc, Nat.add_assoc, Nat.add_comm 1]
      rfl

/-- The results behind the first one, when it is not the end. -/
theorem head_of_results {σ : Type*} {call : σ → Result × σ} {calls : List (σ → Result × σ)}
    {state : σ} {expected : Result} {later : List Result} (hexit : expected ≠ .exit)
    (h : (results (call :: calls) state).map Result.withoutText = expected :: later) :
    (call state).1 ≠ .exit ∧ (call state).1.withoutText = expected ∧
      (results calls (call state).2).map Result.withoutText = later := by
  rw [results_cons] at h
  by_cases hcall : (call state).1 = .exit
  · rw [if_pos hcall, map_singleton] at h
    exact absurd (List.cons.inj h).1.symm hexit
  · rw [if_neg hcall, map_cons] at h
    exact ⟨hcall, List.cons.inj h⟩

/-- Memory in which no name is found. -/
def quiet (length : ℕ) : Memory := fun _ _ _ => noise length

/-- Memory in which from some lookup on one field has a name. -/
def marked (length lookups : ℕ) (name : DartString) (found : ℕ) : Memory := fun lookup index _ =>
  if lookup < lookups then noise length
  else if index = found then utf8Encode name else noise length

theorem access_quiet {length : ℕ} {call : Access} {name : DartString}
    (hname : call = .has name ∨ ∃ type, call = .get type name)
    (hlonger : (utf8Encode name).length < length) :
    event.access (quiet length) call = (.has false, event.looked) ∧ call = .has name ∨
      event.access (quiet length) call =
        (.coreModuleError (eventFieldNotFound name), event.looked.looked) ∧
        call = .get .integer name ∨
      (event.access (quiet length) call).1 = .exit := by
  have hfind : ∀ event : NativeEvent, event.findField (quiet length) (utf8Encode name) = none :=
    fun event => findField_noise hlonger fun _ _ => rfl
  rcases hname with rfl | ⟨type, rfl⟩
  · left
    unfold NativeEvent.access
    dsimp only
    rw [hfind]
    exact ⟨rfl, rfl⟩
  · right
    cases type with
    | integer =>
      left
      have hinteger : event.getInteger (quiet length) name =
          (.coreModuleError (eventFieldNotFound name), event.looked.looked) := by
        unfold getInteger eventFieldIs
        rw [hfind, hfind]
        rfl
      exact ⟨hinteger, rfl⟩
    | double | boolean | string =>
      right
      simp only [NativeEvent.access, eventGetDouble, eventGetBoolean, eventGetString,
        eventGet, hfind]

theorem findField_marked {length lookups found : ℕ} {name : DartString} {field : NativeField}
    (hlonger : (utf8Encode name).length < length) (hlookups : lookups ≤ event.lookups)
    (hfield : event.fields[found]? = some field) :
    event.findField (marked length lookups name found) (utf8Encode name) = some (field, found) :=
  findField_only hlonger hfield fun _ _ => if_neg (by omega)

/-- With a name found at an integer `getInteger` gives its value or ends the process. -/
theorem getInteger_marked {lookups found : ℕ} {name : DartString}
    (hlonger : (utf8Encode name).length < length) (hlookups : lookups ≤ event.lookups)
    (hfield : event.fields[found]? = some field)
    (hinteger : field.value.isSigned ∨ field.value.isUnsigned) :
    (event.getInteger (marked length lookups name found) name).1 = .exit ∨
      ∃ number, (event.getInteger (marked length lookups name found) name).1 =
        .value (.integer number) := by
  have hfind := findField_marked hlonger hlookups hfield
  have hfind' :=
    @findField_marked event.looked _ _ _ _ _ hlonger (Nat.le_succ_of_le hlookups) hfield
  have hfind'' := @findField_marked event.looked.looked _ _ _ _ _ hlonger
    (Nat.le_succ_of_le (Nat.le_succ_of_le hlookups)) hfield
  unfold getInteger eventFieldIs eventGetSigned eventGet
  rw [hfind, hfind', hfind'']
  obtain ⟨written, value⟩ := field
  cases value with
  | signed number => exact .inr ⟨number, rfl⟩
  | unsigned number => exact .inl rfl
  | double bits | boolean value | string bytes =>
    simp [NativeValue.isSigned, NativeValue.isUnsigned] at hinteger

/-- The calls that give the same whatever the memory holds. -/
theorem accesses_of_agree {length lookups : ℕ} (assignments : List Assignment)
    {accesses : List Access}
    (hlonger : ∀ call ∈ accesses, ∃ name, (call = .has name ∨ ∃ type, call = .get type name) ∧
      (utf8Encode name).length < length) (hlookups : lookups ≤ event.lookups)
    (hagree : ∀ memory : Memory,
      (∀ lookup < lookups, ∀ index bytes, memory lookup index bytes = noise length) →
      (results (accesses.map (NativeEvent.access memory)) event).map Result.withoutText =
        (accesses.map (expected assignments)).map Result.withoutText) :
    ∀ call ∈ accesses, (∃ name, call = .get .integer name) ∧ NoInteger event ∨
      (∃ name, call = .has name) ∧ event.fields = [] := by
  induction accesses generalizing event with
  | nil => exact fun _ hmem => absurd hmem not_mem_nil
  | cons call accesses ih =>
    rw [forall_mem_cons] at hlonger ⊢
    obtain ⟨⟨name, hname, hlen⟩, hlonger⟩ := hlonger
    have hexit : (expected assignments call).withoutText ≠ .exit := fun h =>
      expected_ne_exit _ _ (withoutText_eq_exit.mp h)
    have hhead : ∀ memory : Memory,
        (∀ lookup < lookups, ∀ index bytes, memory lookup index bytes = noise length) →
        (event.access memory call).1 ≠ .exit ∧
          (event.access memory call).1.withoutText = (expected assignments call).withoutText ∧
          (results (accesses.map (NativeEvent.access memory)) (event.access memory call).2).map
            Result.withoutText = (accesses.map (expected assignments)).map Result.withoutText :=
      fun memory hmemory => head_of_results hexit (hagree memory hmemory)
    -- Memory that shows one name at the lookups behind those of the assignments.
    have hmarked : ∀ found, ∀ lookup < lookups, ∀ index bytes,
        marked length lookups name found lookup index bytes = noise length :=
      fun found lookup hlookup index bytes => if_pos hlookup
    obtain ⟨hquiet, hres, -⟩ := hhead (quiet length) fun _ _ _ _ => rfl
    rcases @access_quiet event length call name hname hlen with ⟨heq, rfl⟩ | ⟨heq, rfl⟩ | heq
    · -- With a field there, its name may be found or not.
      rw [heq] at hres
      have hempty : event.fields = [] := by
        by_contra hne
        obtain ⟨field, fields, hfields⟩ := exists_cons_of_ne_nil hne
        have hfield : event.fields[0]? = some field := by rw [hfields]; rfl
        obtain ⟨-, hfound, -⟩ := hhead (marked length lookups name 0) (hmarked 0)
        unfold NativeEvent.access at hfound
        dsimp only at hfound
        rw [findField_marked hlen hlookups hfield, ← hres] at hfound
        exact absurd (Result.has.inj hfound) (fun heq => Bool.false_ne_true heq.symm)
      refine ⟨.inr ⟨⟨name, rfl⟩, hempty⟩, @ih event.looked hlonger (Nat.le_succ_of_le hlookups) ?_⟩
      intro memory hmemory
      exact (hhead memory hmemory).2.2
    · have hinteger : NoInteger event := by
        by_contra hsome
        unfold NoInteger at hsome
        push Not at hsome
        obtain ⟨field, hmem, hfield⟩ := hsome
        obtain ⟨found, hfound⟩ := getElem?_of_mem hmem
        obtain ⟨hne, heq', -⟩ := hhead (marked length lookups name found) (hmarked found)
        -- A field with an integer is given to the getter, or ends it.
        have hval : field.value.isSigned ∨ field.value.isUnsigned := by
          by_cases hsigned : field.value.isSigned
          · exact .inl hsigned
          · exact .inr (hfield hsigned)
        rw [heq] at hres
        rw [← hres] at heq'
        rcases getInteger_marked hlen hlookups hfound hval with hend | ⟨number, hnum⟩
        · exact hne hend
        · have haccess : event.access (marked length lookups name found) (.get .integer name) =
            event.getInteger (marked length lookups name found) name := rfl
          rw [haccess, hnum] at heq'
          exact absurd heq' nofun
      refine ⟨.inl ⟨⟨name, rfl⟩, hinteger⟩, ?_⟩
      have hrest := @ih event.looked.looked hlonger
        (Nat.le_succ_of_le (Nat.le_succ_of_le hlookups)) (fun memory hmemory => by
          have hlater := (hhead memory hmemory).2.2
          have haccess : event.access memory (.get .integer name) = event.getInteger memory name :=
            rfl
          rwa [haccess, hinteger.getInteger] at hlater)
      exact hrest
    · exact absurd heq hquiet

end Native

section Agreement

variable {assignments : List Assignment} {accesses : List Access} {length : ℕ}

/-- The assignment behind the last place ends the program, and Dart goes on. -/
theorem room_of_behaveAlike (hlonger : Longer length (assignments.map Assignment.name))
    (halike : BehaveAlike (quiet length) assignments accesses) :
    assignments.length ≤ eventFieldsMaximum := by
  by_contra hfull
  obtain ⟨hdart, hnative⟩ := halike
  have hexit := (@results_assign_noise (quiet length) NativeEvent.create _ _ assignments hlonger
    (accesses.map (NativeEvent.access (quiet length))) (fun _ _ _ _ => rfl) (Nat.zero_add _).le
    (Nat.zero_le _)).1 (by
      dsimp only [NativeEvent.create, length_nil]
      omega)
  have hmem : .exit ∈ (results (assignments.map Fields.assign ++ accesses.map Fields.access)
      DartMap.empty).map Result.withoutText := by
    rw [← hnative]
    exact mem_map.mpr ⟨.exit, hexit, rfl⟩
  rw [hdart, map_append, mem_append, mem_map, mem_map] at hmem
  rcases hmem with ⟨result, hres, heq⟩ | ⟨result, hres, heq⟩
  · obtain ⟨-, -, rfl⟩ := mem_map.mp hres
    exact absurd heq nofun
  · obtain ⟨call, -, rfl⟩ := mem_map.mp hres
    exact expected_ne_exit _ _ (withoutText_eq_exit.mp heq)

open NativeEvent (valueOf) in
/-- What may be read behind the assignments, if memory may hold anything. -/
theorem readable_of_behaveAlike (hlonger : Longer length (assignments.map Assignment.name))
    (hcalls : ∀ call ∈ accesses, ∃ name, (call = .has name ∨ ∃ type, call = .get type name) ∧
      (utf8Encode name).length < length) (hroom : assignments.length ≤ eventFieldsMaximum)
    (halike : ∀ memory, BehaveAlike memory assignments accesses) :
    ∀ call ∈ accesses, (∃ name, call = .get .integer name) ∧
        (∀ assignment ∈ assignments, assignment.value.type ≠ .integer) ∨
      (∃ name, call = .has name) ∧ assignments = [] := by
  intro call hcall
  have hreadable := @accesses_of_agree
    ⟨assignments.map fun assignment => ⟨utf8Encode assignment.name, valueOf assignment.value⟩,
      assignments.length⟩ _ assignments.length assignments accesses hcalls le_rfl
          (fun memory hmemory => by
        obtain ⟨hdart, hnative⟩ := halike memory
        have hrun := (@results_assign_noise memory NativeEvent.create _ _ assignments hlonger
          (accesses.map (NativeEvent.access memory)) hmemory (Nat.zero_add _).le (Nat.zero_le _)).2
            (by
            dsimp only [NativeEvent.create, length_nil]
            omega)
        rw [hdart, hrun, map_append, map_append] at hnative
        have hrest := append_cancel_left hnative
        rwa [NativeEvent.create, nil_append, Nat.zero_add] at hrest) call hcall
  rcases hreadable with ⟨hname, hinteger⟩ | ⟨hname, hempty⟩
  · refine .inl ⟨hname, fun assignment hassignment htype => ?_⟩
    obtain ⟨hsigned, hunsigned⟩ := hinteger _ (mem_map_of_mem hassignment)
    exact hunsigned (isInteger_valueOf htype hsigned)
  · exact .inr ⟨hname, map_eq_nil_iff.mp hempty⟩

open NativeEvent (valueOf) in
/-- The fields behind the assignments have the values that were assigned, whatever their names are
compared with. -/
theorem exists_assigned (memory : Memory) (rest : List (NativeEvent → Result × NativeEvent))
    (hroom : assignments.length ≤ eventFieldsMaximum) :
    ∃ after : NativeEvent,
      results (assignments.map (NativeEvent.assign memory) ++ rest) NativeEvent.create =
        assignments.map (fun _ => .done) ++ results rest after ∧
      ∀ field ∈ after.fields, ∃ assignment ∈ assignments,
        field.value = valueOf assignment.value := by
  obtain ⟨after, hresults, hafter⟩ := @results_assign memory NativeEvent.create assignments rest (by
    dsimp only [NativeEvent.create, length_nil]
    omega)
  refine ⟨after, hresults, fun field hfield => ?_⟩
  rcases hafter field hfield with ⟨old, hold, -⟩ | hnew
  · exact absurd hold not_mem_nil
  · exact hnew

theorem behaveAlike_of_readable (memory : Memory) (hroom : assignments.length ≤ eventFieldsMaximum)
    (haccesses : ∀ call ∈ accesses, (∃ name, call = .get .integer name) ∧
        (∀ assignment ∈ assignments, assignment.value.type ≠ .integer) ∨
      (∃ name, call = .has name) ∧ assignments = []) :
    BehaveAlike memory assignments accesses := by
  refine ⟨results_dart assignments accesses, ?_⟩
  obtain ⟨after, hresults, hwritten⟩ := exists_assigned memory
    (accesses.map (NativeEvent.access memory)) hroom
  rw [results_dart, hresults, map_append, map_append]
  congr 1
  cases accesses with
  | nil => rfl
  | cons call accesses =>
    have hassigned : ∀ assignment ∈ assignments, assignment.value.type ≠ .integer := by
      rcases haccesses call mem_cons_self with ⟨-, hassigned⟩ | ⟨-, rfl⟩
      · exact hassigned
      · exact fun _ hmem => absurd hmem not_mem_nil
    have hinteger : NoInteger after := by
      intro field hfield
      obtain ⟨assignment, hassignment, hval⟩ := hwritten field hfield
      rw [hval]
      exact valueOf_isInteger (hassigned assignment hassignment)
    refine results_getInteger hinteger hassigned fun access haccess => ?_
    rcases haccesses access haccess with ⟨hname, -⟩ | ⟨hname, rfl⟩
    · exact .inl hname
    · refine .inr ⟨hname, eq_nil_iff_forall_not_mem.mpr fun field hfield => ?_, rfl⟩
      obtain ⟨_, hmem, -⟩ := hwritten field hfield
      exact absurd hmem not_mem_nil

end Agreement

/-- Whatever the freed memory holds, the events behave alike if and only if at most
`EVENT_FIELDS_MAXIMUM` assignments are made, and what is read is an integer where none was written,
or whether there is a field where there is none. -/
theorem behaveAlike_iff (assignments : List Assignment) (accesses : List Access) :
    (∀ memory, BehaveAlike memory assignments accesses) ↔
      assignments.length ≤ eventFieldsMaximum ∧ ∀ call ∈ accesses,
        (∃ name, call = .get .integer name) ∧
            (∀ assignment ∈ assignments, assignment.value.type ≠ .integer) ∨
          (∃ name, call = .has name) ∧ assignments = [] := by
  constructor
  · intro halike
    -- Memory whose strings are longer than all the names finds no field by chance.
    obtain ⟨length, hlonger⟩ :=
      exists_longer (assignments.map Assignment.name ++ accesses.map Access.name)
    have hnames : Longer length (assignments.map Assignment.name) :=
      fun name hname => hlonger name (List.mem_append_left _ hname)
    have hcalls : ∀ call ∈ accesses, ∃ name, (call = .has name ∨ ∃ type, call = .get type name) ∧
        (utf8Encode name).length < length := by
      intro call hcall
      have hlength := hlonger call.name (List.mem_append_right _ (List.mem_map_of_mem hcall))
      cases call with
      | has name => exact ⟨name, .inl rfl, hlength⟩
      | get type name => exact ⟨name, .inr ⟨type, rfl⟩, hlength⟩
    have hroom := room_of_behaveAlike hnames (halike (quiet length))
    exact ⟨hroom, readable_of_behaveAlike hnames hcalls hroom halike⟩
  · rintro ⟨hroom, haccesses⟩ memory
    exact behaveAlike_of_readable memory hroom haccesses

/-- A double that was never written: the native getter ends the process. -/
theorem not_behaveAlike : ¬∀ assignments accesses memory,
    (assignments.map Assignment.name).dedup.length ≤ eventFieldsMaximum →
      BehaveAlike memory assignments accesses := by
  intro h
  obtain ⟨hdart, hnative⟩ :=
    h [] [.get .double (literal "x")] (fun _ _ bytes => bytes) (Nat.zero_le _)
  rw [hdart] at hnative
  have hexit : results (([] : List Assignment).map (NativeEvent.assign fun _ _ bytes => bytes) ++
      [.get .double (literal "x")].map (NativeEvent.access fun _ _ bytes => bytes))
        NativeEvent.create =
      [.exit] := rfl
  rw [hexit] at hnative
  exact absurd (List.cons.inj hnative).1 nofun

end FengShui.Events
