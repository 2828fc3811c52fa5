import FengShui.Core.DynamicTuples
import FengShui.Core.TupleMeaning

/-!
# Update operations (`storage/updater.dart`)

An operation is a list of its letter, a field and an argument, whatever its type: a splice, which
the database takes with five elements, is never written, and the letter of a subtraction is not the
one that the database knows. `understood_iff` says which lists of operations are read by the
database as the updates that their constructors name. What it does with these updates is a
parameter.
-/

namespace FengShui.Storage

open MessagePack List

/-! ## The operations -/

inductive StorageUpdateOperationType where
  | add | subtract | bitwiseAnd | bitwiseOr | bitwiseXor | stringSplice | insert | delete | assign
  deriving DecidableEq, Repr

def StorageUpdateOperationType.operation : StorageUpdateOperationType → DartString
  | add => literal "+"
  | subtract => literal "_"
  | bitwiseAnd => literal "&"
  | bitwiseOr => literal "|"
  | bitwiseXor => literal "^"
  | stringSplice => literal ":"
  | insert => literal "!"
  | delete => literal "#"
  | assign => literal "="

structure StorageUpdateOperation where
  type : StorageUpdateOperationType
  field : Int64
  value : TupleValue

namespace StorageUpdateOperation

section Constructors

variable (field : Int64) (value : TupleValue)

def add : StorageUpdateOperation := ⟨.add, field, value⟩

def subtract : StorageUpdateOperation := ⟨.subtract, field, value⟩

def bitwiseAnd : StorageUpdateOperation := ⟨.bitwiseAnd, field, value⟩

def bitwiseOr : StorageUpdateOperation := ⟨.bitwiseOr, field, value⟩

def bitwiseXor : StorageUpdateOperation := ⟨.bitwiseXor, field, value⟩

def stringSplice : StorageUpdateOperation := ⟨.stringSplice, field, value⟩

def insert : StorageUpdateOperation := ⟨.insert, field, value⟩

def delete : StorageUpdateOperation := ⟨.delete, field, value⟩

def assign : StorageUpdateOperation := ⟨.assign, field, value⟩

end Constructors

def serialize (operation : StorageUpdateOperation) (offset : ℕ) : Writing ℕ := do
  let offset ← tupleWriteList 3 offset
  let offset ← tupleWriteString operation.type.operation offset
  let offset ← tupleWriteInt operation.field.toInt offset
  tupleDynamicSerialize operation.value offset

def tupleSize (operation : StorageUpdateOperation) : ℕ :=
  tupleSizeOfList 3 + tupleSizeOfString operation.type.operation.length +
    tupleSizeOfInt operation.field.toInt + tupleDynamicSize operation.value

end StorageUpdateOperation

/-- `computeTupleSize` of an `Iterable`, for these. -/
def computeTupleSize (operations : List StorageUpdateOperation) : ℕ :=
  operations.foldl (fun size entry => size + entry.tupleSize) (tupleSizeOfList operations.length)

def serializeToTuple (operations : List StorageUpdateOperation) (offset : ℕ) : Writing ℕ := do
  let offset ← tupleWriteList operations.length offset
  operations.foldlM (fun offset entry => entry.serialize offset) offset

/-! ## The updates of the database -/

/-- What is done to a field with one argument. -/
inductive UpdateAction where
  | add | subtract | bitwiseAnd | bitwiseOr | bitwiseXor | insert | delete | assign
  deriving DecidableEq, Repr

namespace UpdateAction

def all : List UpdateAction :=
  [add, subtract, bitwiseAnd, bitwiseOr, bitwiseXor, insert, delete, assign]

/-- `+`, `-`, `&`, `|`, `^`, `!`, `#` and `=`. -/
def letter : UpdateAction → List UInt8
  | add => [0x2b]
  | subtract => [0x2d]
  | bitwiseAnd => [0x26]
  | bitwiseOr => [0x7c]
  | bitwiseXor => [0x5e]
  | insert => [0x21]
  | delete => [0x23]
  | assign => [0x3d]

def ofLetter (letter : List UInt8) : Option UpdateAction :=
  all.find? fun action => action.letter = letter

theorem ofLetter_letter (action : UpdateAction) : ofLetter action.letter = some action := by
  cases action <;> rfl

theorem letter_of_ofLetter {letter : List UInt8} {action : UpdateAction}
    (h : ofLetter letter = some action) : action.letter = letter := by
  have hfound := find?_some h
  exact of_decide_eq_true hfound

end UpdateAction

inductive Update where
  | change (action : UpdateAction) (field argument : Value)
  | splice (field position length replacement : Value)

namespace Update

/-- The letter of a splice is `:`. -/
def spliceLetter : List UInt8 := [0x3a]

/-- The grammar of an update. -/
def ofValue : Value → Option Update
  | .array [.leaf (.string letter), field, argument] =>
    (UpdateAction.ofLetter letter).map fun action => .change action field argument
  | .array [.leaf (.string letter), field, position, length, replacement] =>
    if letter = spliceLetter then some (.splice field position length replacement) else none
  | _ => none

def toValue : Update → Value
  | change action field argument => .array [.leaf (.string action.letter), field, argument]
  | splice field position length replacement =>
    .array [.leaf (.string spliceLetter), field, position, length, replacement]

theorem ofValue_toValue (update : Update) : ofValue update.toValue = some update := by
  cases update with
  | change action field argument =>
    show (UpdateAction.ofLetter action.letter).map _ = _
    rw [action.ofLetter_letter]
    rfl
  | splice field position length replacement => rfl

theorem toValue_of_ofValue {value : Value} {update : Update} (h : ofValue value = some update) :
    update.toValue = value := by
  unfold ofValue at h
  split at h
  · obtain ⟨action, haction, rfl⟩ := Option.map_eq_some_iff.mp h
    rw [toValue, UpdateAction.letter_of_ofLetter haction]
  · split_ifs at h with hletter
    cases h
    rw [toValue, hletter]
  · cases h

/-- A list of updates. -/
def listOfValue : Value → Option (List Update)
  | .array items => items.mapM ofValue
  | _ => none

theorem listOfValue_toValue (updates : List Update) :
    listOfValue (.array (updates.map toValue)) = some updates := by
  show (updates.map toValue).mapM ofValue = some updates
  induction updates with
  | nil => rfl
  | cons update updates ih =>
    rw [map_cons, mapM_cons, ofValue_toValue, ih]
    rfl

theorem toValue_of_listOfValue {value : Value} {updates : List Update}
    (h : listOfValue value = some updates) : .array (updates.map toValue) = value := by
  unfold listOfValue at h
  split at h
  · rename_i items
    congr 1
    induction items generalizing updates with
    | nil =>
      cases h
      rfl
    | cons item items ih =>
      rw [mapM_cons] at h
      obtain ⟨update, hupdate, h⟩ := Option.bind_eq_some_iff.mp h
      obtain ⟨others, hothers, h⟩ := Option.bind_eq_some_iff.mp h
      cases h
      rw [map_cons, toValue_of_ofValue hupdate, ih hothers]
  · cases h

end Update

/-- What becomes of a tuple with the updates that these bytes are, for a database that does this
with a list of updates. -/
def execute {Tuple : Type} (update : List Update → Tuple → Option Tuple) (bytes : Uint8List)
    (tuple : Tuple) :
    Option Tuple := do
  let value ← decode bytes
  let updates ← Update.listOfValue value
  update updates tuple

/-- The update that the name of a constructor says. A splice has the field of the operation, and its
value is to say where and with what, in whatever way. -/
inductive Names : StorageUpdateOperation → Update → Prop
  | add (field : Int64) (value : TupleValue) :
    Names (.add field value) (.change .add (.leaf (.int field.toInt)) (meantOf value))
  | subtract (field : Int64) (value : TupleValue) :
    Names (.subtract field value) (.change .subtract (.leaf (.int field.toInt)) (meantOf value))
  | bitwiseAnd (field : Int64) (value : TupleValue) :
    Names (.bitwiseAnd field value) (.change .bitwiseAnd (.leaf (.int field.toInt)) (meantOf value))
  | bitwiseOr (field : Int64) (value : TupleValue) :
    Names (.bitwiseOr field value) (.change .bitwiseOr (.leaf (.int field.toInt)) (meantOf value))
  | bitwiseXor (field : Int64) (value : TupleValue) :
    Names (.bitwiseXor field value) (.change .bitwiseXor (.leaf (.int field.toInt)) (meantOf value))
  | stringSplice (field : Int64) (value : TupleValue) (position length replacement : Value) :
    Names (.stringSplice field value)
      (.splice (.leaf (.int field.toInt)) position length replacement)
  | insert (field : Int64) (value : TupleValue) :
    Names (.insert field value) (.change .insert (.leaf (.int field.toInt)) (meantOf value))
  | delete (field : Int64) (value : TupleValue) :
    Names (.delete field value) (.change .delete (.leaf (.int field.toInt)) (meantOf value))
  | assign (field : Int64) (value : TupleValue) :
    Names (.assign field value) (.change .assign (.leaf (.int field.toInt)) (meantOf value))

/-- In every memory with room for the size, what is written takes just that room. -/
def Fits (serialize : ℕ → Writing ℕ) (size : ℕ) : Prop :=
  ∀ offset (buffer : Uint8List), offset + size ≤ buffer.length → ∃ buffer',
    serialize offset buffer = .ok (offset + size) buffer' ∧
      buffer'.take offset = buffer.take offset ∧
      buffer'.drop (offset + size) = buffer.drop (offset + size)

/-- Every operation is written in its size, and the list as bytes that are, for every database and
every tuple, the updates that the constructors name. -/
structure Understood (operations : List StorageUpdateOperation) : Prop where
  sizes : ∀ operation ∈ operations, Fits operation.serialize operation.tupleSize
  meaning : ∃ updates, List.Forall₂ Names operations updates ∧
    ∀ offset (buffer : Uint8List), offset + computeTupleSize operations ≤ buffer.length →
      ∃ bytes : Uint8List, bytes.length = computeTupleSize operations ∧
        serializeToTuple operations offset buffer = .ok (offset + computeTupleSize operations)
          (buffer.take offset ++ bytes ++ buffer.drop (offset + computeTupleSize operations)) ∧
        ∀ (Tuple : Type) (update : List Update → Tuple → Option Tuple) (tuple : Tuple),
          execute update bytes tuple = update updates tuple

/-- The operations that mean what they are named, and take their size: no subtraction and no splice,
no integer from 128 to 255, no string that is not ASCII, and sizes that are those of what is
written. -/
structure Plain (operation : StorageUpdateOperation) : Prop where
  subtract : operation.type ≠ .subtract
  stringSplice : operation.type ≠ .stringSplice
  serializable : Serializable operation.value
  field : NotFallingThrough (.int operation.field)
  numbers : Leaves NotFallingThrough operation.value
  strings : Leaves AsciiString operation.value
  surplus : surplusOfInt operation.field.toInt + surplusOf operation.value = 0

/-! ## What is written -/

namespace StorageUpdateOperation

/-- The value whose bytes are written. -/
def document (operation : StorageUpdateOperation) : TupleValue :=
  .list [.string operation.type.operation, .int operation.field, operation.value]

theorem serialize_eq (operation : StorageUpdateOperation) (offset : ℕ) :
    operation.serialize offset = tupleDynamicSerialize operation.document offset := by
  simp only [document, tupleDynamicSerialize, serializeItems, bind_pure]
  rfl

theorem tupleSize_eq (operation : StorageUpdateOperation) :
    operation.tupleSize = tupleDynamicSize operation.document := by
  simp only [document, tupleDynamicSize, tupleSizeOfItems, tupleSize, Nat.add_zero, Nat.add_assoc]
  rfl

theorem surplusOf_document (operation : StorageUpdateOperation) :
    surplusOf operation.document = surplusOfInt operation.field.toInt +
      surplusOf operation.value := by
  have hletter : surplusOfString operation.type.operation.length = 0 := by
    cases operation.type <;> rfl
  simp only [document, surplusOf, surplusOfItems, hletter, zero_add, add_zero]

theorem serializable_document_iff (operation : StorageUpdateOperation) :
    Serializable operation.document ↔ Serializable operation.value := by
  have hletter : operation.type.operation.length ≤ 0xFFFFFFFF ∧
      Encodable operation.type.operation := by
    cases operation.type <;> exact ⟨by decide, trivial⟩
  constructor
  · exact fun h => h.2.2.2.1
  · exact fun h => ⟨show 3 ≤ 0xFFFFFFFF by decide, hletter, trivial, h, trivial⟩

theorem ascii_letter (type : StorageUpdateOperationType) : Unicode.Ascii type.operation := by
  cases type <;> exact forall_mem_singleton.mpr (by decide)

/-- The leaves of the list are the letter, the field and those of the value. -/
theorem leaves_document_iff (operation : StorageUpdateOperation) :
    Leaves NotFallingThrough operation.document ∧ Leaves AsciiString operation.document ↔
      NotFallingThrough (.int operation.field) ∧ Leaves NotFallingThrough operation.value ∧
        Leaves AsciiString operation.value := by
  constructor
  · rintro ⟨⟨-, hfield, hnumbers, -⟩, -, -, hstrs, -⟩
    exact ⟨hfield, hnumbers, hstrs⟩
  · rintro ⟨hfield, hnumbers, hstrs⟩
    exact ⟨⟨trivial, hfield, hnumbers, trivial⟩, ascii_letter _, trivial, hstrs, trivial⟩

end StorageUpdateOperation

open StorageUpdateOperation

/-- The list of the values whose bytes are written. -/
def documentOf (operations : List StorageUpdateOperation) : TupleValue :=
  .list (operations.map document)

theorem serializeToTuple_eq (operations : List StorageUpdateOperation) (offset : ℕ) :
    serializeToTuple operations offset = tupleDynamicSerialize (documentOf operations) offset := by
  have hloop (start : ℕ) : operations.foldlM (fun offset entry => entry.serialize offset) start =
      serializeItems (operations.map document) start := by
    induction operations generalizing start with
    | nil => rfl
    | cons operation operations ih =>
      rw [foldlM_cons, map_cons, serializeItems, serialize_eq]
      exact congrArg _ (funext ih)
  unfold serializeToTuple documentOf tupleDynamicSerialize
  rw [length_map]
  exact congrArg _ (funext hloop)

theorem computeTupleSize_eq (operations : List StorageUpdateOperation) :
    computeTupleSize operations = tupleDynamicSize (documentOf operations) := by
  have hloop (start : ℕ) : operations.foldl (fun size entry => size + entry.tupleSize) start =
      start + tupleSizeOfItems (operations.map document) := by
    induction operations generalizing start with
    | nil => rfl
    | cons operation operations ih =>
      rw [foldl_cons, ih, map_cons, tupleSizeOfItems, tupleSize_eq, Nat.add_assoc]
  unfold computeTupleSize documentOf tupleDynamicSize
  rw [hloop, length_map]

theorem serializable_documentOf_iff (operations : List StorageUpdateOperation) :
    Serializable (documentOf operations) ↔ operations.length ≤ 0xFFFFFFFF ∧
      ∀ operation ∈ operations, Serializable operation.value := by
  have hitems : SerializableItems (operations.map document) ↔
      ∀ operation ∈ operations, Serializable operation.value := by
    induction operations with
    | nil => exact iff_of_true trivial (forall_mem_nil _)
    | cons operation operations ih =>
      rw [map_cons, forall_mem_cons, ← ih, ← serializable_document_iff]
      rfl
  show (operations.map document).length ≤ 0xFFFFFFFF ∧ SerializableItems (operations.map document) ↔
    _
  rw [length_map, hitems]

theorem renderingsOfItems_documents (operations : List StorageUpdateOperation) :
    (renderingsOfItems (operations.map document)).flatMap Rendering.written =
      operations.flatMap fun operation => writtenTokens operation.document := by
  induction operations with
  | nil => rfl
  | cons operation operations ih =>
    rw [map_cons, renderingsOfItems, flatMap_append, ih, flatMap_cons, writtenTokens]

variable {operations : List StorageUpdateOperation} {operation : StorageUpdateOperation}

/-- In a memory of just the size, the bytes of the list are those of its value. -/
theorem bytes_eq {bytes : Uint8List} (hlen : bytes.length = computeTupleSize operations)
    (h : serializeToTuple operations 0 (List.replicate (computeTupleSize operations) 0) =
      .ok (0 + computeTupleSize operations) (List.take 0 (List.replicate (computeTupleSize
        operations) 0) ++ bytes ++ List.drop (0 + computeTupleSize operations) (List.replicate
        (computeTupleSize operations) 0))) :
    Serializable (documentOf operations) ∧ bytes = bytesOf (documentOf operations) := by
  obtain ⟨written, -, hwrites⟩ := writes_tupleDynamicSerialize (documentOf operations)
  rw [serializeToTuple_eq] at h
  constructor
  · by_contra hinvalid
    obtain ⟨e, last, herror⟩ := hwrites.throws 0 _ (Nat.zero_le _) fun h => hinvalid h.1
    cases h.symm.trans herror
  · obtain ⟨hstop, rest, hbuf⟩ :=
      puts_tupleDynamicSerialize (documentOf operations) 0 _ _ _ (Nat.zero_le _) h
    rw [take_zero, nil_append, nil_append] at hbuf
    exact append_inj_left hbuf (by omega)

/-! ## What is read -/

/-- An update that is neither a subtraction nor a splice is the value that is written. -/
theorem toValue_eq {update : Update} (h : Names operation update)
    (hsubtract : operation.type ≠ .subtract) (hsplice : operation.type ≠ .stringSplice) :
    update.toValue = meantOf operation.document := by
  cases h with
  | subtract => exact absurd rfl hsubtract
  | stringSplice => exact absurd rfl hsplice
  | _ => rfl

theorem exists_names (operation : StorageUpdateOperation) : ∃ update, Names operation update := by
  obtain ⟨type, field, value⟩ := operation
  cases type with
  | add => exact ⟨_, .add field value⟩
  | subtract => exact ⟨_, .subtract field value⟩
  | bitwiseAnd => exact ⟨_, .bitwiseAnd field value⟩
  | bitwiseOr => exact ⟨_, .bitwiseOr field value⟩
  | bitwiseXor => exact ⟨_, .bitwiseXor field value⟩
  | stringSplice =>
    exact ⟨_, .stringSplice field value (.leaf .nil) (.leaf .nil) (.leaf .nil)⟩
  | insert => exact ⟨_, .insert field value⟩
  | delete => exact ⟨_, .delete field value⟩
  | assign => exact ⟨_, .assign field value⟩

/-- What is read of one operation, with the updates behind it. -/
theorem plain_of_tokens {update : Update} (hnames : Names operation update)
    {behind rest : List Token} (hbehind : ∀ value others, behind ≠ .leaf (.int value) :: others)
    (h : update.toValue.tokens ++ behind = writtenTokens operation.document ++ rest) :
    (operation.type ≠ .subtract ∧ operation.type ≠ .stringSplice ∧
      ∀ r ∈ renderings operation.document, r.Faithful) ∧ behind = rest := by
  have hsubtract : operation.type ≠ .subtract := by
    intro htype
    cases hnames with
    | subtract field value =>
      -- The second token is the letter.
      have hletter := (List.cons.inj (List.cons.inj h).2).1
      cases hletter
    | _ => cases htype
  have hsplice : operation.type ≠ .stringSplice := by
    intro htype
    cases hnames with
    | stringSplice field value position length replacement =>
      -- The header says three elements, and not five.
      have hhdr := (List.cons.inj h).1
      cases hhdr
    | _ => cases htype
  rw [toValue_eq hnames hsubtract hsplice, tokens_meantOf] at h
  obtain ⟨hfaithful, hrest⟩ :=
    all_eq_of_append_eq (stutters_renderings operation.document) hbehind h
  exact ⟨⟨hsubtract, hsplice, hfaithful⟩, hrest⟩

/-- Behind an operation the next one begins with the header of a list. -/
theorem flatMap_tokens_ne (updates : List Update) (value : ℤ) (others : List Token) :
    (updates.flatMap fun update => update.toValue.tokens) ≠ .leaf (.int value) :: others := by
  cases updates with
  | nil => exact nofun
  | cons update updates =>
    intro h
    cases update with
    | change action field argument => cases (List.cons.inj h).1
    | splice field position length replacement => cases (List.cons.inj h).1

theorem plain_of_flatMap {updates : List Update} (hnames : List.Forall₂ Names operations updates)
    (h : (updates.flatMap fun update => update.toValue.tokens) =
      operations.flatMap fun operation => writtenTokens operation.document) :
    ∀ operation ∈ operations, operation.type ≠ .subtract ∧ operation.type ≠ .stringSplice ∧
      ∀ r ∈ renderings operation.document, r.Faithful := by
  induction hnames with
  | nil => exact forall_mem_nil _
  | cons hfirst _ ih =>
    rw [flatMap_cons, flatMap_cons] at h
    obtain ⟨hplain, hothers⟩ := plain_of_tokens hfirst (flatMap_tokens_ne _) h
    exact forall_mem_cons.mpr ⟨hplain, ih hothers⟩

/-! ## The operations that are understood -/

theorem fits_iff (operation : StorageUpdateOperation) :
    Fits operation.serialize operation.tupleSize ↔ Serializable operation.value ∧
      surplusOfInt operation.field.toInt + surplusOf operation.value = 0 ∧
        spillOf operation.document = 0 := by
  have hserialize : operation.serialize = tupleDynamicSerialize operation.document :=
    funext operation.serialize_eq
  rw [hserialize, operation.tupleSize_eq, ← serializable_document_iff, ← surplusOf_document]
  exact sizeLaw_iff operation.document

theorem Understood.plain (h : Understood operations) :
    operations.length ≤ 0xFFFFFFFF ∧ ∀ operation ∈ operations, Plain operation := by
  obtain ⟨hsizes, updates, hnames, hmeaning⟩ := h
  obtain ⟨bytes, hlen, hwrite, hexecute⟩ :=
    hmeaning 0 (List.replicate (computeTupleSize operations) 0) (by rw [length_replicate]; omega)
  obtain ⟨hserializable, rfl⟩ := bytes_eq hlen hwrite
  obtain ⟨hcount, -⟩ := (serializable_documentOf_iff operations).mp hserializable
  -- A database whose tuple is what it is told to do.
  have hread := hexecute (List Update) (fun updates _ => some updates) []
  obtain ⟨value, hdecode, hread⟩ := Option.bind_eq_some_iff.mp hread
  obtain ⟨read, hlist, hread⟩ := Option.bind_eq_some_iff.mp hread
  cases hread
  obtain rfl := Update.toValue_of_listOfValue hlist
  have hspelled := spelled_bytesOf hserializable []
  rw [append_nil] at hspelled
  have htokens := (decode_eq_some_iff.mp hdecode).unique hspelled
  have hops := plain_of_flatMap hnames (by
    have hothers := (List.cons.inj htokens).2
    rw [Value.tokensOfItems_eq, flatMap_map] at hothers
    exact hothers.trans (renderingsOfItems_documents operations))
  -- What the tokens do not say of an operation, its size does.
  refine ⟨hcount, fun operation hmem => ?_⟩
  obtain ⟨hsubtract, hsplice, hfaithful⟩ := hops operation hmem
  obtain ⟨hvalid, hsurplus, -⟩ := (fits_iff operation).mp (hsizes operation hmem)
  have hleaves := (forall_faithful_iff operation.document).mp hfaithful
  obtain ⟨hfield, hnumbers, hstrs⟩ := operation.leaves_document_iff.mp hleaves
  exact ⟨hsubtract, hsplice, hvalid, hfield, hnumbers, hstrs, hsurplus⟩

section Understanding

variable {operations : List StorageUpdateOperation}

theorem Plain.leaves {operation : StorageUpdateOperation} (h : Plain operation) :
    Leaves NotFallingThrough operation.document ∧ Leaves AsciiString operation.document :=
  operation.leaves_document_iff.mpr ⟨h.field, h.numbers, h.strings⟩

theorem leaves_documentOf (h : ∀ operation ∈ operations, Plain operation) :
    Leaves NotFallingThrough (documentOf operations) ∧
      Leaves AsciiString (documentOf operations) := by
  show LeavesItems _ (operations.map document) ∧ LeavesItems _ (operations.map document)
  induction operations with
  | nil => exact ⟨trivial, trivial⟩
  | cons operation operations ih =>
    obtain ⟨hfirst, hothers⟩ := forall_mem_cons.mp h
    obtain ⟨hnumbers, hstrs⟩ := hfirst.leaves
    obtain ⟨hothersNumbers, hothersStrs⟩ := ih hothers
    exact ⟨⟨hnumbers, hothersNumbers⟩, hstrs, hothersStrs⟩

theorem surplusOf_documentOf (h : ∀ operation ∈ operations, Plain operation) :
    surplusOf (documentOf operations) = 0 := by
  show surplusOfItems (operations.map document) = 0
  induction operations with
  | nil => rfl
  | cons operation operations ih =>
    obtain ⟨hfirst, hothers⟩ := forall_mem_cons.mp h
    rw [map_cons, surplusOfItems, surplusOf_document, hfirst.surplus, ih hothers, zero_add]

/-- The updates that the constructors name are the value whose bytes are written. -/
theorem exists_updates (h : ∀ operation ∈ operations, Plain operation) :
    ∃ updates, List.Forall₂ Names operations updates ∧
      updates.map Update.toValue = meantOfItems (operations.map document) := by
  induction operations with
  | nil => exact ⟨[], .nil, rfl⟩
  | cons operation operations ih =>
    obtain ⟨hfirst, hothers⟩ := forall_mem_cons.mp h
    obtain ⟨update, hnames⟩ := exists_names operation
    obtain ⟨updates, hnamesOthers, hvals⟩ := ih hothers
    have hval := toValue_eq hnames hfirst.subtract hfirst.stringSplice
    refine ⟨update :: updates, .cons hnames hnamesOthers, ?_⟩
    rw [map_cons, hval, hvals]
    rfl

theorem understood_of_plain (hcount : operations.length ≤ 0xFFFFFFFF)
    (h : ∀ operation ∈ operations, Plain operation) : Understood operations := by
  obtain ⟨hnumbers, hstrs⟩ := leaves_documentOf h
  have hvalid : Serializable (documentOf operations) :=
    (serializable_documentOf_iff operations).mpr
      ⟨hcount, fun operation hmem => (h operation hmem).serializable⟩
  constructor
  · intro operation hmem
    have hplain := h operation hmem
    exact (fits_iff operation).mpr ⟨hplain.serializable, hplain.surplus,
      spillOf_eq_zero hplain.leaves.2⟩
  · obtain ⟨updates, hnames, hvals⟩ := exists_updates h
    obtain ⟨written, hwritten, hwrites⟩ := writes_tupleDynamicSerialize (documentOf operations)
    rw [surplusOf_documentOf h, add_zero, ← computeTupleSize_eq, Nat.cast_inj] at hwritten
    rw [spillOf_eq_zero hstrs, add_zero, hwritten] at hwrites
    refine ⟨updates, hnames, fun offset buffer hroom => ⟨bytesOf (documentOf operations), ?_⟩⟩
    obtain ⟨hlen, hwrite⟩ :=
      written_eq (puts_tupleDynamicSerialize (documentOf operations)) hwrites hvalid hroom
    rw [← hlen, ← serializeToTuple_eq] at hwrite
    refine ⟨hlen.symm, hwrite, fun Tuple update tuple => ?_⟩
    -- The bytes are those of the value that is meant, which is the list of the updates.
    have hspelled := spelled_bytesOf hvalid []
    rw [append_nil, writtenTokens_eq hnumbers hstrs] at hspelled
    have hdecode : decode (bytesOf (documentOf operations)) =
        some (.array (updates.map Update.toValue)) := by
      rw [hvals]
      exact decode_eq_some_iff.mpr hspelled
    unfold execute
    rw [hdecode]
    show (Update.listOfValue (.array (updates.map Update.toValue))).bind _ = _
    rw [Update.listOfValue_toValue]
    rfl

end Understanding

/-- The lists of no more than `2^32 - 1` operations that are all plain. -/
theorem understood_iff (operations : List StorageUpdateOperation) :
    Understood operations ↔
      operations.length ≤ 0xFFFFFFFF ∧ ∀ operation ∈ operations, Plain operation :=
  ⟨Understood.plain, fun h => understood_of_plain h.1 h.2⟩

/-- A subtraction is written with a letter that no update has. -/
theorem not_understood : ¬∀ operations : List StorageUpdateOperation, Understood operations := by
  intro h
  obtain ⟨-, hplain⟩ := (h [.subtract 1 (.int 1)]).plain
  exact (hplain _ List.mem_cons_self).subtract rfl

end FengShui.Storage
