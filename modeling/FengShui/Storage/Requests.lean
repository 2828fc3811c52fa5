import FengShui.Lib.Layout
import FengShui.Storage.References

/-!
# Requests in memory (`factory.dart`, `box.h`)

The factory fills a structure with a request, whose last field is the task that is sent. The handler
finds the structure at the input of the task. The structures lie in a memory of their own: tuples,
keys and operations are read from the memory of the handlers.
-/

namespace FengShui.Storage

open Lib.Layout

/-! ## Layouts -/

/-- The fields of `executor_task`. -/
inductive TaskField where
  | id | source | target | owner | method | input | inputSize | output | outputSize | flags
  deriving DecidableEq

def TaskField.type : TaskField → FieldType
  | flags => ⟨2, 2⟩
  | _ => ⟨8, 8⟩

def executorTask : List TaskField :=
  [.id, .source, .target, .owner, .method, .input, .inputSize, .output, .outputSize, .flags]

/-- `executorMessageSize`. -/
def executorMessageSize : ℕ := structureSize TaskField.type executorTask

/-- Where the input of a task is. -/
def inputOffset : ℕ := fieldOffset TaskField.type executorTask .input

/-- The fields of the requests. -/
inductive RequestField where
  | key | keySize | tuple | tupleSize | operations | operationsSize
  | spaceId | indexId | iteratorType | type | offset | limit
  | name | nameLength | function | functionLength | expression | expressionLength | input
  | inputSize
  | task
  deriving DecidableEq

/-- Pointers and sizes, numbers of 32 bits, and the task. -/
def RequestField.fieldType : RequestField → FieldType
  | spaceId | indexId | iteratorType | type | offset | limit | functionLength | expressionLength =>
    ⟨4, 4⟩
  | task => ⟨executorMessageSize, structureAlignment TaskField.type executorTask⟩
  | _ => ⟨8, 8⟩

abbrev RequestLayout := List RequestField

def spaceRequestLayout : RequestLayout := [.tupleSize, .tuple, .spaceId, .task]

def spaceCountRequestLayout : RequestLayout := [.keySize, .key, .spaceId, .iteratorType, .task]

def spaceSelectRequestLayout : RequestLayout :=
  [.keySize, .key, .spaceId, .offset, .limit, .iteratorType, .task]

def spaceUpdateRequestLayout : RequestLayout :=
  [.keySize, .operationsSize, .key, .operations, .spaceId, .task]

def spaceUpsertRequestLayout : RequestLayout :=
  [.tupleSize, .tuple, .operations, .operationsSize, .spaceId, .task]

def spaceIteratorRequestLayout : RequestLayout := [.keySize, .key, .spaceId, .type, .task]

def indexRequestLayout : RequestLayout := [.tupleSize, .tuple, .spaceId, .indexId, .task]

def indexCountRequestLayout : RequestLayout :=
  [.keySize, .key, .spaceId, .indexId, .iteratorType, .task]

def indexIdByNameRequestLayout : RequestLayout := [.name, .nameLength, .spaceId, .task]

def indexUpdateRequestLayout : RequestLayout :=
  [.key, .keySize, .operations, .operationsSize, .spaceId, .indexId, .task]

def callRequestLayout : RequestLayout := [.function, .input, .inputSize, .functionLength, .task]

def evaluateRequestLayout : RequestLayout :=
  [.expression, .input, .inputSize, .expressionLength, .task]

def indexIteratorRequestLayout : RequestLayout :=
  [.key, .keySize, .spaceId, .indexId, .type, .task]

def indexSelectRequestLayout : RequestLayout :=
  [.key, .keySize, .spaceId, .indexId, .offset, .limit, .iteratorType, .task]

/-- `storage_index_id_request` has no task. -/
def indexIdRequestLayout : RequestLayout := [.spaceId, .indexId]

/-! ## The factory (`StorageFactory`) -/

/-- The memory of the structures. -/
abbrev Heap := ℕ → UInt8

/-- A task that is sent, with the memory behind its factory. -/
structure Message where
  heap : Heap
  task : ℕ

/-- Where the task of a request at an address is: the message offset of the factory behind it. -/
def messageOf (layout : RequestLayout) (address : ℕ) : ℕ :=
  address + structureSize RequestField.fieldType layout - executorMessageSize

/-- `request.ref.task.input = request.cast()`. -/
def setInput (layout : RequestLayout) (heap : Heap) (address : ℕ) : Heap :=
  writeLE heap (address + fieldOffset RequestField.fieldType layout .task + inputOffset) 8 address

/-- A request with its fields, which is the input of its task. -/
def createRequest (layout : RequestLayout) (fields : List (RequestField × ℤ)) (heap : Heap)
    (address : ℕ) : Message :=
  ⟨setInput layout (fill RequestField.fieldType layout heap address fields) address,
    messageOf layout address⟩

/-- `createMessage()..inputInt`: a task of its own. -/
def createNumber (input : ℤ) (heap : Heap) (address : ℕ) : Message :=
  let heap := writeField TaskField.type executorTask heap address .input input
  ⟨writeField TaskField.type executorTask heap address .inputSize 4, address⟩

def createSpace (spaceId tuple tupleSize : ℤ) : Heap → ℕ → Message :=
  createRequest spaceRequestLayout [(.spaceId, spaceId), (.tuple, tuple), (.tupleSize, tupleSize)]

def createSpaceCount (spaceId iteratorType key keySize : ℤ) : Heap → ℕ → Message :=
  createRequest spaceCountRequestLayout
    [(.spaceId, spaceId), (.key, key), (.keySize, keySize), (.iteratorType, iteratorType)]

def createSpaceSelect (spaceId key keySize offset limit iteratorType : ℤ) : Heap → ℕ → Message :=
  createRequest spaceSelectRequestLayout [(.spaceId, spaceId), (.key, key), (.keySize, keySize),
    (.iteratorType, iteratorType), (.offset, offset), (.limit, limit)]

def createSpaceUpdate (spaceId key keySize operations operationsSize : ℤ) : Heap → ℕ → Message :=
  createRequest spaceUpdateRequestLayout [(.spaceId, spaceId), (.key, key), (.keySize, keySize),
    (.operations, operations), (.operationsSize, operationsSize)]

def createSpaceUpsert (spaceId tuple tupleSize operations operationsSize : ℤ) :
    Heap → ℕ → Message :=
  createRequest spaceUpsertRequestLayout [(.spaceId, spaceId), (.tuple, tuple),
    (.tupleSize, tupleSize), (.operations, operations), (.operationsSize, operationsSize)]

def createSpaceIterator (spaceId type key keySize : ℤ) : Heap → ℕ → Message :=
  createRequest spaceIteratorRequestLayout
    [(.spaceId, spaceId), (.key, key), (.keySize, keySize), (.type, type)]

def createIndex (spaceId indexId tuple tupleSize : ℤ) : Heap → ℕ → Message :=
  createRequest indexRequestLayout
    [(.spaceId, spaceId), (.indexId, indexId), (.tuple, tuple), (.tupleSize, tupleSize)]

def createIndexCount (spaceId indexId key keySize iteratorType : ℤ) : Heap → ℕ → Message :=
  createRequest indexCountRequestLayout [(.spaceId, spaceId), (.indexId, indexId), (.key, key),
    (.keySize, keySize), (.iteratorType, iteratorType)]

/-- The input of the task is not set, and the task lies in front of the request. -/
def createIndexId (spaceId indexId : ℤ) (heap : Heap) (address : ℕ) : Message :=
  ⟨fill RequestField.fieldType indexIdRequestLayout heap address
      [(.spaceId, spaceId), (.indexId, indexId)],
    messageOf indexIdRequestLayout address⟩

/-- The operations are not written. -/
def createIndexUpdate (spaceId indexId key keySize _operations _operationsSize : ℤ) :
    Heap → ℕ → Message :=
  createRequest indexUpdateRequestLayout
    [(.spaceId, spaceId), (.indexId, indexId), (.key, key), (.keySize, keySize)]

def createIndexIterator (spaceId indexId type key keySize : ℤ) : Heap → ℕ → Message :=
  createRequest indexIteratorRequestLayout [(.spaceId, spaceId), (.indexId, indexId), (.type, type),
    (.key, key), (.keySize, keySize)]

def createIndexSelect (spaceId indexId key keySize offset limit type : ℤ) : Heap → ℕ → Message :=
  createRequest indexSelectRequestLayout [(.spaceId, spaceId), (.indexId, indexId),
    (.iteratorType, type), (.key, key), (.keySize, keySize), (.offset, offset), (.limit, limit)]

/-! ## What the handlers read (`box.c`) -/

/-- `task->input`. -/
def inputOf (heap : Heap) (task : ℕ) : ℕ := readField TaskField.type executorTask heap task .input

/-- The producer's methods that the spaces and the indexes use (`StorageProducer`). -/
inductive ProducerMethod where
  | spaceCount | spaceLength | spaceIterator | spaceInsertSingle | spaceInsertMany | spacePutSingle
  | spacePutMany | spaceDeleteSingle | spaceDeleteMany | spaceUpdateSingle | spaceUpdateMany
  | spaceSelect | spaceGet | spaceMin | spaceMax | spaceTruncate | spaceUpsert
  | indexCount | indexLength | indexIterator | indexGet | indexMin | indexMax
  | indexUpdateSingle | indexUpdateMany | indexSelect
  deriving DecidableEq

section Read

variable (heap : Heap) (input : ℕ)

def readSpaceRequest : SpaceRequest :=
  let read := readField RequestField.fieldType spaceRequestLayout heap input
  ⟨read .tupleSize, read .tuple, read .spaceId⟩

def readSpaceCountRequest : SpaceCountRequest :=
  let read := readField RequestField.fieldType spaceCountRequestLayout heap input
  ⟨read .keySize, read .key, read .spaceId, read .iteratorType⟩

def readSpaceSelectRequest : SpaceSelectRequest :=
  let read := readField RequestField.fieldType spaceSelectRequestLayout heap input
  ⟨read .keySize, read .key, read .spaceId, read .offset, read .limit, read .iteratorType⟩

def readSpaceUpdateRequest : SpaceUpdateRequest :=
  let read := readField RequestField.fieldType spaceUpdateRequestLayout heap input
  ⟨read .keySize, read .operationsSize, read .key, read .operations, read .spaceId⟩

def readSpaceUpsertRequest : SpaceUpsertRequest :=
  let read := readField RequestField.fieldType spaceUpsertRequestLayout heap input
  ⟨read .tupleSize, read .tuple, read .operations, read .operationsSize, read .spaceId⟩

def readSpaceIteratorRequest : SpaceIteratorRequest :=
  let read := readField RequestField.fieldType spaceIteratorRequestLayout heap input
  ⟨read .keySize, read .key, read .spaceId, read .type⟩

def readIndexRequest : IndexRequest :=
  let read := readField RequestField.fieldType indexRequestLayout heap input
  ⟨read .tupleSize, read .tuple, read .spaceId, read .indexId⟩

def readIndexCountRequest : IndexCountRequest :=
  let read := readField RequestField.fieldType indexCountRequestLayout heap input
  ⟨read .keySize, read .key, read .spaceId, read .indexId, read .iteratorType⟩

def readIndexUpdateRequest : IndexUpdateRequest :=
  let read := readField RequestField.fieldType indexUpdateRequestLayout heap input
  ⟨read .key, read .keySize, read .operations, read .operationsSize, read .spaceId, read .indexId⟩

def readIndexIteratorRequest : IndexIteratorRequest :=
  let read := readField RequestField.fieldType indexIteratorRequestLayout heap input
  ⟨read .key, read .keySize, read .spaceId, read .indexId, read .type⟩

def readIndexSelectRequest : IndexSelectRequest :=
  let read := readField RequestField.fieldType indexSelectRequestLayout heap input
  ⟨read .key, read .keySize, read .spaceId, read .indexId, read .offset, read .limit,
    read .iteratorType⟩

def readIndexIdRequest : IndexIdRequest :=
  let read := readField RequestField.fieldType indexIdRequestLayout heap input
  ⟨read .spaceId, read .indexId⟩

end Read

/-- The request that the handler of a method takes a task for. -/
def ProducerMethod.request (heap : Heap) (task : ℕ) : ProducerMethod → Request
  | spaceCount => .spaceCount (readSpaceCountRequest heap (inputOf heap task))
  | spaceLength => .spaceLength (inputOf heap task)
  | spaceIterator => .spaceIterator (readSpaceIteratorRequest heap (inputOf heap task))
  | spaceInsertSingle => .spaceInsertSingle (readSpaceRequest heap (inputOf heap task))
  | spaceInsertMany => .spaceInsertMany (readSpaceRequest heap (inputOf heap task))
  | spacePutSingle => .spacePutSingle (readSpaceRequest heap (inputOf heap task))
  | spacePutMany => .spacePutMany (readSpaceRequest heap (inputOf heap task))
  | spaceDeleteSingle => .spaceDeleteSingle (readSpaceRequest heap (inputOf heap task))
  | spaceDeleteMany => .spaceDeleteMany (readSpaceRequest heap (inputOf heap task))
  | spaceUpdateSingle => .spaceUpdateSingle (readSpaceUpdateRequest heap (inputOf heap task))
  | spaceUpdateMany => .spaceUpdateMany (readSpaceUpdateRequest heap (inputOf heap task))
  | spaceSelect => .spaceSelect (readSpaceSelectRequest heap (inputOf heap task))
  | spaceGet => .spaceGet (readSpaceRequest heap (inputOf heap task))
  | spaceMin => .spaceMin (readSpaceRequest heap (inputOf heap task))
  | spaceMax => .spaceMax (readSpaceRequest heap (inputOf heap task))
  | spaceTruncate => .spaceTruncate (inputOf heap task)
  | spaceUpsert => .spaceUpsert (readSpaceUpsertRequest heap (inputOf heap task))
  | indexCount => .indexCount (readIndexCountRequest heap (inputOf heap task))
  | indexLength => .indexLength (readIndexIdRequest heap (inputOf heap task))
  | indexIterator => .indexIterator (readIndexIteratorRequest heap (inputOf heap task))
  | indexGet => .indexGet (readIndexRequest heap (inputOf heap task))
  | indexMin => .indexMin (readIndexRequest heap (inputOf heap task))
  | indexMax => .indexMax (readIndexRequest heap (inputOf heap task))
  | indexUpdateSingle => .indexUpdateSingle (readIndexUpdateRequest heap (inputOf heap task))
  | indexUpdateMany => .indexUpdateMany (readIndexUpdateRequest heap (inputOf heap task))
  | indexSelect => .indexSelect (readIndexSelectRequest heap (inputOf heap task))

/-! ## Handlers read what the factory wrote -/

theorem fieldType_aligned (field : RequestField) : 0 < field.fieldType.alignment := by
  cases field <;> decide

/-- The task is the last field of a request, and the message offset of the factory leads there. -/
def HasTask (layout : RequestLayout) : Prop :=
  .task ∈ layout ∧ structureSize RequestField.fieldType layout =
    fieldOffset RequestField.fieldType layout .task + executorMessageSize

instance (layout : RequestLayout) : Decidable (HasTask layout) :=
  inferInstanceAs (Decidable (_ ∧ _))

/-- The fields that the factory fills: fields of the structure, each once, and never the task. -/
def Fills (layout : RequestLayout) (names : List RequestField) : Prop :=
  (∀ field ∈ names, field ∈ layout ∧ field ≠ .task) ∧ names.Nodup

instance (layout : RequestLayout) (names : List RequestField) : Decidable (Fills layout names) :=
  inferInstanceAs (Decidable (_ ∧ _))

/-- On its way the executor writes the first fields of a task, which are in front of the input. -/
def Delivered (message : Message) (heap : Heap) : Prop :=
  ∀ a, a < message.task ∨ message.task + inputOffset ≤ a → heap a = message.heap a

theorem Delivered.self (message : Message) : Delivered message message.heap := fun _ _ => rfl

section Delivery

variable {layout : RequestLayout} {fields : List (RequestField × ℤ)} {heap delivered : Heap}
variable {address : ℕ}

theorem messageOf_eq (hlayout : HasTask layout) :
    messageOf layout address = address + fieldOffset RequestField.fieldType layout .task := by
  rw [messageOf, hlayout.2]
  omega

/-- The handler finds the request at its input. -/
theorem inputOf_createRequest (hlayout : HasTask layout) (haddr : address < 2 ^ 64)
    (h : Delivered (createRequest layout fields heap address) delivered) :
    inputOf delivered (createRequest layout fields heap address).task = address := by
  have htask : (createRequest layout fields heap address).task =
      address + fieldOffset RequestField.fieldType layout .task := messageOf_eq hlayout
  have hsame : inputOf delivered (createRequest layout fields heap address).task =
      readLE (createRequest layout fields heap address).heap
        (address + fieldOffset RequestField.fieldType layout .task + inputOffset) 8 := by
    rw [inputOf, readField, htask]
    exact readLE_congr fun a hlow _ => h a (.inr (htask ▸ hlow))
  rw [hsame]
  show readLE (setInput _ _ _) _ _ = _
  rw [setInput, readLE_writeLE]
  exact Nat.mod_eq_of_lt (by simpa using haddr)

variable {field : RequestField}

/-- Neither the header of the task nor its input is a byte of another field. -/
theorem readField_createRequest_kept (hlayout : HasTask layout) (hfield : field ∈ layout)
    (hne : field ≠ .task) (h : Delivered (createRequest layout fields heap address) delivered) :
    readField RequestField.fieldType layout delivered address field =
      readField RequestField.fieldType layout
        (fill RequestField.fieldType layout heap address fields) address field := by
  have htask : (createRequest layout fields heap address).task =
      address + fieldOffset RequestField.fieldType layout .task := messageOf_eq hlayout
  have hapart := fieldOffset_apart fieldType_aligned hfield hlayout.1 hne
  have hinput : inputOffset + 8 ≤ (RequestField.fieldType .task).size := by decide
  refine readLE_congr fun a hlow hhigh => ?_
  rw [h a (by omega)]
  exact writeLE_outside _ (by omega)

/-- A field of the request is what is left of the number that the factory was given. -/
theorem readField_createRequest_emod (hlayout : HasTask layout)
    (hfills : Fills layout (fields.map Prod.fst))
    (h : Delivered (createRequest layout fields heap address) delivered) {value : ℤ}
    (hmem : (field, value) ∈ fields) :
    (readField RequestField.fieldType layout delivered address field : ℤ) =
      value % (256 ^ field.fieldType.size : ℕ) := by
  obtain ⟨hfield, hne⟩ := hfills.1 field (List.mem_map.mpr ⟨_, hmem, rfl⟩)
  rw [readField_createRequest_kept hlayout hfield hne h]
  exact readField_fill heap address fieldType_aligned
    (fun other hother => (hfills.1 other.1 (List.mem_map.mpr ⟨_, hother, rfl⟩)).1) hfills.2 hmem

/-- A field of the request is what the factory was given. -/
theorem readField_createRequest (hlayout : HasTask layout)
    (hfills : Fills layout (fields.map Prod.fst))
    (h : Delivered (createRequest layout fields heap address) delivered) {n : ℕ}
    (hmem : (field, (n : ℤ)) ∈ fields) (hn : n < 256 ^ field.fieldType.size) :
    readField RequestField.fieldType layout delivered address field = n := by
  have hval := readField_createRequest_emod hlayout hfills h hmem
  rw [Int.emod_eq_of_lt (by omega) (by exact_mod_cast hn)] at hval
  exact_mod_cast hval

end Delivery

/-- From what a factory made the handler reads this request, whatever was in the memory before. -/
def Reads {Request : Type} (create : Heap → ℕ → Message) (read : Heap → ℕ → Request)
    (request : Request) : Prop :=
  ∀ heap address delivered, address < 2 ^ 64 → Delivered (create heap address) delivered →
    read delivered (inputOf delivered (create heap address).task) = request

/-- The handler finds the request, and its fields are what the factory was given. -/
theorem reads_createRequest {Request : Type} {layout : RequestLayout}
    {fields : List (RequestField × ℤ)} {read : Heap → ℕ → Request} {request : Request}
    (hlayout : HasTask layout) (hfills : Fills layout (fields.map Prod.fst))
    (h : ∀ delivered address, (∀ {field : RequestField} {n : ℕ}, (field, (n : ℤ)) ∈ fields →
      n < 256 ^ field.fieldType.size →
        readField RequestField.fieldType layout delivered address field = n) →
      read delivered address = request) : Reads (createRequest layout fields) read request := by
  intro heap address delivered haddr hdelivered
  rw [inputOf_createRequest hlayout haddr hdelivered]
  exact h delivered address (readField_createRequest hlayout hfills hdelivered)

section Factories

variable {spaceId indexId key keySize tuple tupleSize operations operationsSize : ℕ}
variable {iteratorType type offset limit : ℕ}

theorem readSpaceRequest_createSpace (hspaceId : spaceId < 2 ^ 32) (htuple : tuple < 2 ^ 64)
    (htupleSize : tupleSize < 2 ^ 64) :
    Reads (createSpace spaceId tuple tupleSize) readSpaceRequest ⟨tupleSize, tuple, spaceId⟩ := by
  apply reads_createRequest (by decide) (of_decide_eq_true rfl)
  intro delivered address hread
  have htupleSize' := @hread .tupleSize tupleSize (by simp) htupleSize
  have htuple' := @hread .tuple tuple (by simp) htuple
  have hspaceId' := @hread .spaceId spaceId (by simp) hspaceId
  simp only [readSpaceRequest, htupleSize', htuple', hspaceId']

theorem readSpaceCountRequest_createSpaceCount (hspaceId : spaceId < 2 ^ 32)
    (hiterType : iteratorType < 2 ^ 32) (hkey : key < 2 ^ 64) (hkeySize : keySize < 2 ^ 64) :
    Reads (createSpaceCount spaceId iteratorType key keySize) readSpaceCountRequest
      ⟨keySize, key, spaceId, iteratorType⟩ := by
  apply reads_createRequest (by decide) (of_decide_eq_true rfl)
  intro delivered address hread
  have hkeySize' := @hread .keySize keySize (by simp) hkeySize
  have hkey' := @hread .key key (by simp) hkey
  have hspaceId' := @hread .spaceId spaceId (by simp) hspaceId
  have hiterType' := @hread .iteratorType iteratorType (by simp) hiterType
  simp only [readSpaceCountRequest, hkeySize', hkey', hspaceId', hiterType']

theorem readSpaceSelectRequest_createSpaceSelect (hspaceId : spaceId < 2 ^ 32) (hkey : key < 2 ^ 64)
    (hkeySize : keySize < 2 ^ 64) (hoff : offset < 2 ^ 32) (hlimit : limit < 2 ^ 32)
    (hiterType : iteratorType < 2 ^ 32) :
    Reads (createSpaceSelect spaceId key keySize offset limit iteratorType) readSpaceSelectRequest
      ⟨keySize, key, spaceId, offset, limit, iteratorType⟩ := by
  apply reads_createRequest (by decide) (of_decide_eq_true rfl)
  intro delivered address hread
  have hkeySize' := @hread .keySize keySize (by simp) hkeySize
  have hkey' := @hread .key key (by simp) hkey
  have hspaceId' := @hread .spaceId spaceId (by simp) hspaceId
  have hoff' := @hread .offset offset (by simp) hoff
  have hlimit' := @hread .limit limit (by simp) hlimit
  have hiterType' := @hread .iteratorType iteratorType (by simp) hiterType
  simp only [readSpaceSelectRequest, hkeySize', hkey', hspaceId', hoff', hlimit', hiterType']

theorem readSpaceUpdateRequest_createSpaceUpdate (hspaceId : spaceId < 2 ^ 32) (hkey : key < 2 ^ 64)
    (hkeySize : keySize < 2 ^ 64) (hops : operations < 2 ^ 64)
    (hopsSize : operationsSize < 2 ^ 64) :
    Reads (createSpaceUpdate spaceId key keySize operations operationsSize) readSpaceUpdateRequest
      ⟨keySize, operationsSize, key, operations, spaceId⟩ := by
  apply reads_createRequest (by decide) (of_decide_eq_true rfl)
  intro delivered address hread
  have hkeySize' := @hread .keySize keySize (by simp) hkeySize
  have hopsSize' := @hread .operationsSize operationsSize (by simp) hopsSize
  have hkey' := @hread .key key (by simp) hkey
  have hops' := @hread .operations operations (by simp) hops
  have hspaceId' := @hread .spaceId spaceId (by simp) hspaceId
  simp only [readSpaceUpdateRequest, hkeySize', hopsSize', hkey', hops', hspaceId']

theorem readSpaceIteratorRequest_createSpaceIterator (hspaceId : spaceId < 2 ^ 32)
    (htype : type < 2 ^ 32) (hkey : key < 2 ^ 64) (hkeySize : keySize < 2 ^ 64) :
    Reads (createSpaceIterator spaceId type key keySize) readSpaceIteratorRequest
      ⟨keySize, key, spaceId, type⟩ := by
  apply reads_createRequest (by decide) (of_decide_eq_true rfl)
  intro delivered address hread
  have hkeySize' := @hread .keySize keySize (by simp) hkeySize
  have hkey' := @hread .key key (by simp) hkey
  have hspaceId' := @hread .spaceId spaceId (by simp) hspaceId
  have htype' := @hread .type type (by simp) htype
  simp only [readSpaceIteratorRequest, hkeySize', hkey', hspaceId', htype']

theorem readIndexRequest_createIndex (hspaceId : spaceId < 2 ^ 32) (hidxId : indexId < 2 ^ 32)
    (htuple : tuple < 2 ^ 64) (htupleSize : tupleSize < 2 ^ 64) :
    Reads (createIndex spaceId indexId tuple tupleSize) readIndexRequest
      ⟨tupleSize, tuple, spaceId, indexId⟩ := by
  apply reads_createRequest (by decide) (of_decide_eq_true rfl)
  intro delivered address hread
  have htupleSize' := @hread .tupleSize tupleSize (by simp) htupleSize
  have htuple' := @hread .tuple tuple (by simp) htuple
  have hspaceId' := @hread .spaceId spaceId (by simp) hspaceId
  have hidxId' := @hread .indexId indexId (by simp) hidxId
  simp only [readIndexRequest, htupleSize', htuple', hspaceId', hidxId']

theorem readIndexCountRequest_createIndexCount (hspaceId : spaceId < 2 ^ 32)
    (hidxId : indexId < 2 ^ 32) (hkey : key < 2 ^ 64) (hkeySize : keySize < 2 ^ 64)
    (hiterType : iteratorType < 2 ^ 32) :
    Reads (createIndexCount spaceId indexId key keySize iteratorType) readIndexCountRequest
      ⟨keySize, key, spaceId, indexId, iteratorType⟩ := by
  apply reads_createRequest (by decide) (of_decide_eq_true rfl)
  intro delivered address hread
  have hkeySize' := @hread .keySize keySize (by simp) hkeySize
  have hkey' := @hread .key key (by simp) hkey
  have hspaceId' := @hread .spaceId spaceId (by simp) hspaceId
  have hidxId' := @hread .indexId indexId (by simp) hidxId
  have hiterType' := @hread .iteratorType iteratorType (by simp) hiterType
  simp only [readIndexCountRequest, hkeySize', hkey', hspaceId', hidxId', hiterType']

theorem readIndexIteratorRequest_createIndexIterator (hspaceId : spaceId < 2 ^ 32)
    (hidxId : indexId < 2 ^ 32) (htype : type < 2 ^ 32) (hkey : key < 2 ^ 64)
    (hkeySize : keySize < 2 ^ 64) :
    Reads (createIndexIterator spaceId indexId type key keySize) readIndexIteratorRequest
      ⟨key, keySize, spaceId, indexId, type⟩ := by
  apply reads_createRequest (by decide) (of_decide_eq_true rfl)
  intro delivered address hread
  have hkey' := @hread .key key (by simp) hkey
  have hkeySize' := @hread .keySize keySize (by simp) hkeySize
  have hspaceId' := @hread .spaceId spaceId (by simp) hspaceId
  have hidxId' := @hread .indexId indexId (by simp) hidxId
  have htype' := @hread .type type (by simp) htype
  simp only [readIndexIteratorRequest, hkey', hkeySize', hspaceId', hidxId', htype']

theorem readIndexSelectRequest_createIndexSelect (hspaceId : spaceId < 2 ^ 32)
    (hidxId : indexId < 2 ^ 32) (hkey : key < 2 ^ 64) (hkeySize : keySize < 2 ^ 64)
    (hoff : offset < 2 ^ 32) (hlimit : limit < 2 ^ 32) (htype : type < 2 ^ 32) :
    Reads (createIndexSelect spaceId indexId key keySize offset limit type) readIndexSelectRequest
      ⟨key, keySize, spaceId, indexId, offset, limit, type⟩ := by
  apply reads_createRequest (by decide) (of_decide_eq_true rfl)
  intro delivered address hread
  have hkey' := @hread .key key (by simp) hkey
  have hkeySize' := @hread .keySize keySize (by simp) hkeySize
  have hspaceId' := @hread .spaceId spaceId (by simp) hspaceId
  have hidxId' := @hread .indexId indexId (by simp) hidxId
  have hoff' := @hread .offset offset (by simp) hoff
  have hlimit' := @hread .limit limit (by simp) hlimit
  have htype' := @hread .iteratorType type (by simp) htype
  simp only [readIndexSelectRequest, hkey', hkeySize', hspaceId', hidxId', hoff', hlimit',
    htype']

/-- A size takes 64 bits, whatever number the caller gives. -/
theorem sizeField_emod (layout : RequestLayout) (heap : Heap) (address : ℕ) {field : RequestField}
    (hsize : field.fieldType.size = 8) (size : ℤ) :
    writeField RequestField.fieldType layout heap address field size =
      writeField RequestField.fieldType layout heap address field ((size % 2 ^ 64).toNat : ℕ) := by
  refine writeField_congr heap address field ?_
  rw [hsize]
  omega

theorem createSpace_size (tuple size : ℤ) :
    createSpace spaceId tuple size = createSpace spaceId tuple ((size % 2 ^ 64).toNat : ℕ) := by
  funext heap address
  simp only [createSpace, createRequest, fill, List.foldl_cons, List.foldl_nil]
  rw [sizeField_emod _ _ _ rfl]

theorem createSpaceUpdate_size (key size operations operationsSize : ℤ) :
    createSpaceUpdate spaceId key size operations operationsSize =
      createSpaceUpdate spaceId key ((size % 2 ^ 64).toNat : ℕ) operations
        ((operationsSize % 2 ^ 64).toNat : ℕ) := by
  funext heap address
  simp only [createSpaceUpdate, createRequest, fill, List.foldl_cons, List.foldl_nil]
  rw [sizeField_emod _ _ _ rfl operationsSize]
  rw [sizeField_emod _ _ _ rfl size]

end Factories

end FengShui.Storage
