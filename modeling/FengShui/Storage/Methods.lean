import FengShui.Storage.Batches
import FengShui.Storage.Requests

/-!
# The methods of spaces and indexes (`space.dart`, `index.dart`)

A method fills a request with a function of the factory and sends it to a handler of the storage.
The operation that the method is named for is stated on its own, by what the database is asked for.
-/

namespace FengShui.Storage

open Lib.Layout

/-! ## Arguments -/

/-- What can be read in the process from an address on; nothing can be read at `NULL`. -/
structure ProcessMemory where
  read : ℕ → Uint8List
  null : read 0 = []

/-- A tuple, a key or operations, by their address and their bytes. -/
structure Piece where
  address : ℕ
  bytes : Uint8List
  address_lt : address < 2 ^ 64
  size_lt : bytes.length < 2 ^ 64

def Piece.size (piece : Piece) : ℕ := piece.bytes.length

def Piece.Held (memory : ProcessMemory) (piece : Piece) : Prop :=
  range memory.read piece.address piece.size = some piece.bytes

/-- An array of tuples, keys or operations, with the number that the caller gives for its size. -/
structure Batch where
  address : ℕ
  elements : List ArrayValue
  size : ℤ
  address_lt : address < 2 ^ 64

def Batch.Held (memory : ProcessMemory) (batch : Batch) : Prop :=
  ArrayValue.IsBatch (memory.read batch.address) batch.elements

inductive StorageIteratorType where
  | eq | req | all | lt | le | ge | gt | bitsetAllSet | bitsetAnySet | bitsetAllNotSet | overlaps
  | neighbor
  deriving DecidableEq

def StorageIteratorType.index : StorageIteratorType → ℕ
  | eq => 0
  | req => 1
  | all => 2
  | lt => 3
  | le => 4
  | ge => 5
  | gt => 6
  | bitsetAllSet => 7
  | bitsetAnySet => 8
  | bitsetAllNotSet => 9
  | overlaps => 10
  | neighbor => 11

theorem StorageIteratorType.index_lt (type : StorageIteratorType) : type.index < 2 ^ 32 := by
  cases type <;> decide

/-! ## Methods -/

/-- A space, by the id that the database has given for it. -/
structure StorageSpace where
  id : ℕ
  id_lt : id < 2 ^ 32

structure StorageIndex where
  spaceId : ℕ
  indexId : ℕ
  spaceId_lt : spaceId < 2 ^ 32
  indexId_lt : indexId < 2 ^ 32

/-- The calls of a space that send a request. The other ones use these. -/
inductive SpaceMethod where
  | countBy (key : Piece) (iteratorType : StorageIteratorType)
  | length
  | iteratorBy (key : Piece) (iteratorType : StorageIteratorType)
  | insertSingle (tuple : Piece)
  | insertMany (tuples : Batch)
  | putSingle (tuple : Piece)
  | putMany (tuples : Batch)
  | deleteSingle (key : Piece)
  | deleteSingleMany (keys : Batch)
  | get (key : Piece)
  | minBy (key : Piece)
  | maxBy (key : Piece)
  | truncate
  | updateSingle (key operations : Piece)
  | updateMany (keys operations : Batch)
  | upsert (tuple operations : Piece)
  | selectBy (key : Piece) (offset limit : ℤ) (iteratorType : StorageIteratorType)

/-- `count` of an index takes a key that it leaves out, and `select` an iterator type: they are
`countBy` with an empty key and `selectBy` of all tuples. -/
inductive IndexMethod where
  | countBy (key : Piece) (iteratorType : StorageIteratorType)
  | length
  | iteratorBy (key : Piece) (iteratorType : StorageIteratorType)
  | get (key : Piece)
  | minBy (key : Piece)
  | maxBy (key : Piece)
  | updateSingle (key operations : Piece)
  | updateMany (keys operations : Batch)
  | selectBy (key : Piece) (offset limit : ℤ) (iteratorType : StorageIteratorType)

inductive Method where
  | space (space : StorageSpace) (method : SpaceMethod)
  | index (index : StorageIndex) (method : IndexMethod)

/-- The method of the producer that a call goes to, and how its task is made. -/
structure Sent where
  producerMethod : ProducerMethod
  create : Heap → ℕ → Message

def SpaceMethod.sent (space : StorageSpace) : SpaceMethod → Sent
  | countBy key iteratorType =>
    ⟨.spaceCount, createSpaceCount space.id iteratorType.index key.address key.size⟩
  | length => ⟨.spaceLength, createNumber space.id⟩
  | iteratorBy key iteratorType =>
    ⟨.spaceIterator, createSpaceIterator space.id iteratorType.index key.address key.size⟩
  | insertSingle tuple => ⟨.spaceInsertSingle, createSpace space.id tuple.address tuple.size⟩
  | insertMany tuples => ⟨.spaceInsertMany, createSpace space.id tuples.address tuples.size⟩
  | putSingle tuple => ⟨.spacePutSingle, createSpace space.id tuple.address tuple.size⟩
  | putMany tuples => ⟨.spaceInsertMany, createSpace space.id tuples.address tuples.size⟩
  | deleteSingle key => ⟨.spaceDeleteSingle, createSpace space.id key.address key.size⟩
  | deleteSingleMany keys => ⟨.spaceDeleteMany, createSpace space.id keys.address keys.size⟩
  | get key => ⟨.spaceGet, createSpace space.id key.address key.size⟩
  | minBy key => ⟨.spaceMin, createSpace space.id key.address key.size⟩
  | maxBy key => ⟨.spaceMax, createSpace space.id key.address key.size⟩
  | truncate => ⟨.spaceTruncate, createNumber space.id⟩
  | updateSingle key operations => ⟨.spaceUpdateSingle,
      createSpaceUpdate space.id key.address key.size operations.address operations.size⟩
  | updateMany keys operations => ⟨.spaceUpdateMany,
      createSpaceUpdate space.id keys.address keys.size operations.address operations.size⟩
  | upsert tuple operations => ⟨.spaceUpdateSingle,
      createSpaceUpsert space.id tuple.address tuple.size operations.address operations.size⟩
  | selectBy key offset limit iteratorType => ⟨.spaceSelect,
      createSpaceSelect space.id key.address key.size offset limit iteratorType.index⟩

def IndexMethod.sent (index : StorageIndex) : IndexMethod → Sent
  | countBy key iteratorType => ⟨.indexCount,
      createIndexCount index.spaceId index.indexId key.address key.size iteratorType.index⟩
  | length => ⟨.indexLength, createIndexId index.spaceId index.indexId⟩
  | iteratorBy key iteratorType => ⟨.indexIterator,
      createIndexIterator index.spaceId index.indexId iteratorType.index key.address key.size⟩
  | get key => ⟨.indexGet, createIndex index.spaceId index.indexId key.address key.size⟩
  | minBy key => ⟨.indexMin, createIndex index.spaceId index.indexId key.address key.size⟩
  | maxBy key => ⟨.indexMax, createIndex index.spaceId index.indexId key.address key.size⟩
  | updateSingle key operations => ⟨.indexUpdateSingle, createIndexUpdate index.spaceId
      index.indexId key.address key.size operations.address operations.size⟩
  | updateMany keys operations => ⟨.indexUpdateMany, createIndexUpdate index.spaceId
      index.indexId keys.address keys.size operations.address operations.size⟩
  | selectBy key offset limit iteratorType => ⟨.indexSelect, createIndexSelect index.spaceId
      index.indexId key.address key.size offset limit iteratorType.index⟩

def Method.sent : Method → Sent
  | .space owner method => method.sent owner
  | .index owner method => method.sent owner

def SpaceMethod.Held (memory : ProcessMemory) : SpaceMethod → Prop
  | length | truncate => True
  | countBy piece _ | iteratorBy piece _ | insertSingle piece | putSingle piece | deleteSingle piece
  | get piece | minBy piece | maxBy piece | selectBy piece _ _ _ => piece.Held memory
  | insertMany batch | putMany batch | deleteSingleMany batch => batch.Held memory
  | updateSingle piece operations | upsert piece operations =>
    piece.Held memory ∧ operations.Held memory
  | updateMany batch operations => batch.Held memory ∧ operations.Held memory

def IndexMethod.Held (memory : ProcessMemory) : IndexMethod → Prop
  | length => True
  | countBy piece _ | iteratorBy piece _ | get piece | minBy piece | maxBy piece
  | selectBy piece _ _ _ => piece.Held memory
  | updateSingle piece operations => piece.Held memory ∧ operations.Held memory
  | updateMany batch operations => batch.Held memory ∧ operations.Held memory

/-- The arguments are where the caller says. -/
def Method.Held (memory : ProcessMemory) : Method → Prop
  | .space _ method => method.Held memory
  | .index _ method => method.Held memory

/-! ## The operations that the methods are named for -/

/-- What a method asks the database for. -/
inductive Operation where
  | call (call : BoxCall)
  | query (query : BoxQuery)
  | select (selection : Selection)
  | truncate (space : ℕ)
  | batch (calls : List (Option BoxCall))

/-- A selection counts with numbers of 32 bits. -/
def Operation.ofSelection (space index : ℕ) (iteratorType : StorageIteratorType) (offset limit : ℤ)
    (key : Uint8List) : Option Operation :=
  if 0 ≤ offset ∧ offset < 2 ^ 32 ∧ 0 ≤ limit ∧ limit < 2 ^ 32 then
    some (.select ⟨space, index, iteratorType.index, offset.toNat, limit.toNat, key⟩)
  else none

open BatchRequest (pairCalls)

def SpaceMethod.operation (space : StorageSpace) : SpaceMethod → Option Operation
  | countBy key iteratorType =>
    some (.query (.count space.id primaryIndexId iteratorType.index key.bytes))
  | length => some (.query (.length space.id primaryIndexId))
  | iteratorBy key iteratorType =>
    some (.query (.iterator space.id primaryIndexId iteratorType.index key.bytes))
  | insertSingle tuple => some (.call (.insert space.id tuple.bytes))
  | insertMany tuples =>
    some (.batch (tuples.elements.map fun tuple => some (.insert space.id tuple.bytes)))
  | putSingle tuple => some (.call (.replace space.id tuple.bytes))
  | putMany tuples =>
    some (.batch (tuples.elements.map fun tuple => some (.replace space.id tuple.bytes)))
  | deleteSingle key => some (.call (.delete space.id primaryIndexId key.bytes))
  | deleteSingleMany keys =>
    some (.batch (keys.elements.map fun key => some (.delete space.id primaryIndexId key.bytes)))
  | get key => some (.call (.indexGet space.id primaryIndexId key.bytes))
  | minBy key => some (.call (.indexMin space.id primaryIndexId key.bytes))
  | maxBy key => some (.call (.indexMax space.id primaryIndexId key.bytes))
  | truncate => some (.truncate space.id)
  | updateSingle key operations =>
    some (.call (.update space.id primaryIndexId key.bytes operations.bytes))
  | updateMany keys operations =>
    some (.batch (pairCalls (.update space.id primaryIndexId) keys.elements operations.elements))
  | upsert tuple operations =>
    some (.call (.upsert space.id primaryIndexId tuple.bytes operations.bytes))
  | selectBy key offset limit iteratorType =>
    Operation.ofSelection space.id primaryIndexId iteratorType offset limit key.bytes

def IndexMethod.operation (index : StorageIndex) : IndexMethod → Option Operation
  | countBy key iteratorType =>
    some (.query (.count index.spaceId index.indexId iteratorType.index key.bytes))
  | length => some (.query (.length index.spaceId index.indexId))
  | iteratorBy key iteratorType =>
    some (.query (.iterator index.spaceId index.indexId iteratorType.index key.bytes))
  | get key => some (.call (.indexGet index.spaceId index.indexId key.bytes))
  | minBy key => some (.call (.indexMin index.spaceId index.indexId key.bytes))
  | maxBy key => some (.call (.indexMax index.spaceId index.indexId key.bytes))
  | updateSingle key operations =>
    some (.call (.update index.spaceId index.indexId key.bytes operations.bytes))
  | updateMany keys operations =>
    some
      (.batch (pairCalls (.update index.spaceId index.indexId) keys.elements operations.elements))
  | selectBy key offset limit iteratorType =>
    Operation.ofSelection index.spaceId index.indexId iteratorType offset limit key.bytes

def Method.operation : Method → Option Operation
  | .space owner method => method.operation owner
  | .index owner method => method.operation owner

variable {Database Tuple : Type} [DecidableEq Tuple]

/-- A handler does an operation: the same effect on the database, the same reply, the same
references. A batch is taken for its elements one after the other. -/
def Operation.Does (box : Box Database Tuple) (handler : Handler Database Tuple) : Operation → Prop
  | .call boxCall => handler = single box (some boxCall)
  | .query boxQuery => handler = answerNumber box (some boxQuery)
  | .select chosen => handler = fun native =>
      match box.select chosen native.database with
      | none => some (.error, native)
      | some tuples => some (.port tuples, native.ref tuples)
  | .truncate space => handler = fun native =>
      some (.unchanged, { native with database := box.truncate space native.database })
  | .batch boxCalls => ∀ native, BatchEquals box handler boxCalls native

/-- The handler that a method calls does the operation that the method is named for, whatever was in
the memory of the request and whatever the database is. -/
def Method.Agrees (memory : ProcessMemory) (method : Method) : Prop :=
  ∃ operation, method.operation = some operation ∧
    ∀ heap address delivered, 4096 ≤ address → address < 2 ^ 64 →
      Delivered (method.sent.create heap address) delivered →
      ∀ (Database Tuple : Type) [DecidableEq Tuple] (box : Box Database Tuple),
        InsertGivesTuple box →
        operation.Does box ((method.sent.producerMethod.request delivered
          (method.sent.create heap address).task).handler box memory.read)

/-! ## Methods whose handler reads their own request -/

variable {memory : ProcessMemory} {method : Method} {operation : Operation}

/-- When the handler reads the same request from every memory, only what it does counts. -/
theorem agrees_iff_of_request {request : Request} (hop : method.operation = some operation)
    (hreq : ∀ heap address delivered, address < 2 ^ 64 →
      Delivered (method.sent.create heap address) delivered →
      method.sent.producerMethod.request delivered (method.sent.create heap address).task =
        request) :
    method.Agrees memory ↔ ∀ (Database Tuple : Type) [DecidableEq Tuple] (box : Box Database Tuple),
      InsertGivesTuple box → operation.Does box (request.handler box memory.read) := by
  constructor
  · rintro ⟨other, hother, hagrees⟩ Database Tuple _ box hbox
    obtain rfl := Option.some.inj (hop.symm.trans hother)
    have hdoes :=
      hagrees (fun _ => 0) 4096 _ le_rfl (by decide) (Delivered.self _) Database Tuple box hbox
    rwa [hreq _ _ _ (by decide) (Delivered.self _)] at hdoes
  · intro hdoes
    refine ⟨operation, hop, fun heap address delivered _ haddr h Database Tuple _ box hbox => ?_⟩
    rw [hreq heap address delivered haddr h]
    exact hdoes Database Tuple box hbox

/-- The same for a handler that reads what the factory wrote. -/
theorem agrees_iff_of_reads {Structure : Type} {read : Heap → ℕ → Structure} {request : Structure}
    (wrap : Structure → Request) (hreads : Reads method.sent.create read request)
    (hop : method.operation = some operation)
    (hwrap : ∀ heap task,
      method.sent.producerMethod.request heap task = wrap (read heap (inputOf heap task))) :
    method.Agrees memory ↔ ∀ (Database Tuple : Type) [DecidableEq Tuple] (box : Box Database Tuple),
      InsertGivesTuple box → operation.Does box ((wrap request).handler box memory.read) :=
  agrees_iff_of_request hop fun heap address delivered haddr h =>
    (hwrap _ _).trans (congrArg wrap (hreads heap address delivered haddr h))

theorem agrees_of_request {request : Request} (hop : method.operation = some operation)
    (hreq : ∀ heap address delivered, address < 2 ^ 64 →
      Delivered (method.sent.create heap address) delivered →
      method.sent.producerMethod.request delivered (method.sent.create heap address).task = request)
    (hdoes : ∀ (Database Tuple : Type) [DecidableEq Tuple] (box : Box Database Tuple),
      InsertGivesTuple box → operation.Does box (request.handler box memory.read)) :
    method.Agrees memory :=
  (agrees_iff_of_request hop hreq).mpr hdoes

theorem agrees_of_reads {Structure : Type} {read : Heap → ℕ → Structure} {request : Structure}
    (wrap : Structure → Request) (hreads : Reads method.sent.create read request)
    (hop : method.operation = some operation)
    (hwrap : ∀ heap task,
      method.sent.producerMethod.request heap task = wrap (read heap (inputOf heap task)))
    (hdoes : ∀ (Database Tuple : Type) [DecidableEq Tuple] (box : Box Database Tuple),
      InsertGivesTuple box → operation.Does box ((wrap request).handler box memory.read)) :
    method.Agrees memory :=
  (agrees_iff_of_reads wrap hreads hop hwrap).mpr hdoes

/-- A task without a request, with a number for its input. -/
theorem inputOf_createNumber {n : ℕ} (hn : n < 2 ^ 64) (heap : Heap) (address : ℕ)
    {delivered : Heap} (h : Delivered (createNumber n heap address) delivered) :
    inputOf delivered (createNumber n heap address).task = n := by
  have haligned : ∀ name : TaskField, 0 < name.type.alignment := by
    intro name
    cases name <;> decide
  have hkept : inputOf delivered (createNumber n heap address).task =
      readField TaskField.type executorTask (createNumber n heap address).heap address .input :=
    readLE_congr fun a hlow _ => h a (.inr hlow)
  have hwritten := @readField_writeField _ _ TaskField.type executorTask heap address .input n
  have hinput :
    readField TaskField.type executorTask (createNumber n heap address).heap address .input =
      readField TaskField.type executorTask
        (writeField TaskField.type executorTask heap address .input n) address .input :=
    readField_writeField_ne _ address haligned (by decide) (by decide) (by decide) 4
  rw [hkept, hinput]
  rw [Int.emod_eq_of_lt (by omega) (by exact_mod_cast hn)] at hwritten
  exact_mod_cast hwritten

/-- The handler of a task with a number gets the number. -/
theorem createNumber_reads (wrap : ℕ → Request) {n : ℕ} (hn : n < 2 ^ 32) (heap : Heap)
    (address : ℕ) (delivered : Heap) (_ : address < 2 ^ 64)
    (h : Delivered (createNumber n heap address) delivered) :
    wrap (inputOf delivered (createNumber n heap address).task) = wrap n :=
  congrArg wrap (inputOf_createNumber (hn.trans (by decide)) heap address h)

section Agreement

variable {memory : ProcessMemory}

variable {piece : Piece}

/-- A call on one piece. -/
theorem single_does {call : Uint8List → BoxCall} (h : piece.Held memory)
    (box : Box Database Tuple) :
    (Operation.call (call piece.bytes)).Does box
      (singleTuple box memory.read call piece.address piece.size) :=
  singleTuple_of_range box call h

theorem pair_does {call : Uint8List → Uint8List → BoxCall} {operations : Piece}
    (h : piece.Held memory) (hops : operations.Held memory) (box : Box Database Tuple) :
    (Operation.call (call piece.bytes operations.bytes)).Does box
      (singlePair box memory.read call piece.address piece.size operations.address
        operations.size) :=
  singlePair_of_range box call h hops

theorem query_does {query : Uint8List → BoxQuery} (h : piece.Held memory)
    (box : Box Database Tuple) : (Operation.query (query piece.bytes)).Does box
      (answerNumber box ((range memory.read piece.address piece.size).map query)) := by
  have hrange : range memory.read piece.address piece.size = some piece.bytes := h
  rw [hrange]
  exact rfl

theorem select_does {selection : Uint8List → Selection} (h : piece.Held memory)
    (box : Box Database Tuple) : (Operation.select (selection piece.bytes)).Does box
      (selectPort box memory.read selection piece.address piece.size) := by
  have hrange : range memory.read piece.address piece.size = some piece.bytes := h
  funext native
  rw [selectPort, hrange]
  rfl

/-- Two calls are told apart by a database where one of them fails. -/
theorem single_ne {failing : BoxCall} {call : Option BoxCall} (hne : call ≠ some failing) :
    single (failsOn (some failing)) call ≠ single (failsOn (some failing)) (some failing) := by
  intro heq
  have hnative := congrFun heq ⟨(), fun _ => 0⟩
  rw [single_error (if_pos rfl)] at hnative
  cases call with
  | none => exact absurd hnative nofun
  | some other =>
    have hother : ¬some failing = some other := fun h => hne h.symm
    rw [single_tuple (if_neg hother)] at hnative
    have hreply := congrArg Prod.fst (Option.some.inj hnative)
    exact absurd hreply nofun

/-- The call on two pieces, if they can be read. -/
theorem singlePair_call (read : ℕ → Uint8List) (call : Uint8List → Uint8List → BoxCall)
    (address size operations operationsSize : ℕ) :
    ∃ boxCall, (∀ other, boxCall = some other → ∃ first second, other = call first second) ∧
      (range read operations operationsSize = none → boxCall = none) ∧
      ∀ (Database Tuple : Type) [DecidableEq Tuple] (box : Box Database Tuple),
        singlePair box read call address size operations operationsSize = single box boxCall := by
  refine ⟨_, fun other hother => ?_, fun hnone => ?_, fun _ _ _ _ => rfl⟩
  · obtain ⟨first, -, hrest⟩ := Option.bind_eq_some_iff.mp hother
    obtain ⟨second, -, hcall⟩ := Option.bind_eq_some_iff.mp hrest
    exact ⟨first, second, (Option.some.inj hcall).symm⟩
  · rw [hnone]
    exact Option.bind_fun_none _

/-- A method with one call whose handler does not make that call. -/
theorem not_agrees_call {method : Method} {boxCall : BoxCall} {request : Request}
    (hop : method.operation = some (.call boxCall)) (heap : Heap)
    (hreq : method.sent.producerMethod.request (method.sent.create heap 4096).heap
      (method.sent.create heap 4096).task = request)
    (hother : ∃ other, other ≠ some boxCall ∧
      request.handler (failsOn (some boxCall)) memory.read =
        single (failsOn (some boxCall)) other) : ¬method.Agrees memory := by
  rintro ⟨operation, hsome, hagrees⟩
  obtain rfl := Option.some.inj (hop.symm.trans hsome)
  obtain ⟨other, hne, hhandler⟩ := hother
  have hdoes := hagrees heap 4096 _ le_rfl (by decide) (Delivered.self _) Unit Unit
    (failsOn (some boxCall)) (failsOn_insertGivesTuple _)
  rw [hreq] at hdoes
  exact single_ne hne (hhandler.symm.trans hdoes)

/-! ## Methods that send the request of another operation -/

/-- `upsert` is sent to the handler of `updateSingle`, which takes it for an update. -/
theorem not_agrees_upsert (space : StorageSpace) (tuple operations : Piece) :
    ¬(Method.space space (.upsert tuple operations)).Agrees memory := by
  refine not_agrees_call rfl (fun _ => 0) rfl ?_
  obtain ⟨boxCall, hcall, -, hhandler⟩ := singlePair_call memory.read
    (.update (readSpaceUpdateRequest _ _).spaceId primaryIndexId) _ _ _ _
  refine ⟨boxCall, fun heq => ?_, hhandler Unit Unit _⟩
  obtain ⟨first, second, hupdate⟩ := hcall _ heq
  exact absurd hupdate nofun

/-- What can be in the memory of a new request: operations of one byte at `NULL`. -/
def unreadableFields : List (RequestField × ℤ) :=
  [(.operations, (0 : ℕ)), (.operationsSize, (1 : ℕ))]

def unreadable : Heap :=
  fill RequestField.fieldType indexUpdateRequestLayout (fun _ => 0) 4096 unreadableFields

/-- The handler of an update of an index finds there what was in the memory before. -/
theorem readIndexUpdateRequest_unreadable
    (spaceId indexId key keySize operations operationsSize : ℤ) :
    ∃ request : IndexUpdateRequest, request.operations = 0 ∧ request.operationsSize = 1 ∧
      readIndexUpdateRequest
        (createIndexUpdate spaceId indexId key keySize operations operationsSize
          unreadable 4096).heap
        (inputOf
          (createIndexUpdate spaceId indexId key keySize operations operationsSize
            unreadable 4096).heap
          (createIndexUpdate spaceId indexId key keySize operations operationsSize unreadable
            4096).task) =
        request := by
  have hmsg :
    createIndexUpdate spaceId indexId key keySize operations operationsSize unreadable 4096 =
      createRequest indexUpdateRequestLayout (unreadableFields ++ [(.spaceId, spaceId),
        (.indexId, indexId), (.key, key), (.keySize, keySize)]) (fun _ => 0) 4096 := by
    rw [createIndexUpdate, createRequest, createRequest, unreadable, fill, fill, fill,
      List.foldl_append]
  rw [hmsg, inputOf_createRequest (by decide) (by decide) (Delivered.self _)]
  refine ⟨_, ?_, ?_, rfl⟩
  · exact readField_createRequest (by decide) (of_decide_eq_true rfl) (Delivered.self _)
      List.mem_cons_self (by decide)
  · exact readField_createRequest (by decide) (of_decide_eq_true rfl) (Delivered.self _)
      (List.mem_cons_of_mem _ List.mem_cons_self) (by decide)

theorem not_agrees_indexUpdateSingle (index : StorageIndex) (key operations : Piece) :
    ¬(Method.index index (.updateSingle key operations)).Agrees memory := by
  obtain ⟨request, hops, hsize, hread⟩ := readIndexUpdateRequest_unreadable index.spaceId
    index.indexId key.address key.size operations.address operations.size
  refine not_agrees_call rfl unreadable (congrArg Request.indexUpdateSingle hread) ?_
  obtain ⟨boxCall, -, hnone, hhandler⟩ := singlePair_call memory.read
    (.update request.spaceId request.indexId) request.key request.keySize request.operations
    request.operationsSize
  refine ⟨boxCall, fun heq => ?_, hhandler Unit Unit _⟩
  rw [hnone] at heq
  · exact absurd heq nofun
  · rw [hops, hsize, range, memory.null]
    rfl

theorem not_agrees_indexUpdateMany (index : StorageIndex) (keys operations : Batch) :
    ¬(Method.index index (.updateMany keys operations)).Agrees memory := by
  rintro ⟨operation, hop, hagrees⟩
  cases hop
  obtain ⟨request, hops, -, hread⟩ := readIndexUpdateRequest_unreadable index.spaceId
    index.indexId keys.address keys.size operations.address operations.size
  have hdoes := hagrees unreadable 4096 _ le_rfl (by decide) (Delivered.self _) Unit Unit
    (failsOn none) (failsOn_insertGivesTuple _)
  have hreq : (Method.index index (.updateMany keys operations)).sent.producerMethod.request
      ((Method.index index (.updateMany keys operations)).sent.create unreadable 4096).heap
      ((Method.index index (.updateMany keys operations)).sent.create unreadable 4096).task =
      .indexUpdateMany request := congrArg Request.indexUpdateMany hread
  rw [hreq] at hdoes
  obtain ⟨reply, after, hreply, -⟩ := hdoes ⟨(), fun _ => 0⟩
  have hcursors : pairCursors memory.read request.key request.operations = none := by
    rw [pairCursors, hops, memory.null]
    exact Option.bind_fun_none _
  have hnone : storageIndexUpdateMany (failsOn none) memory.read request ⟨(), fun _ => 0⟩ =
      none := by
    rw [storageIndexUpdateMany, manyPairs, hcursors]
    rfl
  exact absurd (hreply.symm.trans hnone) (Option.some_ne_none _)

/-! ## The length of an index -/

/-- What can be in front of a request: `NULL` for the input of the task, and some number at
`NULL`. -/
def strayHeap (number : UInt8) : Heap := Function.update (fun _ => 0) 0 number

/-- The handler takes what is at `NULL` for the request. -/
theorem readIndexIdRequest_stray (spaceId indexId : ℤ) (number : UInt8) :
    readIndexIdRequest (createIndexId spaceId indexId (strayHeap number) 4096).heap
      (inputOf (createIndexId spaceId indexId (strayHeap number) 4096).heap
        (createIndexId spaceId indexId (strayHeap number) 4096).task) = ⟨number.toNat, 0⟩ := by
  have hheap : ∀ address width, address + width ≤ 4096 →
      readLE (createIndexId spaceId indexId (strayHeap number) 4096).heap address width =
        readLE (strayHeap number) address width :=
    fun address width hle => readLE_congr fun a _ hhigh => fill_front _ _ _ (by omega)
  have htask : (createIndexId spaceId indexId (strayHeap number) 4096).task = 4024 := rfl
  have hinput : inputOf (createIndexId spaceId indexId (strayHeap number) 4096).heap 4024 = 0 := by
    rw [inputOf, readField, hheap _ _ (by decide)]
    simp [readLE, strayHeap, fieldOffset, offsetFrom, executorTask, TaskField.type, alignUp]
  rw [htask, hinput, readIndexIdRequest, readField, readField, hheap _ _ (by decide),
    hheap _ _ (by decide)]
  simp [readLE, strayHeap, fieldOffset, offsetFrom, indexIdRequestLayout, RequestField.fieldType,
    alignUp]

/-- A database that answers one question with another number than all others. -/
def knows (known : BoxQuery) : Box Unit Unit where
  call := (failsOn none).call
  query := fun query _ => if query = known then 1 else 0
  select := (failsOn none).select
  lua := (failsOn none).lua
  truncate := (failsOn none).truncate
  iteratorFree := (failsOn none).iteratorFree
  portAddFails := (failsOn none).portAddFails
  commitFails := (failsOn none).commitFails

theorem not_agrees_indexLength (index : StorageIndex) :
    ¬(Method.index index .length).Agrees memory := by
  rintro ⟨operation, hop, hagrees⟩
  cases hop
  -- A number that is not the id of the space.
  obtain ⟨number, hnum⟩ : ∃ number : UInt8, number.toNat ≠ index.spaceId := by
    by_cases hzero : index.spaceId = 0
    · exact ⟨1, by rw [hzero]; decide⟩
    · exact ⟨0, fun h => hzero h.symm⟩
  have hdoes := hagrees (strayHeap number) 4096 _ le_rfl (by decide) (Delivered.self _) Unit Unit
    (knows (.length index.spaceId index.indexId)) (failsOn_insertGivesTuple none)
  have hreq : (Method.index index .length).sent.producerMethod.request
      ((Method.index index .length).sent.create (strayHeap number) 4096).heap
      ((Method.index index .length).sent.create (strayHeap number) 4096).task =
      .indexLength ⟨number.toNat, 0⟩ :=
    congrArg Request.indexLength (readIndexIdRequest_stray index.spaceId index.indexId number)
  rw [hreq] at hdoes
  have hreply := congrArg Prod.fst (Option.some.inj (congrFun hdoes ⟨(), fun _ => 0⟩))
  have hne : BoxQuery.length number.toNat 0 ≠ .length index.spaceId index.indexId :=
    fun heq => hnum (BoxQuery.length.inj heq).1
  have hnumbers :
    (if BoxQuery.length number.toNat 0 = .length index.spaceId index.indexId then 1 else 0)
      = (if BoxQuery.length index.spaceId index.indexId =
        .length index.spaceId index.indexId then 1 else 0)
    := Reply.number.inj hreply
  rw [if_neg hne, if_pos rfl] at hnumbers
  exact absurd hnumbers Nat.zero_ne_one

/-! ## `putMany` -/

/-- A batch that is to replace and is inserted does the same only without tuples. -/
theorem insertMany_replaces_iff {request : SpaceRequest} {tuples : List ArrayValue}
    (h : ArrayValue.IsBatch (memory.read request.tuple) tuples) :
    (∀ (Database Tuple : Type) [DecidableEq Tuple] (box : Box Database Tuple),
      InsertGivesTuple box →
      ∀ native, BatchEquals box (storageSpaceInsertMany box memory.read request)
        (tuples.map fun tuple => some (.replace request.spaceId tuple.bytes)) native) ↔
          tuples = [] := by
  constructor
  · intro hequals
    cases tuples with
    | nil => rfl
    | cons tuple tuples =>
      exfalso
      obtain ⟨rest, hbatch⟩ := h
      rw [List.map_cons, List.flatten_cons, List.append_assoc] at hbatch
      have hcursor := nextElement_append (.insert request.spaceId) tuple
        ((tuples.map ArrayValue.bytes).flatten ++ rest)
      set failing := BoxCall.insert request.spaceId tuple.bytes
      have hloop :
        storageSpaceInsertMany (failsOn (some failing)) memory.read request ⟨(), fun _ => 0⟩ =
          batchLoop (failsOn (some failing)) () (nextElement (.insert request.spaceId)) mpNext
            (tuples.length + 1) (tuple.bytes ++ ((tuples.map ArrayValue.bytes).flatten ++ rest)) []
            ⟨(), fun _ => 0⟩ := by
        rw [storageSpaceInsertMany, hbatch]
        rfl
      refine not_equals_of_first hloop hcursor (fun call hmem => ?_)
        (hequals Unit Unit _ (failsOn_insertGivesTuple _) ⟨(), fun _ => 0⟩)
      obtain ⟨other, -, rfl⟩ := List.mem_map.mp hmem
      exact ⟨_, rfl, fun heq => BoxCall.noConfusion heq⟩
  · rintro rfl Database Tuple _ box hbox native
    exact insert_equals hbox h native

/-! ## Which methods agree -/

/-- A selection within numbers of 32 bits. -/
def InRange (offset limit : ℤ) : Prop := 0 ≤ offset ∧ offset < 2 ^ 32 ∧ 0 ≤ limit ∧ limit < 2 ^ 32

/-- The method is sent to its own handler with its own request, or its batch has no elements. -/
def SpaceMethod.Paired : SpaceMethod → Prop
  | upsert _ _ => False
  | putMany batch | deleteSingleMany batch => batch.elements = []
  | updateMany keys operations => keys.elements = [] ∧ operations.elements = []
  | selectBy _ offset limit _ => InRange offset limit
  | _ => True

def IndexMethod.Paired : IndexMethod → Prop
  | length | updateSingle _ _ | updateMany _ _ => False
  | selectBy _ offset limit _ => InRange offset limit
  | _ => True

def Method.Paired : Method → Prop
  | .space _ method => method.Paired
  | .index _ method => method.Paired

/-- A request with one piece. -/
theorem reads_piece (space : StorageSpace) (piece : Piece) :
    Reads (createSpace space.id piece.address piece.size) readSpaceRequest
      ⟨piece.size, piece.address, space.id⟩ :=
  readSpaceRequest_createSpace space.id_lt piece.address_lt piece.size_lt

/-- A request with a batch; its size is what is left of the number of the caller. -/
theorem reads_batch (space : StorageSpace) (batch : Batch) :
    Reads (createSpace space.id batch.address batch.size) readSpaceRequest
      ⟨(batch.size % 2 ^ 64).toNat, batch.address, space.id⟩ := by
  rw [createSpace_size]
  exact readSpaceRequest_createSpace space.id_lt batch.address_lt (by omega)

theorem ofSelection_of_lt (space index : ℕ) (iteratorType : StorageIteratorType) (key : Uint8List)
    {offset limit : ℕ} (hoff : (offset : ℤ) < 2 ^ 32) (hlimit : (limit : ℤ) < 2 ^ 32) :
    Operation.ofSelection space index iteratorType offset limit key =
      some (.select ⟨space, index, iteratorType.index, offset, limit, key⟩) :=
  if_pos ⟨Int.natCast_nonneg offset, hoff, Int.natCast_nonneg limit, hlimit⟩

theorem reads_batches (space : StorageSpace) (keys operations : Batch) :
    Reads (createSpaceUpdate space.id keys.address keys.size operations.address operations.size)
      readSpaceUpdateRequest ⟨(keys.size % 2 ^ 64).toNat, (operations.size % 2 ^ 64).toNat,
        keys.address, operations.address, space.id⟩ := by
  rw [createSpaceUpdate_size]
  exact readSpaceUpdateRequest_createSpaceUpdate space.id_lt keys.address_lt (by omega)
    operations.address_lt (by omega)

theorem space_agrees_iff (space : StorageSpace) (method : SpaceMethod) (h : method.Held memory) :
    (Method.space space method).Agrees memory ↔ method.Paired := by
  cases method with
  | countBy key iteratorType =>
    have hreads := readSpaceCountRequest_createSpaceCount space.id_lt iteratorType.index_lt
      key.address_lt key.size_lt
    refine iff_of_true (agrees_of_reads .spaceCount hreads rfl (fun _ _ => rfl) ?_) trivial
    exact fun Database Tuple _ box _ => query_does h box
  | length =>
    refine iff_of_true (agrees_of_request rfl (createNumber_reads .spaceLength space.id_lt) ?_)
      trivial
    exact fun Database Tuple _ box _ => congrArg (fun id => answerNumber box (some (.length id _)))
      (Nat.mod_eq_of_lt space.id_lt)
  | iteratorBy key iteratorType =>
    have hreads := readSpaceIteratorRequest_createSpaceIterator space.id_lt iteratorType.index_lt
      key.address_lt key.size_lt
    refine iff_of_true (agrees_of_reads .spaceIterator hreads rfl (fun _ _ => rfl) ?_) trivial
    exact fun Database Tuple _ box _ => query_does h box
  | insertSingle tuple =>
    refine iff_of_true
      (agrees_of_reads .spaceInsertSingle (reads_piece space tuple) rfl (fun _ _ => rfl) ?_) trivial
    exact fun Database Tuple _ box _ => single_does h box
  | insertMany tuples =>
    refine iff_of_true
      (agrees_of_reads .spaceInsertMany (reads_batch space tuples) rfl (fun _ _ => rfl) ?_) trivial
    have hbatch : ArrayValue.IsBatch (memory.read tuples.address) tuples.elements := h
    exact fun Database Tuple _ box hbox native => insert_equals hbox hbatch native
  | putSingle tuple =>
    refine iff_of_true
      (agrees_of_reads .spacePutSingle (reads_piece space tuple) rfl (fun _ _ => rfl) ?_) trivial
    exact fun Database Tuple _ box _ => single_does h box
  | putMany tuples =>
    -- Sent to the handler of `insertMany`.
    exact Iff.trans (agrees_iff_of_reads .spaceInsertMany (reads_batch space tuples) rfl fun _ _ =>
      rfl) (insertMany_replaces_iff h)
  | deleteSingle key =>
    refine iff_of_true
      (agrees_of_reads .spaceDeleteSingle (reads_piece space key) rfl (fun _ _ => rfl) ?_) trivial
    exact fun Database Tuple _ box _ => single_does h box
  | deleteSingleMany keys =>
    exact Iff.trans (agrees_iff_of_reads .spaceDeleteMany (reads_batch space keys) rfl fun _ _ =>
      rfl) (BatchRequest.counted_iff (fun _ _ heq => (BoxCall.delete.inj heq).2.2) h)
  | get key =>
    refine iff_of_true (agrees_of_reads .spaceGet (reads_piece space key) rfl (fun _ _ => rfl) ?_)
      trivial
    exact fun Database Tuple _ box _ => single_does h box
  | minBy key =>
    refine iff_of_true (agrees_of_reads .spaceMin (reads_piece space key) rfl (fun _ _ => rfl) ?_)
      trivial
    exact fun Database Tuple _ box _ => single_does h box
  | maxBy key =>
    refine iff_of_true (agrees_of_reads .spaceMax (reads_piece space key) rfl (fun _ _ => rfl) ?_)
      trivial
    exact fun Database Tuple _ box _ => single_does h box
  | truncate =>
    refine iff_of_true (agrees_of_request rfl (createNumber_reads .spaceTruncate space.id_lt) ?_)
      trivial
    intro Database Tuple _ box _
    funext native
    show some (_, { native with database := box.truncate (space.id % 2 ^ 32) native.database }) = _
    rw [Nat.mod_eq_of_lt space.id_lt]
  | updateSingle key operations =>
    have hreads := readSpaceUpdateRequest_createSpaceUpdate space.id_lt key.address_lt key.size_lt
      operations.address_lt operations.size_lt
    refine iff_of_true (agrees_of_reads .spaceUpdateSingle hreads rfl (fun _ _ => rfl) ?_) trivial
    exact fun Database Tuple _ box _ => pair_does h.1 h.2 box
  | updateMany keys operations =>
    exact Iff.trans (agrees_iff_of_reads .spaceUpdateMany (reads_batches space keys operations) rfl
        fun _ _ => rfl)
      (BatchRequest.pairs_iff (fun _ _ _ _ heq => (BoxCall.update.inj heq).2.2.1) h.1 h.2)
  | upsert tuple operations => exact iff_of_false (not_agrees_upsert space tuple operations) id
  | selectBy key offset limit iteratorType =>
    by_cases hrange : InRange offset limit
    · refine iff_of_true ?_ hrange
      obtain ⟨hoff, hoff', hlimit, hlimit'⟩ := hrange
      lift offset to ℕ using hoff
      lift limit to ℕ using hlimit
      have hreads := readSpaceSelectRequest_createSpaceSelect space.id_lt key.address_lt key.size_lt
        (by exact_mod_cast hoff') (by exact_mod_cast hlimit') iteratorType.index_lt
      have hselection :=
        ofSelection_of_lt space.id primaryIndexId iteratorType key.bytes hoff' hlimit'
      refine agrees_of_reads .spaceSelect hreads hselection (fun _ _ => rfl) ?_
      exact fun Database Tuple _ box _ => select_does h box
    · refine iff_of_false ?_ hrange
      rintro ⟨operation, hop, -⟩
      have hnone :
        Operation.ofSelection space.id primaryIndexId iteratorType offset limit key.bytes =
          none := if_neg hrange
      exact absurd (hnone.symm.trans hop) nofun

theorem index_agrees_iff (index : StorageIndex) (method : IndexMethod) (h : method.Held memory) :
    (Method.index index method).Agrees memory ↔ method.Paired := by
  cases method with
  | countBy key iteratorType =>
    have hreads := readIndexCountRequest_createIndexCount index.spaceId_lt index.indexId_lt
      key.address_lt key.size_lt iteratorType.index_lt
    refine iff_of_true (agrees_of_reads .indexCount hreads rfl (fun _ _ => rfl) ?_) trivial
    exact fun Database Tuple _ box _ => query_does h box
  | length => exact iff_of_false (not_agrees_indexLength index) id
  | iteratorBy key iteratorType =>
    have hreads := readIndexIteratorRequest_createIndexIterator index.spaceId_lt index.indexId_lt
      iteratorType.index_lt key.address_lt key.size_lt
    refine iff_of_true (agrees_of_reads .indexIterator hreads rfl (fun _ _ => rfl) ?_) trivial
    exact fun Database Tuple _ box _ => query_does h box
  | get key =>
    have hreads := readIndexRequest_createIndex index.spaceId_lt index.indexId_lt key.address_lt
      key.size_lt
    refine iff_of_true (agrees_of_reads .indexGet hreads rfl (fun _ _ => rfl) ?_) trivial
    exact fun Database Tuple _ box _ => single_does h box
  | minBy key =>
    have hreads := readIndexRequest_createIndex index.spaceId_lt index.indexId_lt key.address_lt
      key.size_lt
    refine iff_of_true (agrees_of_reads .indexMin hreads rfl (fun _ _ => rfl) ?_) trivial
    exact fun Database Tuple _ box _ => single_does h box
  | maxBy key =>
    have hreads := readIndexRequest_createIndex index.spaceId_lt index.indexId_lt key.address_lt
      key.size_lt
    refine iff_of_true (agrees_of_reads .indexMax hreads rfl (fun _ _ => rfl) ?_) trivial
    exact fun Database Tuple _ box _ => single_does h box
  | updateSingle key operations =>
    exact iff_of_false (not_agrees_indexUpdateSingle index key operations) id
  | updateMany keys operations =>
    exact iff_of_false (not_agrees_indexUpdateMany index keys operations) id
  | selectBy key offset limit iteratorType =>
    by_cases hrange : InRange offset limit
    · refine iff_of_true ?_ hrange
      obtain ⟨hoff, hoff', hlimit, hlimit'⟩ := hrange
      lift offset to ℕ using hoff
      lift limit to ℕ using hlimit
      have hreads := readIndexSelectRequest_createIndexSelect index.spaceId_lt index.indexId_lt
        key.address_lt key.size_lt (by exact_mod_cast hoff') (by exact_mod_cast hlimit')
        iteratorType.index_lt
      have hselection :=
        ofSelection_of_lt index.spaceId index.indexId iteratorType key.bytes hoff' hlimit'
      refine agrees_of_reads .indexSelect hreads hselection (fun _ _ => rfl) ?_
      exact fun Database Tuple _ box _ => select_does h box
    · refine iff_of_false ?_ hrange
      rintro ⟨operation, hop, -⟩
      have hnone :
        Operation.ofSelection index.spaceId index.indexId iteratorType offset limit key.bytes =
          none := if_neg hrange
      exact absurd (hnone.symm.trans hop) nofun

/-- A method agrees with its handler just when it is paired with it. -/
theorem agrees_iff_paired (method : Method) (h : method.Held memory) :
    method.Agrees memory ↔ method.Paired := by
  cases method with
  | space space method => exact space_agrees_iff space method h
  | index index method => exact index_agrees_iff index method h

end Agreement

/-- An empty tuple at address 8. -/
def emptyTuple : Piece := ⟨8, [0x90], by decide, by decide⟩

def emptyTupleMemory : ProcessMemory := ⟨fun address => if address = 8 then [0x90] else [], rfl⟩

theorem agrees_iff_paired_get :
    (Method.space ⟨512, by decide⟩ (.get emptyTuple)).Agrees emptyTupleMemory ↔
      (Method.space ⟨512, by decide⟩ (.get emptyTuple)).Paired :=
  agrees_iff_paired (Method.space ⟨512, by decide⟩ (.get emptyTuple)) rfl

/-- An upsert is an update for its handler. -/
theorem not_agrees : ¬∀ memory (method : Method), method.Held memory → method.Agrees memory := by
  intro h
  have hheld :
    (Method.space ⟨512, by decide⟩ (.upsert emptyTuple emptyTuple)).Held emptyTupleMemory :=
    ⟨rfl, rfl⟩
  exact not_agrees_upsert ⟨512, by decide⟩ emptyTuple emptyTuple (h emptyTupleMemory _ hheld)

end FengShui.Storage
