import FengShui.Core.Dart
import FengShui.Lib.Bytes
import Mathlib.Data.List.Count

/-!
# The handlers of the storage (`native/storage/box.c`)

The functions of the database that the handlers call are a parameter, and so is the memory of the
process: what can be read from an address on. A handler has no result when the process ends in it.
-/

namespace FengShui.Storage

open ByteString

/-! ## MessagePack (`msgpuck.h`) -/

/-- What a header says about the bytes behind it (`mp_parser_hint`). -/
inductive Hint where
  | skip (bytes : ℕ)
  | values (count : ℕ)
  /-- A length of some width, and further bytes in front of the data. -/
  | sized (width extra : ℕ)
  /-- A number of elements of some width, of so many values each. -/
  | counted (width factor : ℕ)
  | invalid

def parserHint (header : ℕ) : Hint :=
  if header < 0x80 ∨ 0xe0 ≤ header then .skip 0
  else if header < 0x90 then .values (2 * (header &&& 0xf))
  else if header < 0xa0 then .values (header &&& 0xf)
  else if header < 0xc0 then .skip (header &&& 0x1f)
  else match header with
    | 0xc0 | 0xc2 | 0xc3 => .skip 0
    | 0xc4 | 0xd9 => .sized 1 0
    | 0xc5 | 0xda => .sized 2 0
    | 0xc6 | 0xdb => .sized 4 0
    | 0xc7 => .sized 1 1
    | 0xc8 => .sized 2 1
    | 0xc9 => .sized 4 1
    | 0xcc | 0xd0 => .skip 1
    | 0xcd | 0xd1 | 0xd4 => .skip 2
    | 0xd5 => .skip 3
    | 0xca | 0xce | 0xd2 => .skip 4
    | 0xd6 => .skip 5
    | 0xcb | 0xcf | 0xd3 => .skip 8
    | 0xd7 => .skip 9
    | 0xd8 => .skip 17
    | 0xdc => .counted 2 1
    | 0xdd => .counted 4 1
    | 0xde => .counted 2 2
    | 0xdf => .counted 4 2
    | _ => .invalid

/-- `mp_next`, for so many values: what is behind them, if the memory holds them. -/
def mpNextValues (values : ℕ) (data : Uint8List) : Option Uint8List :=
  match values, data with
  | 0, data => some data
  | _ + 1, [] => none
  | values + 1, header :: data =>
    match parserHint header.toNat with
    | .skip bytes =>
      if bytes ≤ data.length then mpNextValues values (data.drop bytes) else none
    | .values count => mpNextValues (values + count) data
    | .sized width extra =>
      let length := width + extra + ofBytesBE (data.take width)
      if length ≤ data.length then mpNextValues values (data.drop length) else none
    | .counted width factor =>
      if width ≤ data.length then
        mpNextValues (values + factor * ofBytesBE (data.take width)) (data.drop width)
      else none
    | .invalid => none
termination_by data.length
decreasing_by
  all_goals
    simp only [List.length_drop, List.length_cons]
    omega

/-- `mp_next`. -/
def mpNext (data : Uint8List) : Option Uint8List := mpNextValues 1 data

/-- `mp_decode_array`: the number of elements, and what is behind the header. -/
def mpDecodeArray : Uint8List → Option (ℕ × Uint8List)
  | [] => none
  | header :: data =>
    if header &&& 0x40 = 0 then some ((header &&& 0xf).toNat, data)
    else
      let width := if header &&& 1 = 0 then 2 else 4
      if width ≤ data.length then some (ofBytesBE (data.take width), data.drop width) else none

/-! ## The database -/

/-- A call that gives a tuple. -/
inductive BoxCall where
  | replace (space : ℕ) (tuple : Uint8List)
  | insert (space : ℕ) (tuple : Uint8List)
  | delete (space index : ℕ) (key : Uint8List)
  | update (space index : ℕ) (key operations : Uint8List)
  | upsert (space index : ℕ) (tuple operations : Uint8List)
  | indexGet (space index : ℕ) (key : Uint8List)
  | indexMin (space index : ℕ) (key : Uint8List)
  | indexMax (space index : ℕ) (key : Uint8List)
  | iteratorNext (iterator : ℕ)
  deriving DecidableEq

/-- A call that gives a number or an address. -/
inductive BoxQuery where
  | iterator (space index type : ℕ) (key : Uint8List)
  | count (space index type : ℕ) (key : Uint8List)
  | length (space index : ℕ)
  | spaceIdByName (name : Uint8List)
  | indexIdByName (space : ℕ) (name : Uint8List)
  deriving DecidableEq

/-- The arguments of `box_select`. -/
structure Selection where
  space : ℕ
  index : ℕ
  iteratorType : ℕ
  offset : ℕ
  limit : ℕ
  key : Uint8List
  deriving DecidableEq

/-- `box_lua_eval` or `box_lua_call`, with the text and the input. -/
structure LuaCall where
  evaluates : Bool
  text : Uint8List
  input : Uint8List

/-- A call fails, or gives `NULL` or a tuple. -/
inductive BoxResult (Tuple : Type) where
  | error
  | null
  | tuple (tuple : Tuple)
  deriving DecidableEq

/-- The functions of the database. -/
structure Box (Database Tuple : Type) where
  call : BoxCall → Database → BoxResult Tuple × Database
  query : BoxQuery → Database → ℕ
  select : Selection → Database → Option (List Tuple)
  lua : LuaCall → Database → Option Uint8List × Database
  truncate : ℕ → Database → Database
  iteratorFree : ℕ → Database → Database
  /-- `port_c_add_tuple` to a port with these entries fails. -/
  portAddFails : List Tuple → Bool
  commitFails : Database → Bool

/-- The database, and the references to tuples that the handlers took and nobody dropped. -/
structure Native (Database Tuple : Type) where
  database : Database
  references : Tuple → ℤ

/-- What a handler leaves in its task. -/
inductive Reply (Tuple : Type) where
  /-- `storage_send_error`. -/
  | error
  /-- The output stays what it was. -/
  | unchanged
  | tuple (tuple : Tuple)
  | port (entries : List Tuple)
  | number (number : ℕ)
  | buffer (bytes : Uint8List)
  deriving DecidableEq

variable {Database Tuple : Type} [DecidableEq Tuple]

namespace Native

/-- `tuple_ref` of all the tuples. -/
def ref (tuples : List Tuple) (native : Native Database Tuple) : Native Database Tuple :=
  { native with references := fun tuple => native.references tuple + tuples.count tuple }

/-- `tuple_unref` of all the tuples. -/
def unref (tuples : List Tuple) (native : Native Database Tuple) : Native Database Tuple :=
  { native with references := fun tuple => native.references tuple - tuples.count tuple }

end Native

/-- A handler that reads its request in some memory. -/
abbrev Handler (Database Tuple : Type) :=
  Native Database Tuple → Option (Reply Tuple × Native Database Tuple)

variable (box : Box Database Tuple) (memory : ℕ → Uint8List)

/-- The bytes from an address to a number of bytes behind it. -/
def range (address size : ℕ) : Option Uint8List :=
  if size ≤ (memory address).length then some ((memory address).take size) else none

/-- A handler with one call of the database. -/
def single (call : Option BoxCall) : Handler Database Tuple := fun native => do
  let call ← call
  match box.call call native.database with
  | (.error, database) => some (.error, { native with database := database })
  | (.null, database) => some (.unchanged, { native with database := database })
  | (.tuple tuple, database) =>
    some (.tuple tuple, { native with database := database }.ref [tuple])

/-- `port_destroy`, `txn_rollback` and `storage_send_error`: the database of the beginning. -/
def rollback (before : Database) (entries : List Tuple) (native : Native Database Tuple) :
    Reply Tuple × Native Database Tuple :=
  (.error, { native with database := before }.unref entries)

/-- The loop of a batch, with the call at a cursor and the cursor behind it. -/
def batchLoop {Cursor : Type} (before : Database) (call : Cursor → Option BoxCall)
    (next : Cursor → Option Cursor) :
    ℕ → Cursor → List Tuple → Handler Database Tuple
  | 0, _, entries, native =>
    -- A commit that fails leaves nothing behind either.
    if box.commitFails native.database then some (rollback before entries native)
    else some (.port entries, native)
  | count + 1, cursor, entries, native => do
    let boxCall ← call cursor
    match box.call boxCall native.database with
    | (.error, _) => some (rollback before entries native)
    -- `tuple_ref` of `NULL`.
    | (.null, _) => none
    | (.tuple tuple, database) =>
      let native := { native with database := database }.ref [tuple]
      if box.portAddFails entries then some (rollback before entries native)
      else do
        let cursor ← next cursor
        batchLoop before call next count cursor (entries ++ [tuple]) (native.ref [tuple])

/-! ## The requests (`box.h`) -/

structure SpaceRequest where
  tupleSize : ℕ
  tuple : ℕ
  spaceId : ℕ

structure SpaceCountRequest where
  keySize : ℕ
  key : ℕ
  spaceId : ℕ
  iteratorType : ℕ

structure SpaceSelectRequest where
  keySize : ℕ
  key : ℕ
  spaceId : ℕ
  offset : ℕ
  limit : ℕ
  iteratorType : ℕ

structure SpaceUpdateRequest where
  keySize : ℕ
  operationsSize : ℕ
  key : ℕ
  operations : ℕ
  spaceId : ℕ

structure SpaceUpsertRequest where
  tupleSize : ℕ
  tuple : ℕ
  operations : ℕ
  operationsSize : ℕ
  spaceId : ℕ

structure SpaceIteratorRequest where
  keySize : ℕ
  key : ℕ
  spaceId : ℕ
  type : ℕ

structure IndexRequest where
  tupleSize : ℕ
  tuple : ℕ
  spaceId : ℕ
  indexId : ℕ

structure IndexCountRequest where
  keySize : ℕ
  key : ℕ
  spaceId : ℕ
  indexId : ℕ
  iteratorType : ℕ

structure IndexIdByNameRequest where
  name : ℕ
  nameLength : ℕ
  spaceId : ℕ

structure IndexUpdateRequest where
  key : ℕ
  keySize : ℕ
  operations : ℕ
  operationsSize : ℕ
  spaceId : ℕ
  indexId : ℕ

/-- `storage_call_request` and `storage_evaluate_request`. -/
structure LuaRequest where
  text : ℕ
  textLength : ℕ
  input : ℕ
  inputSize : ℕ

structure IndexIteratorRequest where
  key : ℕ
  keySize : ℕ
  spaceId : ℕ
  indexId : ℕ
  type : ℕ

structure IndexSelectRequest where
  key : ℕ
  keySize : ℕ
  spaceId : ℕ
  indexId : ℕ
  offset : ℕ
  limit : ℕ
  iteratorType : ℕ

structure IndexIdRequest where
  spaceId : ℕ
  indexId : ℕ

/-- `STORAGE_PRIMARY_INDEX_ID`. -/
def primaryIndexId : ℕ := 0

/-! ## The handlers -/

/-- A handler with one call on the tuple or key of its request. -/
def singleTuple (call : Uint8List → BoxCall) (address size : ℕ) : Handler Database Tuple :=
  single box ((range memory address size).map call)

/-- A handler with one call on two pieces of its request. -/
def singlePair (call : Uint8List → Uint8List → BoxCall)
    (address size operations operationsSize : ℕ) :
    Handler Database Tuple :=
  single box (do
    let first ← range memory address size
    let second ← range memory operations operationsSize
    return call first second)

def storageSpacePutSingle (request : SpaceRequest) : Handler Database Tuple :=
  singleTuple box memory (.replace request.spaceId) request.tuple request.tupleSize

def storageSpaceInsertSingle (request : SpaceRequest) : Handler Database Tuple :=
  singleTuple box memory (.insert request.spaceId) request.tuple request.tupleSize

def storageSpaceDeleteSingle (request : SpaceRequest) : Handler Database Tuple :=
  singleTuple box memory (.delete request.spaceId primaryIndexId) request.tuple request.tupleSize

def storageSpaceUpdateSingle (request : SpaceUpdateRequest) : Handler Database Tuple :=
  singlePair box memory (.update request.spaceId primaryIndexId) request.key request.keySize
    request.operations request.operationsSize

def storageSpaceUpsert (request : SpaceUpsertRequest) : Handler Database Tuple :=
  singlePair box memory (.upsert request.spaceId primaryIndexId) request.tuple request.tupleSize
    request.operations request.operationsSize

def storageSpaceGet (request : SpaceRequest) : Handler Database Tuple :=
  singleTuple box memory (.indexGet request.spaceId primaryIndexId) request.tuple request.tupleSize

def storageSpaceMin (request : SpaceRequest) : Handler Database Tuple :=
  singleTuple box memory (.indexMin request.spaceId primaryIndexId) request.tuple request.tupleSize

def storageSpaceMax (request : SpaceRequest) : Handler Database Tuple :=
  singleTuple box memory (.indexMax request.spaceId primaryIndexId) request.tuple request.tupleSize

def storageIndexGet (request : IndexRequest) : Handler Database Tuple :=
  singleTuple box memory (.indexGet request.spaceId request.indexId) request.tuple request.tupleSize

def storageIndexMin (request : IndexRequest) : Handler Database Tuple :=
  singleTuple box memory (.indexMin request.spaceId request.indexId) request.tuple request.tupleSize

def storageIndexMax (request : IndexRequest) : Handler Database Tuple :=
  singleTuple box memory (.indexMax request.spaceId request.indexId) request.tuple request.tupleSize

def storageIndexUpdateSingle (request : IndexUpdateRequest) : Handler Database Tuple :=
  singlePair box memory (.update request.spaceId request.indexId) request.key request.keySize
    request.operations request.operationsSize

/-- The call of a batch on the element at a cursor, which is taken for as many bytes as it has
elements. -/
def countedElement (call : Uint8List → BoxCall) (cursor : Uint8List) : Option BoxCall := do
  let (size, _) ← mpDecodeArray cursor
  if size ≤ cursor.length then some (call (cursor.take size)) else none

/-- `storage_space_put_many` and `storage_space_delete_many`. -/
def manyCounted (call : Uint8List → BoxCall) (address : ℕ) :
    Handler Database Tuple := fun native => do
  let (count, batch) ← mpDecodeArray (memory address)
  batchLoop box native.database (countedElement call) mpNext count batch [] native

def storageSpacePutMany (request : SpaceRequest) : Handler Database Tuple :=
  manyCounted box memory (.replace request.spaceId) request.tuple

def storageSpaceDeleteMany (request : SpaceRequest) : Handler Database Tuple :=
  manyCounted box memory (.delete request.spaceId primaryIndexId) request.tuple

/-- The element at a cursor, up to where `mp_next` stops. -/
def nextElement (call : Uint8List → BoxCall) (cursor : Uint8List) : Option BoxCall := do
  let rest ← mpNext cursor
  return call (cursor.take (cursor.length - rest.length))

def storageSpaceInsertMany (request : SpaceRequest) : Handler Database Tuple := fun native => do
  let (count, batch) ← mpDecodeArray (memory request.tuple)
  batchLoop box native.database (nextElement (.insert request.spaceId)) mpNext count batch [] native

/-- The call on the key and the operations at two cursors, each taken for as many bytes as it has
elements. -/
def countedPair (call : Uint8List → Uint8List → BoxCall) (cursors : Uint8List × Uint8List) :
    Option BoxCall := do
  let (keySize, _) ← mpDecodeArray cursors.1
  let (operationSize, _) ← mpDecodeArray cursors.2
  if keySize ≤ cursors.1.length ∧ operationSize ≤ cursors.2.length then
    some (call (cursors.1.take keySize) (cursors.2.take operationSize))
  else none

def nextPair (cursors : Uint8List × Uint8List) : Option (Uint8List × Uint8List) := do
  let key ← mpNext cursors.1
  let operation ← mpNext cursors.2
  return (key, operation)

/-- The number of keys, and the first key and operations. The number of operations is not used. -/
def pairCursors (key operations : ℕ) : Option (ℕ × Uint8List × Uint8List) := do
  let (count, keyBatch) ← mpDecodeArray (memory key)
  let (_, operationBatch) ← mpDecodeArray (memory operations)
  return (count, keyBatch, operationBatch)

/-- `storage_space_update_many` and `storage_index_update_many`. -/
def manyPairs (call : Uint8List → Uint8List → BoxCall) (key operations : ℕ) :
    Handler Database Tuple :=
  fun native => do
    let (count, cursors) ← pairCursors memory key operations
    batchLoop box native.database (countedPair call) nextPair count cursors [] native

def storageSpaceUpdateMany (request : SpaceUpdateRequest) : Handler Database Tuple :=
  manyPairs box memory (.update request.spaceId primaryIndexId) request.key request.operations

def storageIndexUpdateMany (request : IndexUpdateRequest) : Handler Database Tuple :=
  manyPairs box memory (.update request.spaceId request.indexId) request.key request.operations

/-- `storage_space_select` and `storage_index_select`. -/
def selectPort (selection : Uint8List → Selection) (key keySize : ℕ) : Handler Database Tuple :=
  fun native => do
    let key ← range memory key keySize
    match box.select (selection key) native.database with
    | none => some (.error, native)
    | some tuples => some (.port tuples, native.ref tuples)

def storageSpaceSelect (request : SpaceSelectRequest) : Handler Database Tuple :=
  selectPort box memory (fun key => ⟨request.spaceId, primaryIndexId, request.iteratorType,
    request.offset, request.limit, key⟩) request.key request.keySize

def storageIndexSelect (request : IndexSelectRequest) : Handler Database Tuple :=
  selectPort box memory (fun key => ⟨request.spaceId, request.indexId, request.iteratorType,
    request.offset, request.limit, key⟩) request.key request.keySize

/-- A handler that answers with a number. -/
def answerNumber (query : Option BoxQuery) : Handler Database Tuple := fun native => do
  let query ← query
  return (.number (box.query query native.database), native)

def storageSpaceIterator (request : SpaceIteratorRequest) : Handler Database Tuple :=
  answerNumber box ((range memory request.key request.keySize).map
    (.iterator request.spaceId primaryIndexId request.type))

def storageSpaceCount (request : SpaceCountRequest) : Handler Database Tuple :=
  answerNumber box ((range memory request.key request.keySize).map
    (.count request.spaceId primaryIndexId request.iteratorType))

/-- `storage_space_length`; the input is the space. -/
def storageSpaceLength (input : ℕ) : Handler Database Tuple :=
  answerNumber box (some (.length (input % 2 ^ 32) primaryIndexId))

def storageSpaceTruncate (input : ℕ) : Handler Database Tuple := fun native =>
  some (.unchanged, { native with database := box.truncate (input % 2 ^ 32) native.database })

def storageSpaceIdByName (input inputSize : ℕ) : Handler Database Tuple :=
  answerNumber box ((range memory input inputSize).map .spaceIdByName)

def storageIndexIterator (request : IndexIteratorRequest) : Handler Database Tuple :=
  answerNumber box ((range memory request.key request.keySize).map
    (.iterator request.spaceId request.indexId request.type))

def storageIndexCount (request : IndexCountRequest) : Handler Database Tuple :=
  answerNumber box ((range memory request.key request.keySize).map
    (.count request.spaceId request.indexId request.iteratorType))

def storageIndexLength (request : IndexIdRequest) : Handler Database Tuple :=
  answerNumber box (some (.length request.spaceId request.indexId))

def storageIndexIdByName (request : IndexIdByNameRequest) : Handler Database Tuple :=
  answerNumber box ((range memory request.name request.nameLength).map
    (.indexIdByName request.spaceId))

/-- `storage_iterator_next_single`: the end of the iterator is an error. -/
def storageIteratorNextSingle (iterator : ℕ) : Handler Database Tuple := fun native =>
  match box.call (.iteratorNext iterator) native.database with
  | (.tuple tuple, database) =>
    some (.tuple tuple, { native with database := database }.ref [tuple])
  | (_, database) => some (.error, { native with database := database })

/-- The loop of `storage_iterator_next_many`, for an input size that its counter of 32 bits
reaches. -/
def nextLoop (iterator : ℕ) : ℕ → List Tuple → Handler Database Tuple
  | 0, entries, native => some (.port entries, native)
  | found + 1, entries, native =>
    match box.call (.iteratorNext iterator) native.database with
    | (.tuple tuple, database) =>
      if box.portAddFails entries then
        some (.error, { native with database := database }.unref entries)
      else nextLoop iterator found (entries ++ [tuple])
        ({ native with database := database }.ref [tuple])
    | (_, database) => some (.error, { native with database := database }.unref entries)

def storageIteratorNextMany (iterator inputSize : ℕ) : Handler Database Tuple :=
  nextLoop box iterator inputSize []

def storageIteratorDestroy (iterator : ℕ) : Handler Database Tuple := fun native =>
  some (.unchanged, { native with database := box.iteratorFree iterator native.database })

/-- `storage_evaluate` and `storage_call`. -/
def storageLua (evaluates : Bool) (request : LuaRequest) :
    Handler Database Tuple := fun native => do
  let text ← range memory request.text request.textLength
  let input ← range memory request.input request.inputSize
  match box.lua ⟨evaluates, text, input⟩ native.database with
  | (none, database) => some (.error, { native with database := database })
  | (some output, database) => some (.buffer output, { native with database := database })

def storageEvaluate : LuaRequest → Handler Database Tuple := storageLua box memory true

def storageCall : LuaRequest → Handler Database Tuple := storageLua box memory false

end FengShui.Storage
