import FengShui.Lib.Transition
import FengShui.Storage.Methods
import FengShui.Storage.Strings

/-!
# The pools of requests (`storage/factory.dart`)

An operation takes a structure from a pool of the factory, and a block for its string, and gives
both back in what it passes to `then`: for the answer that is a value, and for no other.
`disciplined_iff` says for which runs everything is given back once, as it was taken. The structures
that are taken at a time lie apart, so that an operation finds in its structure what it wrote there,
and what the executor and the handler write to the task.
-/

namespace FengShui.Storage

open Lib.Layout Transition List

/-- The pools of `StorageFactory`. -/
inductive RequestPool where
  | messages
  | spaceRequests | spaceCountRequests | spaceSelectRequests | spaceUpdateRequests
  | spaceUpsertRequests
  | spaceIteratorRequests
  | indexRequests | indexCountRequests | indexIdByNameRequests | indexUpdateRequests
  | indexIteratorRequests
  | callRequests | evaluateRequests | indexSelectRequests | indexIdRequests
  deriving DecidableEq, Repr

/-- The pool that a function of the factory takes its structure from. -/
def Creation.pool : Creation → RequestPool
  | message | string _ => .messages
  | space .. => .spaceRequests
  | spaceCount .. => .spaceCountRequests
  | spaceSelect .. => .spaceSelectRequests
  | spaceUpdate .. => .spaceUpdateRequests
  | spaceUpsert .. => .spaceUpsertRequests
  | spaceIterator .. => .spaceIteratorRequests
  | index .. => .indexRequests
  | indexCount .. => .indexCountRequests
  | indexIdByName .. => .indexIdByNameRequests
  | indexIdentifier .. => .indexIdRequests
  | indexUpdate .. => .indexUpdateRequests
  | call .. => .callRequests
  | evaluate .. => .evaluateRequests
  | indexIterator .. => .indexIteratorRequests
  | indexSelect .. => .indexSelectRequests

/-- The block that is taken for a string, with its size. -/
def Creation.strings (block : ℕ) : Creation → List (ℕ × ℕ)
  | indexIdByName _ text | call text _ _ | evaluate text _ _ | string text =>
    [(block, StorageStrings.createSize text)]
  | _ => []

/-! ## The functions that release -/

/-- What is given back: a structure to a pool, and blocks with their sizes. -/
structure Released where
  request : RequestPool × ℕ
  strings : List (ℕ × ℕ)
  deriving DecidableEq, Repr

/-- `release` of a pool. -/
def releaseTo (pool : RequestPool) (_ : Heap) (request : ℕ) : Released := ⟨(pool, request), []⟩

def releaseMessage : Heap → ℕ → Released := releaseTo .messages

def releaseSpace : Heap → ℕ → Released := releaseTo .spaceRequests

def releaseSpaceCount : Heap → ℕ → Released := releaseTo .spaceCountRequests

def releaseSpaceSelect : Heap → ℕ → Released := releaseTo .spaceSelectRequests

def releaseSpaceUpdate : Heap → ℕ → Released := releaseTo .spaceUpdateRequests

def releaseSpaceUpsert : Heap → ℕ → Released := releaseTo .spaceUpsertRequests

def releaseSpaceIterator : Heap → ℕ → Released := releaseTo .spaceIteratorRequests

def releaseIndex : Heap → ℕ → Released := releaseTo .indexRequests

def releaseIndexCount : Heap → ℕ → Released := releaseTo .indexCountRequests

def releaseIndexUpdate : Heap → ℕ → Released := releaseTo .indexUpdateRequests

def releaseIndexIterator : Heap → ℕ → Released := releaseTo .indexIteratorRequests

def releaseIndexSelect : Heap → ℕ → Released := releaseTo .indexSelectRequests

/-- `_strings.free` of two fields of the request, and `release` of the pool. -/
def releaseWithString (pool : RequestPool) (layout : RequestLayout) (string length : RequestField)
    (heap : Heap) (request : ℕ) : Released :=
  ⟨(pool, request), [(readField RequestField.fieldType layout heap request string,
    StorageStrings.freeSize (readField RequestField.fieldType layout heap request length))]⟩

def releaseIndexIdByName : Heap → ℕ → Released :=
  releaseWithString .indexIdByNameRequests indexIdByNameRequestLayout .name .nameLength

def releaseCall : Heap → ℕ → Released :=
  releaseWithString .callRequests callRequestLayout .function .functionLength

def releaseEvaluate : Heap → ℕ → Released :=
  releaseWithString .evaluateRequests evaluateRequestLayout .expression .expressionLength

def releaseString (heap : Heap) (message : ℕ) : Released :=
  ⟨(.messages, message), [(inputOf heap message,
    StorageStrings.freeSize (readField TaskField.type executorTask heap message .inputSize))]⟩

/-- A release of `message.getInputObject()`. -/
def releaseInput (release : Heap → ℕ → Released) (heap : Heap) (message : ℕ) : Released :=
  release heap (inputOf heap message)

/-! ## Operations -/

/-- The operations that send a request. -/
inductive StorageOperation where
  | space (space : StorageSpace) (method : SpaceMethod)
  | index (index : StorageIndex) (method : IndexMethod)
  | spaceId (space : DartString)
  | indexId (spaceId : ℤ) (index : DartString)
  | evaluate (expression : DartString) (input inputSize : ℤ)
  | call (function : DartString) (input inputSize : ℤ)
  | freeOutputBuffer (buffer bufferSize : ℤ)
  | iteratorNextSingle (iterator : ℤ)
  | iteratorNextMany (iterator count : ℤ)
  | iteratorDestroy (iterator : ℤ)

def SpaceMethod.creation (space : StorageSpace) : SpaceMethod → Creation
  | countBy key iteratorType => .spaceCount space.id iteratorType.index key.address key.size
  | length | truncate => .message
  | iteratorBy key iteratorType => .spaceIterator space.id iteratorType.index key.address key.size
  | insertSingle tuple | putSingle tuple => .space space.id tuple.address tuple.size
  | insertMany tuples | putMany tuples => .space space.id tuples.address tuples.size
  | deleteSingle key | get key | minBy key | maxBy key => .space space.id key.address key.size
  | deleteSingleMany keys => .space space.id keys.address keys.size
  | updateSingle key operations =>
    .spaceUpdate space.id key.address key.size operations.address operations.size
  | updateMany keys operations =>
    .spaceUpdate space.id keys.address keys.size operations.address operations.size
  | upsert tuple operations =>
    .spaceUpsert space.id tuple.address tuple.size operations.address operations.size
  | selectBy key offset limit iteratorType =>
    .spaceSelect space.id key.address key.size offset limit iteratorType.index

def IndexMethod.creation (index : StorageIndex) : IndexMethod → Creation
  | countBy key iteratorType =>
    .indexCount index.spaceId index.indexId key.address key.size iteratorType.index
  | length => .indexIdentifier index.spaceId index.indexId
  | iteratorBy key iteratorType =>
    .indexIterator index.spaceId index.indexId iteratorType.index key.address key.size
  | get key | minBy key | maxBy key => .index index.spaceId index.indexId key.address key.size
  | updateSingle key operations => .indexUpdate index.spaceId index.indexId key.address key.size
      operations.address operations.size
  | updateMany keys operations => .indexUpdate index.spaceId index.indexId keys.address keys.size
      operations.address operations.size
  | selectBy key offset limit iteratorType =>
    .indexSelect index.spaceId index.indexId key.address key.size offset limit iteratorType.index

namespace StorageOperation

/-- The call of the factory. -/
def creation : StorageOperation → Creation
  | space owner method => method.creation owner
  | index owner method => method.creation owner
  | spaceId name => .string name
  | indexId owner name => .indexIdByName owner name
  | evaluate expression input inputSize => .evaluate expression input inputSize
  | call function input inputSize => .call function input inputSize
  | freeOutputBuffer .. | iteratorNextSingle _ | iteratorNextMany .. | iteratorDestroy _ => .message

/-- What is set in a task of its own. `inputInt` sets the size as well. -/
def inputs : StorageOperation → List (TaskField × ℤ)
  | space owner .length | space owner .truncate => [(.input, owner.id), (.inputSize, 4)]
  | freeOutputBuffer buffer bufferSize =>
    [(.input, buffer), (.inputSize, 4), (.inputSize, bufferSize)]
  | iteratorNextSingle iterator => [(.input, iterator), (.inputSize, 4), (.inputSize, 1)]
  | iteratorNextMany iterator count => [(.input, iterator), (.inputSize, 4), (.inputSize, count)]
  | iteratorDestroy iterator => [(.input, iterator), (.inputSize, 4)]
  | _ => []

/-- The task that is sent, made in the structure at an address and with a block for the string. -/
def create (operation : StorageOperation) (block : ℕ) (heap : Heap) (address : ℕ) :
    Writing Message := do
  let message ← operation.creation.create block heap address
  return { message with
    heap := fill TaskField.type executorTask message.heap message.task operation.inputs }

/-- What is passed to `then`, behind the reads of the answer. -/
def complete : StorageOperation → Heap → ℕ → Released
  | space _ method =>
    match method with
    | .countBy .. => releaseInput releaseSpaceCount
    | .length | .truncate => releaseMessage
    | .iteratorBy .. => releaseInput releaseSpaceIterator
    | .insertSingle _ | .insertMany _ | .putSingle _ | .putMany _ | .deleteSingle _
    | .deleteSingleMany _
    | .get _ | .minBy _ | .maxBy _ => releaseInput releaseSpace
    | .updateSingle .. | .updateMany .. => releaseInput releaseSpaceUpdate
    | .upsert .. => releaseInput releaseSpaceUpsert
    | .selectBy .. => releaseInput releaseSpaceSelect
  | index _ method =>
    match method with
    | .countBy .. => releaseInput releaseIndexCount
    | .length => releaseMessage
    | .iteratorBy .. => releaseInput releaseIndexIterator
    | .get _ | .minBy _ | .maxBy _ => releaseInput releaseIndex
    | .updateSingle .. | .updateMany .. => releaseInput releaseIndexUpdate
    | .selectBy .. => releaseInput releaseIndexSelect
  | spaceId _ => releaseString
  | indexId .. => releaseInput releaseIndexIdByName
  | evaluate .. => releaseInput releaseEvaluate
  | call .. => releaseInput releaseCall
  | freeOutputBuffer .. | iteratorNextSingle _ | iteratorNextMany .. | iteratorDestroy _ =>
    releaseMessage

end StorageOperation

/-! ## Runs -/

/-- A call of an operation: the structure that its pool has for it, with what is in the memory, and
the block that `storage_create_string` has for its string. -/
structure StorageCall where
  operation : StorageOperation
  block : NativeBlock operation.creation.text
  address : ℕ
  heap : Heap
  address_lt : address < 2 ^ 64

namespace StorageCall

def create (call : StorageCall) : EStateM.Result DartException Uint8List Message :=
  call.operation.create call.block.address call.heap call.address call.block.units

def request (call : StorageCall) : RequestPool × ℕ := (call.operation.creation.pool, call.address)

def strings (call : StorageCall) : List (ℕ × ℕ) :=
  call.operation.creation.strings call.block.address

end StorageCall

/-- A call that is not answered. -/
structure Unanswered where
  call : StorageCall
  message : Message
  created : ∃ units, call.create = .ok message units

/-- The memory at an answer. The executor writes in front of the input of a task, and the handler
behind the size of the input. -/
def answered (message : Message) (native : Heap) : Heap := fun a =>
  if message.task ≤ a ∧ a < message.task + inputOffset ∨
      message.task + fieldOffset TaskField.type executorTask .output ≤ a ∧
        a < message.task + executorMessageSize then native a
  else message.heap a

/-- What was taken from the pools and from the allocator of the strings so far, what was given back,
and the calls that are not answered. -/
structure RequestLedger where
  taken : List (RequestPool × ℕ)
  returned : List (RequestPool × ℕ)
  allocated : List (ℕ × ℕ)
  freed : List (ℕ × ℕ)
  unanswered : List Unanswered

def RequestLedger.create : RequestLedger := ⟨[], [], [], [], []⟩

inductive LedgerAction where
  /-- An operation is called. `executor_call_native` may have no entry for its task. -/
  | call (call : StorageCall) (accepted : Bool)
  /-- The answer to one of the calls: an error, or a value that the handler wrote. -/
  | answer (index : ℕ) (native : Heap) (error : Bool)

/-- The string gets its block in front of the structure. -/
def RequestLedger.step (ledger : RequestLedger) : LedgerAction → Option RequestLedger
  | .call call accepted =>
    match h : call.create with
    | .error _ _ => some { ledger with allocated := ledger.allocated ++ call.strings }
    | .ok message units => some { ledger with
        taken := ledger.taken ++ [call.request]
        allocated := ledger.allocated ++ call.strings
        unanswered := ledger.unanswered ++ if accepted then [⟨call, message, units, h⟩] else [] }
  | .answer index native error => do
    let pending ← ledger.unanswered[index]?
    let ledger := { ledger with unanswered := ledger.unanswered.eraseIdx index }
    if error then some ledger
    else
      let released :=
        pending.call.operation.complete (answered pending.message native) pending.message.task
      some { ledger with
        returned := ledger.returned ++ [released.request]
        freed := ledger.freed ++ released.strings }

/-- Everything that was taken was given back, once and as it was taken, but for the calls that are
not answered. -/
structure Disciplined (ledger : RequestLedger) : Prop where
  requests : ledger.taken.Perm
    (ledger.returned ++ ledger.unanswered.map fun pending => pending.call.request)
  strings : ledger.allocated.Perm
    (ledger.freed ++ ledger.unanswered.flatMap fun pending => pending.call.strings)

/-- `length` of an index, and a text whose length has more than the 32 bits of its field, are not
given back as they were taken. -/
def StorageOperation.Returns : StorageOperation → Prop
  | index _ .length => False
  | evaluate text _ _ | call text _ _ => text.length < 2 ^ 32
  | _ => True

/-- The task is sent, and answered by a value. -/
def Quiet (ledger : RequestLedger) : LedgerAction → Prop
  | .call call accepted => Unicode.Ascii call.operation.creation.text ∧ accepted = true
  | .answer index _ error => error = false ∧
      ∀ pending ∈ ledger.unanswered[index]?, pending.call.operation.Returns

/-! ## What is found in the structure -/

section Answered

variable {message : Message} {native : Heap} {address : ℕ}

theorem answered_eq {a : ℕ} (h : a < message.task ∨ message.task + inputOffset ≤ a ∧
    a < message.task + fieldOffset TaskField.type executorTask .output) :
    answered message native a = message.heap a := by
  have hlast : fieldOffset TaskField.type executorTask .output ≤ executorMessageSize := by decide
  unfold answered
  rw [if_neg (by omega)]

/-- The input and its size are what was sent. -/
theorem readField_task_answered {field : TaskField}
    (hlow : inputOffset ≤ fieldOffset TaskField.type executorTask field)
    (hhigh : fieldOffset TaskField.type executorTask field + field.type.size ≤
      fieldOffset TaskField.type executorTask .output) :
    readField TaskField.type executorTask (answered message native) message.task field =
      readField TaskField.type executorTask message.heap message.task field :=
  readLE_congr fun a hstart hstop => answered_eq (.inr (by omega))

theorem inputOf_answered :
    inputOf (answered message native) message.task = inputOf message.heap message.task :=
  readField_task_answered (by decide) (by decide)

variable {layout : RequestLayout} {fields : List (RequestField × ℤ)} {heap : Heap}

theorem input_answered (hlayout : HasTask layout) (haddr : address < 2 ^ 64) :
    inputOf (answered (createRequest layout fields heap address) native)
      (createRequest layout fields heap address).task = address := by
  rw [inputOf_answered]
  exact inputOf_createRequest hlayout haddr (Delivered.self _)

/-- A field in front of the task. -/
theorem readField_answered (hlayout : HasTask layout) (hfills : Fills layout (fields.map Prod.fst))
    {field : RequestField} {value : ℤ} (hmem : (field, value) ∈ fields)
    (hfront : fieldOffset RequestField.fieldType layout field + field.fieldType.size ≤
      fieldOffset RequestField.fieldType layout .task) :
    (readField RequestField.fieldType layout
      (answered (createRequest layout fields heap address) native) address field : ℤ) =
        value % (256 ^ field.fieldType.size : ℕ) := by
  have htask : (createRequest layout fields heap address).task =
      address + fieldOffset RequestField.fieldType layout .task := messageOf_eq hlayout
  rw [← readField_createRequest_emod hlayout hfills (Delivered.self _) hmem]
  exact congrArg Nat.cast (readLE_congr fun a _ hstop => answered_eq (.inl (by omega)))

/-- A structure whose address is the input of its task. -/
theorem releaseInput_releaseTo (pool : RequestPool) (hlayout : HasTask layout)
    (haddr : address < 2 ^ 64) :
    releaseInput (releaseTo pool) (answered (createRequest layout fields heap address) native)
      (createRequest layout fields heap address).task = ⟨(pool, address), []⟩ := by
  unfold releaseInput releaseTo
  rw [input_answered hlayout haddr]

/-- A structure with a string: the length is what its field holds. -/
theorem releaseInput_releaseWithString (pool : RequestPool) (string length : RequestField)
    (block size : ℕ) (hlayout : HasTask layout) (haddr : address < 2 ^ 64)
    (hfills : Fills layout (fields.map Prod.fst)) (hstr : (string, (block : ℤ)) ∈ fields)
    (hlen : (length, (size : ℤ)) ∈ fields)
    (hstrFront : fieldOffset RequestField.fieldType layout string + string.fieldType.size ≤
      fieldOffset RequestField.fieldType layout .task)
    (hlenFront : fieldOffset RequestField.fieldType layout length + length.fieldType.size ≤
      fieldOffset RequestField.fieldType layout .task)
    (hblock : block < 256 ^ string.fieldType.size) :
    releaseInput (releaseWithString pool layout string length)
      (answered (createRequest layout fields heap address) native)
      (createRequest layout fields heap address).task =
        ⟨(pool, address),
          [(block, StorageStrings.freeSize (size % 256 ^ length.fieldType.size))]⟩ := by
  have hblockField : (readField RequestField.fieldType layout
      (answered (createRequest layout fields heap address) native) address string : ℤ) = block := by
    rw [readField_answered hlayout hfills hstr hstrFront]
    exact Int.emod_eq_of_lt (by omega) (by exact_mod_cast hblock)
  have hsizeField : (readField RequestField.fieldType layout
      (answered (createRequest layout fields heap address) native) address length : ℤ) =
        (size % 256 ^ length.fieldType.size : ℕ) := by
    rw [readField_answered hlayout hfills hlen hlenFront]
    exact (Int.natCast_mod _ _).symm
  unfold releaseInput releaseWithString
  rw [input_answered hlayout haddr, Nat.cast_inj.mp hblockField, Nat.cast_inj.mp hsizeField]

end Answered

/-! ## What is given back -/

variable {operation : StorageOperation} {after : Uint8List}

theorem StorageOperation.create_ok {block : ℕ} {heap : Heap} {address : ℕ} {message : Message}
    {units : Uint8List} (h : operation.create block heap address units = .ok message after) :
    ∃ made, operation.creation.create block heap address units = .ok made after ∧ message =
      ⟨fill TaskField.type executorTask made.heap made.task operation.inputs, made.task⟩ := by
  obtain ⟨made, middle, hmade, hmsg⟩ := ok_of_bind h
  cases hmsg
  exact ⟨made, hmade, rfl⟩

/-- A string that has its block is ASCII, and its length is returned. -/
theorem allocate_ok {source : DartString} {block : NativeBlock source} {length : ℕ}
    (h : StorageStrings.allocate source block.units = .ok length after) :
    length = source.length := by
  have hascii := ascii_of_allocate block.length_units h
  obtain ⟨other, hother, -⟩ := allocate_of_ascii hascii block.length_units
  obtain ⟨rfl, -⟩ := EStateM.Result.ok.inj (hother.symm.trans h)
  exact (Unicode.length_utf8Encode_eq_iff source).mpr hascii

/-- What is sent where the string has its block: the task that is made with its length. -/
theorem StorageOperation.message_eq {text : DartString} {block : NativeBlock text} {heap : Heap}
    {address : ℕ} {message : Message} {make : ℕ → Message}
    (hmake : operation.creation.create block.address heap address =
      do return make (← StorageStrings.allocate text))
    (h : operation.create block.address heap address block.units = .ok message after) :
    message = ⟨fill TaskField.type executorTask (make text.length).heap (make text.length).task
      operation.inputs, (make text.length).task⟩ := by
  obtain ⟨made, hmade, rfl⟩ := StorageOperation.create_ok h
  rw [hmake] at hmade
  obtain ⟨length, middle, halloc, hmsg⟩ := ok_of_bind hmade
  obtain rfl := allocate_ok halloc
  cases hmsg
  rfl

theorem NativeBlock.lt {source : DartString} (block : NativeBlock source) :
    block.address < 2 ^ 64 ∧ source.length < 2 ^ 64 := by
  have hlen := block.length_units
  have haddr := block.address_le
  omega

/-- The size of a block that is freed by a field of 32 bits. -/
theorem freeSize_mod_iff (request : RequestPool × ℕ) (block : ℕ) (text : DartString) :
    (⟨request, [(block, StorageStrings.freeSize (text.length % 2 ^ 32))]⟩ : Released) =
      ⟨request, [(block, StorageStrings.createSize text)]⟩ ↔ text.length < 2 ^ 32 := by
  have hsize : StorageStrings.freeSize (text.length % 2 ^ 32) = StorageStrings.createSize text ↔
      text.length < 2 ^ 32 := by
    unfold StorageStrings.freeSize StorageStrings.createSize
    omega
  rw [← hsize]
  constructor
  · intro h
    exact congrArg Prod.snd (List.cons.inj (congrArg Released.strings h)).1
  · intro h
    rw [h]

namespace Unanswered

variable {native : Heap}

variable {heap : Heap} {address : ℕ} {message : Message} {after : Uint8List}

theorem complete_space {owner : StorageSpace} {method : SpaceMethod} {block : ℕ}
    {units : Uint8List} (haddr : address < 2 ^ 64)
    (h : (StorageOperation.space owner method).create block heap address units =
    .ok message after) :
    (StorageOperation.space owner method).complete (answered message native) message.task =
      ⟨((method.creation owner).pool, address), []⟩ := by
  cases method with
  | length | truncate =>
    cases h
    rfl
  | _ =>
    cases h
    exact releaseInput_releaseTo _ (by decide) haddr

theorem complete_index {owner : StorageIndex} {method : IndexMethod} (hmethod : method ≠ .length)
    {block : ℕ} {units : Uint8List} (haddr : address < 2 ^ 64)
    (h : (StorageOperation.index owner method).create block heap address units =
    .ok message after) :
    (StorageOperation.index owner method).complete (answered message native) message.task =
      ⟨((method.creation owner).pool, address), []⟩ := by
  cases method with
  | length => exact absurd rfl hmethod
  | _ =>
    cases h
    exact releaseInput_releaseTo _ (by decide) haddr

theorem complete_spaceId {name : DartString} {block : NativeBlock name}
    (h : (StorageOperation.spaceId name).create block.address heap address block.units =
    .ok message after) :
    (StorageOperation.spaceId name).complete (answered message native) message.task =
      ⟨(.messages, address), [(block.address, StorageStrings.createSize name)]⟩ := by
  obtain rfl := StorageOperation.message_eq rfl h
  obtain ⟨hblock, hlen⟩ := block.lt
  let task := fill TaskField.type executorTask heap address
    [(.input, (block.address : ℤ)), (.inputSize, (name.length : ℤ))]
  let message : Message := ⟨task, address⟩
  have hinput : (inputOf task address : ℤ) = block.address := by
    unfold inputOf
    rw [readField_fill heap address Creation.taskField_aligned
      (by simp [executorTask]) (by simp) mem_cons_self]
    exact Int.emod_eq_of_lt (by omega) (by exact_mod_cast hblock)
  have hsize : (readField TaskField.type executorTask task address .inputSize : ℤ) =
      name.length := by
    rw [readField_fill heap address Creation.taskField_aligned (by simp [executorTask]) (by simp)
      (mem_cons_of_mem _ mem_cons_self)]
    exact Int.emod_eq_of_lt (by omega) (by exact_mod_cast hlen)
  show releaseString (answered message native) message.task = _
  have hkept :
    readField TaskField.type executorTask (answered message native) message.task .inputSize =
      readField TaskField.type executorTask task address .inputSize :=
    readField_task_answered (by decide) (by decide)
  unfold releaseString
  rw [inputOf_answered, hkept, Nat.cast_inj.mp hinput, Nat.cast_inj.mp hsize]
  rfl

theorem complete_indexId {owner : ℤ} {name : DartString} {block : NativeBlock name}
    (haddr : address < 2 ^ 64)
    (h : (StorageOperation.indexId owner name).create block.address heap address block.units =
      .ok message after) :
    (StorageOperation.indexId owner name).complete (answered message native) message.task =
      ⟨(.indexIdByNameRequests, address), [(block.address, StorageStrings.createSize name)]⟩ := by
  obtain rfl := StorageOperation.message_eq rfl h
  obtain ⟨hblock, hlen⟩ := block.lt
  have hsize : name.length % 256 ^ (RequestField.fieldType .nameLength).size = name.length :=
    Nat.mod_eq_of_lt hlen
  refine (releaseInput_releaseWithString .indexIdByNameRequests .name .nameLength block.address
    name.length (by decide) haddr (of_decide_eq_true rfl) (by simp) (by simp) (by decide)
    (by decide) hblock).trans ?_
  rw [hsize]
  rfl

theorem complete_call {function : DartString} {input inputSize : ℤ} {block : NativeBlock function}
    (haddr : address < 2 ^ 64)
    (h :
      (StorageOperation.call function input inputSize).create block.address heap address
        block.units = .ok message after) :
    (StorageOperation.call function input inputSize).complete
    (answered message native) message.task =
      ⟨(.callRequests, address),
        [(block.address, StorageStrings.freeSize (function.length % 2 ^ 32))]⟩ := by
  obtain rfl := StorageOperation.message_eq rfl h
  exact releaseInput_releaseWithString .callRequests .function .functionLength block.address
    function.length
    (by decide) haddr (of_decide_eq_true rfl) (by simp) (by simp) (by decide) (by decide) block.lt.1

theorem complete_evaluate {expression : DartString} {input inputSize : ℤ}
    {block : NativeBlock expression} (haddr : address < 2 ^ 64)
    (h :
      (StorageOperation.evaluate expression input inputSize).create block.address heap address
        block.units = .ok message after) :
    (StorageOperation.evaluate expression input inputSize).complete
    (answered message native) message.task = ⟨(.evaluateRequests, address),
        [(block.address, StorageStrings.freeSize (expression.length % 2 ^ 32))]⟩ := by
  obtain rfl := StorageOperation.message_eq rfl h
  exact releaseInput_releaseWithString .evaluateRequests .expression .expressionLength block.address
    expression.length
      (by decide) haddr (of_decide_eq_true rfl) (by simp) (by simp) (by decide) (by decide)
    block.lt.1

/-- The answer gives back what the call took, exactly for these operations. -/
theorem complete_iff (pending : Unanswered) (native : Heap) :
    pending.call.operation.complete (answered pending.message native) pending.message.task =
      ⟨pending.call.request, pending.call.strings⟩ ↔ pending.call.operation.Returns := by
  obtain ⟨⟨operation, block, address, heap, haddr⟩, message, units, hcreated⟩ := pending
  dsimp only [StorageCall.request, StorageCall.strings]
  cases operation with
  | space owner method =>
    have hnone : (method.creation owner).strings block.address = [] := by cases method <;> rfl
    refine iff_of_true ((complete_space haddr hcreated).trans ?_) trivial
    rw [← hnone]
    rfl
  | index owner method =>
    have hnone : (method.creation owner).strings block.address = [] := by cases method <;> rfl
    by_cases hmethod : method = .length
    · -- The structure is that of an id, and the pool that of the tasks.
      subst hmethod
      refine iff_of_false (fun h => ?_) id
      have hpool := congrArg (fun released => released.request.1) h
      cases hpool
    · have hreturns : (StorageOperation.index owner method).Returns := by
        cases method with
        | length => exact absurd rfl hmethod
        | _ => trivial
      refine iff_of_true ((complete_index hmethod haddr hcreated).trans ?_) hreturns
      rw [← hnone]
      rfl
  | spaceId name => exact iff_of_true (complete_spaceId hcreated) trivial
  | indexId owner name => exact iff_of_true (complete_indexId haddr hcreated) trivial
  | evaluate expression input inputSize =>
    rw [complete_evaluate haddr hcreated]
    exact freeSize_mod_iff (.evaluateRequests, address) block.address expression
  | call function input inputSize =>
    rw [complete_call haddr hcreated]
    exact freeSize_mod_iff (.callRequests, address) block.address function
  | freeOutputBuffer buffer bufferSize =>
    cases hcreated
    exact iff_of_true rfl trivial
  | iteratorNextSingle iterator =>
    cases hcreated
    exact iff_of_true rfl trivial
  | iteratorNextMany iterator count =>
    cases hcreated
    exact iff_of_true rfl trivial
  | iteratorDestroy iterator =>
    cases hcreated
    exact iff_of_true rfl trivial

end Unanswered

/-! ## Calls -/

theorem ascii_nil : Unicode.Ascii [] := nofun

/-- A function of the factory returns where its string has room in the block. -/
theorem Creation.exists_create_iff (creation : Creation) (block : NativeBlock creation.text)
    (heap : Heap) (address : ℕ) :
    (∃ message units, creation.create block.address heap address block.units = .ok message units) ↔
      Unicode.Ascii creation.text := by
  have hstr {source : DartString} (block : NativeBlock source) (make : ℕ → Message) :
      (∃ message units,
        (do return make (← StorageStrings.allocate source) : Writing Message) block.units =
        .ok message units) ↔ Unicode.Ascii source := by
    constructor
    · rintro ⟨message, units, h⟩
      obtain ⟨length, middle, halloc, -⟩ := ok_of_bind h
      exact ascii_of_allocate block.length_units halloc
    · intro hascii
      obtain ⟨after, halloc, -⟩ := allocate_of_ascii hascii block.length_units
      exact ⟨_, after, bind_of_ok halloc⟩
  cases creation with
  | indexIdByName spaceId name => exact hstr block _
  | call function input inputSize => exact hstr block _
  | evaluate expression input inputSize => exact hstr block _
  | string value => exact hstr block _
  | _ => exact iff_of_true ⟨_, _, rfl⟩ ascii_nil

theorem Creation.strings_ne_nil {creation : Creation} (h : ¬Unicode.Ascii creation.text)
    (block : ℕ) : creation.strings block ≠ [] := by
  cases creation with
  | indexIdByName | call | evaluate | string => exact cons_ne_nil _ _
  | _ => exact absurd ascii_nil h

theorem Creation.perm_strings_iff {creation : Creation} {block : ℕ} {strings : List (ℕ × ℕ)} :
    strings.Perm (creation.strings block) ↔ strings = creation.strings block := by
  cases creation with
  | indexIdByName | call | evaluate | string => exact perm_singleton
  | _ => exact perm_nil

theorem StorageCall.exists_create_iff (call : StorageCall) :
    (∃ message units, call.create = .ok message units) ↔
      Unicode.Ascii call.operation.creation.text := by
  rw [← call.operation.creation.exists_create_iff call.block call.heap call.address]
  constructor
  · rintro ⟨message, units, h⟩
    obtain ⟨made, hmade, -⟩ := StorageOperation.create_ok h
    exact ⟨made, units, hmade⟩
  · rintro ⟨made, units, hmade⟩
    exact ⟨_, units, bind_of_ok hmade⟩

namespace RequestLedger

variable {ledger next : RequestLedger}

/-- What is given back for something else that was taken. -/
theorem perm_answer_iff {α : Type} {all before old new rest : List α}
    (h : all.Perm (before ++ (old ++ rest))) : all.Perm (before ++ new ++ rest) ↔ new.Perm old := by
  rw [append_assoc]
  calc all.Perm (before ++ (new ++ rest))
      ↔ (before ++ (new ++ rest)).Perm (before ++ (old ++ rest)) :=
        ⟨fun hnew => hnew.symm.trans h, fun hnew => h.trans hnew.symm⟩
    _ ↔ (new ++ rest).Perm (old ++ rest) := perm_append_left_iff before
    _ ↔ new.Perm old := perm_append_right_iff rest

theorem disciplined_call (h : Disciplined ledger) {call : StorageCall} {accepted : Bool}
    (hstep : ledger.step (.call call accepted) = some next) :
    Disciplined next ↔ Quiet ledger (.call call accepted) := by
  unfold step at hstep
  dsimp only at hstep
  split at hstep
  · rename_i e units hcreate
    cases hstep
    have hascii : ¬Unicode.Ascii call.operation.creation.text := by
      rw [← call.exists_create_iff]
      rintro ⟨message, after, hok⟩
      cases hcreate.symm.trans hok
    refine iff_of_false (fun hnext => ?_) fun hquiet => hascii hquiet.1
    -- The block is not given back.
    have hlen := hnext.strings.length_eq
    have hbefore := h.strings.length_eq
    have hblock := length_pos_of_ne_nil (Creation.strings_ne_nil hascii call.block.address)
    change 0 < call.strings.length at hblock
    dsimp only at hlen
    rw [length_append] at hlen
    omega
  · rename_i message units hcreate
    cases hstep
    have hascii := call.exists_create_iff.mp ⟨message, units, hcreate⟩
    cases accepted with
    | true =>
      refine iff_of_true ⟨?_, ?_⟩ ⟨hascii, rfl⟩
      · rw [if_pos rfl, map_append, ← append_assoc]
        exact h.requests.append_right _
      · rw [if_pos rfl, flatMap_append, ← append_assoc, flatMap_singleton]
        exact h.strings.append_right _
    -- Nobody is to answer, and nobody to release.
    | false =>
      refine iff_of_false (fun hnext => ?_) fun hquiet => Bool.false_ne_true hquiet.2
      have hlen := hnext.requests.length_eq
      have hbefore := h.requests.length_eq
      simp only [length_append, length_singleton, Bool.false_eq_true, if_false, append_nil]
        at hlen hbefore
      omega

theorem disciplined_answer (h : Disciplined ledger) {index : ℕ} {native : Heap} {error : Bool}
    (hstep : ledger.step (.answer index native error) = some next) :
    Disciplined next ↔ Quiet ledger (.answer index native error) := by
  obtain ⟨pending, hpend, hstep⟩ := Option.bind_eq_some_iff.mp hstep
  obtain ⟨hidx, rfl⟩ := List.getElem?_eq_some_iff.mp hpend
  -- The call that is answered is put in front of the others.
  have hperm := getElem_cons_eraseIdx_perm hidx
  have hreqs :=
    h.requests.trans ((hperm.symm.map fun pending => pending.call.request).append_left _)
  have hstrs :=
    h.strings.trans ((hperm.symm.flatMap_right fun pending => pending.call.strings).append_left _)
  rw [map_cons, ← singleton_append] at hreqs
  rw [flatMap_cons] at hstrs
  cases error with
  | true =>
    cases hstep
    refine iff_of_false (fun hnext => ?_) fun hquiet => Bool.false_ne_true hquiet.1.symm
    -- The structure is not given back.
    have hlen := hnext.requests.length_eq
    have hbefore := hreqs.length_eq
    simp only [length_append, length_map, length_singleton] at hlen hbefore
    omega
  | false =>
    cases hstep
    have hreturns := Unanswered.complete_iff ledger.unanswered[index] native
    have hquiet : Quiet ledger (.answer index native false) ↔
        ledger.unanswered[index].call.operation.Returns := by
      unfold Quiet
      dsimp only
      rw [hpend]
      exact ⟨fun h => h.2 _ rfl, fun h => ⟨rfl, fun pending hmem => Option.some.inj hmem ▸ h⟩⟩
    rw [hquiet, ← hreturns, Released.mk.injEq, ← singleton_perm_singleton]
    constructor
    · intro hnext
      refine ⟨(perm_answer_iff hreqs).mp hnext.requests, ?_⟩
      exact Creation.perm_strings_iff.mp ((perm_answer_iff hstrs).mp hnext.strings)
    · rintro ⟨hreq, hstr⟩
      refine ⟨(perm_answer_iff hreqs).mpr hreq, (perm_answer_iff hstrs).mpr ?_⟩
      exact Creation.perm_strings_iff.mpr hstr

/-- A step keeps the discipline exactly where it is quiet. -/
theorem disciplined_step (h : Disciplined ledger) {action : LedgerAction}
    (hstep : ledger.step action = some next) : Disciplined next ↔ Quiet ledger action := by
  cases action with
  | call call accepted => exact disciplined_call h hstep
  | answer index native error => exact disciplined_answer h hstep

end RequestLedger

theorem disciplined_create : Disciplined RequestLedger.create := ⟨.nil, .nil⟩

/-- Everything is given back once, as it was taken, all along a run if and only if the run is quiet:
every string is ASCII, every task is sent and answered by a value, `length` of an index is not
answered, nor a text of `2^32` characters or more. -/
theorem disciplined_iff (actions : List LedgerAction) {last : RequestLedger}
    (hrun : run RequestLedger.step RequestLedger.create actions = some last) :
    Throughout RequestLedger.step Disciplined RequestLedger.create actions ↔
      Along RequestLedger.step Quiet RequestLedger.create actions := by
  apply throughout_iff Disciplined (fun _ => id) _ _ disciplined_create hrun
  · intro ledger action next h hquiet hstep
    exact (RequestLedger.disciplined_step h hstep).mpr hquiet
  · intro ledger action next h hquiet hstep hnext
    exact hquiet ((RequestLedger.disciplined_step h hstep).mp hnext)

/-- An insertion of the empty tuple. -/
def insertEmptyTuple : StorageCall where
  operation := .space ⟨512, by decide⟩ (.insertSingle emptyTuple)
  block := ⟨64, [0], rfl, by decide⟩
  address := 4096
  heap := fun _ => 0
  address_lt := by decide

theorem disciplined_insertEmptyTuple :
    Throughout RequestLedger.step Disciplined RequestLedger.create
      [.call insertEmptyTuple true, .answer 0 (fun _ => 0) false] := by
  apply (disciplined_iff [.call insertEmptyTuple true, .answer 0 (fun _ => 0) false] rfl).mpr
  refine ⟨⟨ascii_nil, rfl⟩, fun next hnext => ?_⟩
  cases hnext
  refine ⟨⟨rfl, fun pending hmem => ?_⟩, fun _ _ => trivial⟩
  cases hmem
  trivial

/-- The structure of an insertion that is answered by an error stays taken. -/
theorem not_disciplined : ¬∀ (actions : List LedgerAction) (last : RequestLedger),
    run RequestLedger.step RequestLedger.create actions = some last →
      Throughout RequestLedger.step Disciplined RequestLedger.create actions := by
  intro h
  have hthroughout := h [.call insertEmptyTuple true, .answer 0 (fun _ => 0) true] _ rfl
  have hlast := hthroughout [.call insertEmptyTuple true, .answer 0 (fun _ => 0) true] [] _ rfl rfl
  have hlength := hlast.requests.length_eq
  exact absurd hlength (by decide)

end FengShui.Storage
