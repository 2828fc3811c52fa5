import FengShui.Core.TupleConformance
import FengShui.Storage.Requests

/-!
# The functions of the factory (`storage/factory.dart`, `storage/strings.dart`)

A function of `StorageFactory` takes a structure from a pool, fills it with its arguments and
returns the task in it. `marshalled_iff` says when the handler reads just the arguments, whatever
the structure was used for before: the operations of an update by index are never written, the task
of a pair of ids does not lie in its structure, and a string that is not ASCII does not fit its
block.
-/

namespace FengShui.Storage

open Lib.Layout

/-! ## Strings -/

/-- `StorageStrings.allocate`, on the bytes of its block. -/
def StorageStrings.allocate (source : DartString) : Writing ℕ := do
  let length ← encode source 0
  setUint8 length 0
  return length

/-- A block of `storage_create_string` for a string. -/
structure NativeBlock (source : DartString) where
  address : ℕ
  units : Uint8List
  length_units : units.length = source.length + 1
  address_le : address + units.length ≤ 2 ^ 64

/-! ## The functions -/

def createMessage (heap : Heap) (address : ℕ) : Message := ⟨heap, address⟩

section Strings

variable (block : ℕ) (heap : Heap) (address : ℕ)

def createIndexIdByName (spaceId : ℤ) (name : DartString) : Writing Message := do
  let nameLength ← StorageStrings.allocate name
  return createRequest indexIdByNameRequestLayout
    [(.spaceId, spaceId), (.name, block), (.nameLength, nameLength)] heap address

def createCall (function : DartString) (input inputSize : ℤ) : Writing Message := do
  let functionLength ← StorageStrings.allocate function
  return createRequest callRequestLayout [(.function, block), (.functionLength, functionLength),
    (.input, input), (.inputSize, inputSize)] heap address

def createEvaluate (expression : DartString) (input inputSize : ℤ) : Writing Message := do
  let expressionLength ← StorageStrings.allocate expression
  return createRequest evaluateRequestLayout [(.expression, block),
    (.expressionLength, expressionLength), (.input, input), (.inputSize, inputSize)] heap address

/-- A task of its own, whose input is the string. -/
def createString (string : DartString) : Writing Message := do
  let length ← StorageStrings.allocate string
  return ⟨fill TaskField.type executorTask heap address [(.input, block), (.inputSize, length)],
    address⟩

end Strings

/-- A call of a function of the factory. -/
inductive Creation where
  | message
  | space (spaceId tuple tupleSize : ℤ)
  | spaceCount (spaceId iteratorType key keySize : ℤ)
  | spaceSelect (spaceId key keySize offset limit iteratorType : ℤ)
  | spaceUpdate (spaceId key keySize operations operationsSize : ℤ)
  | spaceUpsert (spaceId tuple tupleSize operations operationsSize : ℤ)
  | spaceIterator (spaceId type key keySize : ℤ)
  | index (spaceId indexId tuple tupleSize : ℤ)
  | indexCount (spaceId indexId key keySize iteratorType : ℤ)
  | indexIdByName (spaceId : ℤ) (name : DartString)
  | indexIdentifier (spaceId indexId : ℤ)
  | indexUpdate (spaceId indexId key keySize operations operationsSize : ℤ)
  | call (function : DartString) (input inputSize : ℤ)
  | evaluate (expression : DartString) (input inputSize : ℤ)
  | indexIterator (spaceId indexId type key keySize : ℤ)
  | indexSelect (spaceId indexId key keySize offset limit type : ℤ)
  | string (string : DartString)

namespace Creation

/-- The string that gets a block. -/
def text : Creation → DartString
  | indexIdByName _ name => name
  | call function _ _ => function
  | evaluate expression _ _ => expression
  | string value => value
  | _ => []

/-- The task that is returned, with the address of the block and of the structure. -/
def create (block : ℕ) (heap : Heap) (address : ℕ) : Creation → Writing Message
  | message => return createMessage heap address
  | space spaceId tuple tupleSize => return createSpace spaceId tuple tupleSize heap address
  | spaceCount spaceId iteratorType key keySize =>
    return createSpaceCount spaceId iteratorType key keySize heap address
  | spaceSelect spaceId key keySize offset limit iteratorType =>
    return createSpaceSelect spaceId key keySize offset limit iteratorType heap address
  | spaceUpdate spaceId key keySize operations operationsSize =>
    return createSpaceUpdate spaceId key keySize operations operationsSize heap address
  | spaceUpsert spaceId tuple tupleSize operations operationsSize =>
    return createSpaceUpsert spaceId tuple tupleSize operations operationsSize heap address
  | spaceIterator spaceId type key keySize =>
    return createSpaceIterator spaceId type key keySize heap address
  | index spaceId indexId tuple tupleSize =>
    return createIndex spaceId indexId tuple tupleSize heap address
  | indexCount spaceId indexId key keySize iteratorType =>
    return createIndexCount spaceId indexId key keySize iteratorType heap address
  | indexIdByName spaceId name => createIndexIdByName block heap address spaceId name
  | indexIdentifier spaceId indexId => return createIndexId spaceId indexId heap address
  | indexUpdate spaceId indexId key keySize operations operationsSize =>
    return createIndexUpdate spaceId indexId key keySize operations operationsSize heap address
  | call function input inputSize => createCall block heap address function input inputSize
  | evaluate expression input inputSize =>
    createEvaluate block heap address expression input inputSize
  | indexIterator spaceId indexId type key keySize =>
    return createIndexIterator spaceId indexId type key keySize heap address
  | indexSelect spaceId indexId key keySize offset limit type =>
    return createIndexSelect spaceId indexId key keySize offset limit type heap address
  | string value => createString block heap address value

/-- The structure that is taken from a pool. -/
def layout : Creation → RequestLayout
  | message | string _ => [.task]
  | space .. => spaceRequestLayout
  | spaceCount .. => spaceCountRequestLayout
  | spaceSelect .. => spaceSelectRequestLayout
  | spaceUpdate .. => spaceUpdateRequestLayout
  | spaceUpsert .. => spaceUpsertRequestLayout
  | spaceIterator .. => spaceIteratorRequestLayout
  | index .. => indexRequestLayout
  | indexCount .. => indexCountRequestLayout
  | indexIdByName .. => indexIdByNameRequestLayout
  | indexIdentifier .. => indexIdRequestLayout
  | indexUpdate .. => indexUpdateRequestLayout
  | call .. => callRequestLayout
  | evaluate .. => evaluateRequestLayout
  | indexIterator .. => indexIteratorRequestLayout
  | indexSelect .. => indexSelectRequestLayout

/-! ## What is to be read -/

/-- The arguments, by the fields that are named after them. A string is its block and the number of
its bytes. -/
def arguments (block : ℕ) : Creation → List (RequestField × ℤ)
  | message | string _ => []
  | space spaceId tuple tupleSize => [(.spaceId, spaceId), (.tuple, tuple), (.tupleSize, tupleSize)]
  | spaceCount spaceId iteratorType key keySize =>
    [(.spaceId, spaceId), (.key, key), (.keySize, keySize), (.iteratorType, iteratorType)]
  | spaceSelect spaceId key keySize offset limit iteratorType =>
    [(.spaceId, spaceId), (.key, key), (.keySize, keySize), (.iteratorType, iteratorType),
      (.offset, offset), (.limit, limit)]
  | spaceUpdate spaceId key keySize operations operationsSize =>
    [(.spaceId, spaceId), (.key, key), (.keySize, keySize), (.operations, operations),
      (.operationsSize, operationsSize)]
  | spaceUpsert spaceId tuple tupleSize operations operationsSize =>
    [(.spaceId, spaceId), (.tuple, tuple), (.tupleSize, tupleSize), (.operations, operations),
      (.operationsSize, operationsSize)]
  | spaceIterator spaceId type key keySize =>
    [(.spaceId, spaceId), (.key, key), (.keySize, keySize), (.type, type)]
  | index spaceId indexId tuple tupleSize =>
    [(.spaceId, spaceId), (.indexId, indexId), (.tuple, tuple), (.tupleSize, tupleSize)]
  | indexCount spaceId indexId key keySize iteratorType =>
    [(.spaceId, spaceId), (.indexId, indexId), (.key, key), (.keySize, keySize),
      (.iteratorType, iteratorType)]
  | indexIdByName spaceId name =>
    [(.spaceId, spaceId), (.name, block), (.nameLength, (utf8Encode name).length)]
  | indexIdentifier spaceId indexId => [(.spaceId, spaceId), (.indexId, indexId)]
  | indexUpdate spaceId indexId key keySize operations operationsSize =>
    [(.spaceId, spaceId), (.indexId, indexId), (.key, key), (.keySize, keySize),
      (.operations, operations), (.operationsSize, operationsSize)]
  | call function input inputSize =>
    [(.function, block), (.functionLength, (utf8Encode function).length), (.input, input),
      (.inputSize, inputSize)]
  | evaluate expression input inputSize =>
    [(.expression, block), (.expressionLength, (utf8Encode expression).length), (.input, input),
      (.inputSize, inputSize)]
  | indexIterator spaceId indexId type key keySize =>
    [(.spaceId, spaceId), (.indexId, indexId), (.type, type), (.key, key), (.keySize, keySize)]
  | indexSelect spaceId indexId key keySize offset limit type =>
    [(.spaceId, spaceId), (.indexId, indexId), (.iteratorType, type), (.key, key),
      (.keySize, keySize), (.offset, offset), (.limit, limit)]

/-- What is to be read in the task: its request, or a string that has none. -/
def taskArguments (block address : ℕ) : Creation → List (TaskField × ℤ)
  | message => []
  | string value => [(.input, block), (.inputSize, (utf8Encode value).length)]
  | _ => [(.input, address)]

end Creation

/-- The fields of the type `int32_t`. -/
def RequestField.isSigned : RequestField → Bool
  | iteratorType | type => true
  | _ => false

/-- The value of a field with this number in its bytes. -/
def RequestField.decode (field : RequestField) (number : ℕ) : ℤ :=
  if field.isSigned = true ∧ 2 ^ 31 ≤ number then number - 2 ^ 32 else number

/-- A value of the type of a field. -/
def RequestField.Holds (field : RequestField) (value : ℤ) : Prop :=
  if field.isSigned then -2 ^ 31 ≤ value ∧ value < 2 ^ 31
  else 0 ≤ value ∧ value < (256 ^ field.fieldType.size : ℕ)

/-- The task lies in its structure, and its handler reads the arguments in it, in all fields. -/
structure Carries (layout : RequestLayout) (taskArguments : List (TaskField × ℤ))
    (arguments : List (RequestField × ℤ)) (address : ℕ) (message : Message) (delivered : Heap) :
    Prop where
  inside : address ≤ message.task ∧
    message.task + executorMessageSize ≤ address + structureSize RequestField.fieldType layout
  task : ∀ field ∈ taskArguments,
    (readField TaskField.type executorTask delivered message.task field.1 : ℤ) = field.2
  request : ∀ field ∈ layout, field ≠ .task →
    (field, field.decode (readField RequestField.fieldType layout delivered
      (inputOf delivered message.task) field)) ∈ arguments

/-- Whatever a structure had in it, the function returns, the block has the bytes of the string, and
the task carries the arguments. -/
def Creation.Marshalled (creation : Creation) (block : NativeBlock creation.text) : Prop :=
  ∀ heap address, address < 2 ^ 64 → ∃ message units,
    creation.create block.address heap address block.units = .ok message units ∧
      units.take (utf8Encode creation.text).length = utf8Encode creation.text ∧
      ∀ delivered, Delivered message delivered →
        Carries creation.layout (creation.taskArguments block.address address)
          (creation.arguments block.address) address message delivered

/-- The functions that set all of their structure, in a structure with a task. -/
def Creation.isWhole : Creation → Bool
  | indexIdentifier .. | indexUpdate .. => false
  | _ => true

/-! ## Fields -/

/-- A field that was written has the value if and only if its type does. -/
theorem decode_eq_iff (field : RequestField) {number : ℕ} {value : ℤ}
    (h : (number : ℤ) = value % (256 ^ field.fieldType.size : ℕ)) :
    field.decode number = value ↔ field.Holds value := by
  unfold RequestField.decode RequestField.Holds
  by_cases hsigned : field.isSigned = true
  · have hsize : field.fieldType.size = 4 := by
      cases field with
      | iteratorType | type => rfl
      | _ => cases hsigned
    rw [hsize] at h
    rw [if_pos hsigned]
    simp only [hsigned, true_and]
    split <;> omega
  · rw [if_neg hsigned, if_neg fun h => hsigned h.1]
    have hpos : (0 : ℤ) < (256 ^ field.fieldType.size : ℕ) := by
      exact_mod_cast Nat.pow_pos (by decide)
    rw [h]
    constructor
    · intro hval
      rw [← hval]
      exact ⟨Int.emod_nonneg value hpos.ne', Int.emod_lt_of_pos value hpos⟩
    · rintro ⟨hnonneg, hlt⟩
      exact Int.emod_eq_of_lt hnonneg hlt

/-- Every field of a structure but the task is among these. -/
def Covers (layout : RequestLayout) (names : List RequestField) : Prop :=
  ∀ field ∈ layout, field ≠ .task → field ∈ names

instance (layout : RequestLayout) (names : List RequestField) : Decidable (Covers layout names) :=
  inferInstanceAs (Decidable (∀ field ∈ layout, _))

section Requests

variable {layout : RequestLayout} {fields : List (RequestField × ℤ)} {heap delivered : Heap}
  {address : ℕ}

/-- The message offset leads to a task in the structure. -/
theorem inside_createRequest (hlayout : HasTask layout) :
    address ≤ (createRequest layout fields heap address).task ∧
      (createRequest layout fields heap address).task + executorMessageSize ≤
        address + structureSize RequestField.fieldType layout := by
  have htask : (createRequest layout fields heap address).task =
      address + fieldOffset RequestField.fieldType layout .task := messageOf_eq hlayout
  have hsize := hlayout.2
  omega

/-- A filled structure carries what it was filled with if and only if every number has the type of
its field. -/
theorem carries_createRequest_iff (hlayout : HasTask layout)
    (hfills : Fills layout (fields.map Prod.fst))
    (hcovers : Covers layout (fields.map Prod.fst)) (haddr : address < 2 ^ 64)
    (h : Delivered (createRequest layout fields heap address) delivered) :
    Carries layout [(.input, address)] fields address
      (createRequest layout fields heap address) delivered ↔
      ∀ field ∈ fields, field.1.Holds field.2 := by
  have hinput := inputOf_createRequest hlayout haddr h
  constructor
  · intro hcarries field hmem
    have hname := hfills.1 field.1 (List.mem_map_of_mem hmem)
    have hread := hcarries.request field.1 hname.1 hname.2
    rw [hinput] at hread
    -- No field is filled twice, so that what is read there is this number.
    have hsame := List.inj_on_of_nodup_map hfills.2 hread hmem rfl
    exact (decode_eq_iff field.1 (readField_createRequest_emod hlayout hfills h hmem)).mp
      (congrArg Prod.snd hsame)
  · intro hholds
    refine ⟨inside_createRequest hlayout, ?_, ?_⟩
    · intro field hmem
      obtain rfl := List.mem_singleton.mp hmem
      exact congrArg Int.ofNat hinput
    · intro other hother hne
      obtain ⟨field, hmem, rfl⟩ := List.mem_map.mp (hcovers other hother hne)
      rw [hinput, (decode_eq_iff field.1 (readField_createRequest_emod hlayout hfills h hmem)).mpr
        (hholds field hmem)]
      exact hmem

/-- A field that the factory does not write is what it was. -/
theorem readField_createRequest_of_notMem (hlayout : HasTask layout)
    (hfills : Fills layout (fields.map Prod.fst)) {field : RequestField} (hfield : field ∈ layout)
    (hne : field ≠ .task) (hnot : field ∉ fields.map Prod.fst)
    (h : Delivered (createRequest layout fields heap address) delivered) :
    readField RequestField.fieldType layout delivered address field =
      readField RequestField.fieldType layout heap address field := by
  rw [readField_createRequest_kept hlayout hfield hne h]
  refine readField_fill_of_notMem heap address fieldType_aligned hfield fields fun other hmem => ?_
  have hother := List.mem_map_of_mem (f := Prod.fst) hmem
  exact ⟨(hfills.1 other.1 hother).1, fun heq => hnot (heq ▸ hother)⟩

end Requests

/-! ## Strings fit their blocks -/

/-- A string that is not longer as bytes is ASCII. -/
theorem ascii_of_encodedLength : ∀ value : DartString, encodedLength value ≤ value.length →
    Unicode.Ascii value
  | [], _ => nofun
  | [codeUnit], h => by
    unfold encodedLength at h
    dsimp only [List.length] at h
    intro u hu
    obtain rfl := List.mem_singleton.mp hu
    split_ifs at h <;> omega
  | codeUnit :: next :: rest, h => by
    have hrest := length_le_encodedLength rest
    have hnext := length_le_encodedLength (next :: rest)
    unfold encodedLength at h
    simp only [List.length_cons] at h hnext
    by_cases hone : codeUnit.toNat ≤ 0x7f
    · rw [if_pos hone] at h
      have hascii := ascii_of_encodedLength (next :: rest) (by rw [List.length_cons]; omega)
      intro u hu
      rcases List.mem_cons.mp hu with rfl | hu
      · omega
      · exact hascii u hu
    · rw [if_neg hone] at h
      split_ifs at h <;> omega

theorem encodedLength_of_ascii {value : DartString} (h : Unicode.Ascii value) :
    encodedLength value = value.length := by
  rw [← length_encodeBytes, encodeBytes_of_ascii h]
  exact (Unicode.length_utf8Encode_eq_iff value).mpr h

/-- The bytes of an ASCII string, with the zero behind them, are the block. -/
theorem allocate_of_ascii {source : DartString} (h : Unicode.Ascii source) {units : Uint8List}
    (hlen : units.length = source.length + 1) : ∃ after,
      StorageStrings.allocate source units = .ok (utf8Encode source).length after ∧
        after.take (utf8Encode source).length = utf8Encode source := by
  have hencoded := encodedLength_of_ascii h
  have hbytes : (utf8Encode source).length = source.length :=
    (Unicode.length_utf8Encode_eq_iff source).mpr h
  obtain ⟨middle, hok, hmid, -⟩ :=
    (writes_encode source).returns 0 units (encodable_of_ascii h) (by omega)
  obtain ⟨hstop, rest, hrest⟩ := puts_encode source 0 units _ _ (Nat.zero_le _) hok
  rw [encodeBytes_of_ascii h, List.take_zero, List.nil_append] at hrest
  rw [encodeBytes_of_ascii h, Nat.zero_add, Nat.zero_add] at hstop
  rw [Nat.zero_add, hstop] at hok
  -- There are as many bytes as code units, which leaves the last byte of the block.
  obtain ⟨last, hset, -, htake, -⟩ :=
    (writes_setNumber 1 0).returns (utf8Encode source).length middle trivial (by omega)
  obtain ⟨⟨⟩, final, hzero, hreturn⟩ := ok_of_bind hset
  cases hreturn
  refine ⟨last, ?_, ?_⟩
  · unfold StorageStrings.allocate
    rw [bind_of_ok hok]
    exact bind_of_ok hzero
  · rw [htake, hrest]
    exact List.take_left

/-- Nothing is allocated for another string. -/
theorem ascii_of_allocate {source : DartString} {units after : Uint8List} {length : ℕ}
    (hlen : units.length = source.length + 1)
    (hok : StorageStrings.allocate source units = .ok length after) : Unicode.Ascii source := by
  apply ascii_of_encodedLength
  obtain ⟨stop, middle, hencode, hset⟩ := ok_of_bind hok
  obtain ⟨⟨⟩, last, hzero, -⟩ := ok_of_bind hset
  have hvalid : Encodable source ∧ 0 + encodedLength source ≤ units.length := by
    by_contra hinvalid
    obtain ⟨e, buffer, herror⟩ := (writes_encode source).throws 0 units (Nat.zero_le _) hinvalid
    cases hencode.symm.trans herror
  obtain ⟨buffer, hreturns, hbuf, -⟩ := (writes_encode source).returns 0 units hvalid.1 hvalid.2
  obtain ⟨rfl, rfl⟩ := EStateM.Result.ok.inj (hencode.symm.trans hreturns)
  -- The zero is the last byte of the block.
  unfold setUint8 setNumber setBytes at hzero
  split at hzero
  · next hroom =>
    have hone := length_numberBytes 1 0
    unfold numberBytes at hone
    omega
  · cases hzero

/-! ## What the handlers read -/

namespace Creation

section Block

variable {creation : Creation} {block : NativeBlock creation.text} {units : Uint8List}

/-- A function that returns a filled structure, with all of its arguments. -/
theorem marshalled_iff_of_made
    (hmade : ∀ heap address, creation.create block.address heap address block.units =
      .ok (createRequest creation.layout (creation.arguments block.address) heap address) units)
    (hunits : units.take (utf8Encode creation.text).length = utf8Encode creation.text)
    (htask : ∀ address, creation.taskArguments block.address address =
      [(TaskField.input, (address : ℤ))]) (hlayout : HasTask creation.layout)
    (hfills : Fills creation.layout ((creation.arguments block.address).map Prod.fst))
    (hcovers : Covers creation.layout ((creation.arguments block.address).map Prod.fst)) :
    creation.Marshalled block ↔ ∀ field ∈ creation.arguments block.address,
      field.1.Holds field.2 := by
  constructor
  -- Any structure shows that the arguments fit their fields.
  · intro hmarshalled
    obtain ⟨message, after, hcreate, -, hcarries⟩ := hmarshalled (fun _ => 0) 0 (by decide)
    rw [hmade] at hcreate
    cases hcreate
    have hself := hcarries _ (Delivered.self _)
    rw [htask] at hself
    exact (carries_createRequest_iff hlayout hfills hcovers (by decide) (Delivered.self _)).mp hself
  · intro hholds heap address haddr
    refine ⟨_, units, hmade heap address, hunits, fun delivered h => ?_⟩
    rw [htask]
    exact (carries_createRequest_iff hlayout hfills hcovers haddr h).mpr hholds

/-- A function with a string returns if and only if the string is ASCII. -/
theorem marshalled_iff_of_text {made : Heap → ℕ → ℕ → Message}
    (hcreate : ∀ heap address, creation.create block.address heap address = do
      let length ← StorageStrings.allocate creation.text
      return made heap address length)
    (hmade : ∀ heap address, made heap address (utf8Encode creation.text).length =
      createRequest creation.layout (creation.arguments block.address) heap address)
    (htask : ∀ address, creation.taskArguments block.address address =
      [(TaskField.input, (address : ℤ))]) (hlayout : HasTask creation.layout)
    (hfills : Fills creation.layout ((creation.arguments block.address).map Prod.fst))
    (hcovers : Covers creation.layout ((creation.arguments block.address).map Prod.fst)) :
    creation.Marshalled block ↔ Unicode.Ascii creation.text ∧
      ∀ field ∈ creation.arguments block.address, field.1.Holds field.2 := by
  by_cases hascii : Unicode.Ascii creation.text
  · rw [and_iff_right hascii]
    obtain ⟨after, halloc, hbytes⟩ := allocate_of_ascii hascii block.length_units
    refine marshalled_iff_of_made (fun heap address => ?_) hbytes htask hlayout hfills hcovers
    rw [hcreate, bind_of_ok halloc, hmade]
    rfl
  · refine iff_of_false (fun hmarshalled => ?_) fun h => hascii h.1
    obtain ⟨message, after, hok, -⟩ := hmarshalled (fun _ => 0) 0 (by decide)
    rw [hcreate] at hok
    obtain ⟨length, middle, halloc, -⟩ := ok_of_bind hok
    exact hascii (ascii_of_allocate block.length_units halloc)

end Block

/-- A task of its own is all of its structure. -/
theorem executorMessageSize_le :
    executorMessageSize ≤ structureSize RequestField.fieldType [.task] := by
  decide

theorem taskField_aligned (field : TaskField) : 0 < field.type.alignment := by
  cases field <;> decide

/-- The task of a string is no request, but it carries the string. -/
theorem marshalled_string (value : DartString) (block : NativeBlock value) :
    (string value).Marshalled block ↔ Unicode.Ascii value := by
  constructor
  · intro hmarshalled
    obtain ⟨message, after, hok, -⟩ := hmarshalled (fun _ => 0) 0 (by decide)
    obtain ⟨length, middle, halloc, -⟩ := ok_of_bind hok
    exact ascii_of_allocate block.length_units halloc
  · intro hascii heap address _
    obtain ⟨after, halloc, hbytes⟩ := allocate_of_ascii hascii block.length_units
    refine ⟨_, after, bind_of_ok halloc, hbytes, fun delivered h => ⟨?_, ?_, ?_⟩⟩
    · exact ⟨le_rfl, Nat.add_le_add_left executorMessageSize_le address⟩
    · intro field hmem
      have hlen := block.length_units
      have haddr := block.address_le
      have hascii' : (utf8Encode value).length = value.length :=
        (Unicode.length_utf8Encode_eq_iff value).mpr hascii
      obtain ⟨hbehind, hsize, hnonneg, hlt⟩ : inputOffset ≤
        fieldOffset TaskField.type executorTask field.1 ∧
          field.1.type.size = 8 ∧ 0 ≤ field.2 ∧ field.2 < 2 ^ 64 := by
        rcases List.mem_pair.mp hmem with rfl | rfl
        · exact ⟨show inputOffset ≤ fieldOffset TaskField.type executorTask .input by decide, rfl,
            by dsimp only; omega, by dsimp only; omega⟩
        · exact ⟨show inputOffset ≤
            fieldOffset TaskField.type executorTask .inputSize by decide, rfl,
            by dsimp only; omega, by dsimp only; omega⟩
      -- The executor writes in front of both fields.
      have hkept : readField TaskField.type executorTask delivered address field.1 =
          readField TaskField.type executorTask (fill TaskField.type executorTask heap address
            [(.input, block.address), (.inputSize, (utf8Encode value).length)]) address field.1 :=
        readLE_congr fun a hlow _ => h a (.inr (by dsimp only; omega))
      have hval :
        (readField TaskField.type executorTask (fill TaskField.type executorTask heap address
          [(.input, block.address), (.inputSize, (utf8Encode value).length)]) address field.1 : ℤ) =
          field.2 % (256 ^ field.1.type.size : ℕ) :=
        readField_fill heap address taskField_aligned (by simp [executorTask]) (by simp) hmem
      rw [hsize, Int.emod_eq_of_lt hnonneg (by exact_mod_cast hlt)] at hval
      exact (congrArg Int.ofNat hkept).trans hval
    · intro field hfield hne
      exact absurd (List.mem_singleton.mp hfield) hne

/-- The task of a pair of ids lies in front of it. -/
theorem not_marshalled_indexIdentifier (spaceId indexId : ℤ) (block : NativeBlock []) :
    ¬(indexIdentifier spaceId indexId).Marshalled block := by
  intro hmarshalled
  obtain ⟨message, after, hok, -, hcarries⟩ := hmarshalled (fun _ => 0) 4096 (by decide)
  cases hok
  have hinside := (hcarries _ (Delivered.self _)).inside.1
  exact absurd hinside (of_decide_eq_true rfl)

/-- The operations of an update by index are what was in the structure before. -/
theorem not_marshalled_indexUpdate (spaceId indexId key keySize operations operationsSize : ℤ)
    (block : NativeBlock []) :
    ¬(indexUpdate spaceId indexId key keySize operations operationsSize).Marshalled block := by
  intro hmarshalled
  -- Other operations than those of the arguments.
  let heap := writeField RequestField.fieldType indexUpdateRequestLayout (fun _ => 0) 0 .operations
    (operations + 1)
  obtain ⟨message, after, hok, -, hcarries⟩ := hmarshalled heap 0 (by decide)
  cases hok
  let message := createIndexUpdate spaceId indexId key keySize operations operationsSize heap 0
  have hself : Delivered message message.heap := Delivered.self message
  have hinput : inputOf message.heap message.task = 0 :=
    inputOf_createRequest (by decide) (by decide) hself
  have hleft :
    readField RequestField.fieldType indexUpdateRequestLayout message.heap 0 .operations =
      readField RequestField.fieldType indexUpdateRequestLayout heap 0 .operations :=
    readField_createRequest_of_notMem (by decide) (of_decide_eq_true rfl) (by decide) (by decide)
      (of_decide_eq_true rfl) hself
  have hbefore :
    (readField RequestField.fieldType indexUpdateRequestLayout heap 0 .operations : ℤ) =
      (operations + 1) % (256 ^ 8 : ℕ) := readField_writeField _ _ _ _
  have hread : (RequestField.operations, (readField RequestField.fieldType indexUpdateRequestLayout
      message.heap (inputOf message.heap message.task) .operations : ℤ)) ∈
      [(.spaceId, spaceId), (.indexId, indexId), (.key, key), (.keySize, keySize),
        (.operations, operations), (.operationsSize, operationsSize)] :=
    (hcarries _ hself).request .operations
      (show RequestField.operations ∈ indexUpdateRequestLayout by decide) (by decide)
  rw [hinput, hleft, hbefore] at hread
  have hsame : (operations + 1) % (256 ^ 8 : ℕ) = operations := by simpa using hread
  omega

/-- The handler reads the arguments, whatever was in the structure, if and only if the function sets
all of it, the string is ASCII, and every argument has the type of its field. -/
theorem marshalled_iff (creation : Creation) (block : NativeBlock creation.text) :
    creation.Marshalled block ↔ creation.isWhole = true ∧ Unicode.Ascii creation.text ∧
      ∀ field ∈ creation.arguments block.address, field.1.Holds field.2 := by
  have hempty : Unicode.Ascii [] := List.forall_mem_nil _
  cases creation with
  | message =>
    apply iff_of_true
    · intro heap address _
      refine ⟨_, block.units, rfl, rfl, fun delivered h => ⟨?_, ?_, ?_⟩⟩
      · exact ⟨le_rfl, Nat.add_le_add_left executorMessageSize_le address⟩
      · exact List.forall_mem_nil _
      · exact fun field hfield hne => absurd (List.mem_singleton.mp hfield) hne
    · exact ⟨rfl, hempty, List.forall_mem_nil _⟩
  | string value =>
    apply (marshalled_string value block).trans
    exact ⟨fun h => ⟨rfl, h, List.forall_mem_nil _⟩, fun h => h.2.1⟩
  | indexIdentifier spaceId indexId =>
    exact iff_of_false (not_marshalled_indexIdentifier spaceId indexId block) fun h =>
      Bool.noConfusion h.1
  | indexUpdate spaceId indexId key keySize operations operationsSize =>
    exact iff_of_false
      (not_marshalled_indexUpdate spaceId indexId key keySize operations operationsSize block)
      fun h => Bool.noConfusion h.1
  | indexIdByName | call | evaluate =>
    apply Iff.trans _ (and_iff_right rfl).symm
    exact marshalled_iff_of_text (fun _ _ => rfl) (fun _ _ => rfl) (fun _ => rfl)
      (by dsimp only [layout]; decide) (of_decide_eq_true rfl) (of_decide_eq_true rfl)
  | space | spaceCount | spaceSelect | spaceUpdate | spaceUpsert | spaceIterator | index
  | indexCount
  | indexIterator | indexSelect =>
    apply Iff.trans _ (Iff.trans (and_iff_right hempty).symm (and_iff_right rfl).symm)
    exact marshalled_iff_of_made (fun _ _ => rfl) rfl (fun _ => rfl)
      (by dsimp only [layout]; decide) (of_decide_eq_true rfl) (of_decide_eq_true rfl)

/-- An update by index, and a pair of ids, with arguments that all have the types of their
fields. -/
theorem not_marshalled :
    ¬(indexUpdate 512 0 4096 2 8192 3).Marshalled ⟨64, [0], rfl, by decide⟩ ∧
      ¬(indexIdentifier 512 0).Marshalled ⟨64, [0], rfl, by decide⟩ :=
  ⟨not_marshalled_indexUpdate 512 0 4096 2 8192 3 _, not_marshalled_indexIdentifier 512 0 _⟩

end Creation

end FengShui.Storage
