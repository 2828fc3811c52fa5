import FengShui.Core.Dart
import FengShui.Lib.Bytes

/-!
# Tuples (`core/tuples.dart`)

The sizes that are computed for values, and the functions that write and read them. `ByteData` and
the `Uint8List` that is passed with it are two views of one memory: the state of `Writing`. An
offset is passed in and the one behind the value returned.
-/

namespace FengShui

open ByteString

/-- A write: it may throw, and the memory keeps what it did until then. -/
abbrev Writing := EStateM DartException Uint8List

/-- A value that a tuple is made of. A double is its 64 bits. -/
inductive TupleValue where
  | null
  | bool (value : Bool)
  | int (value : Int64)
  | double (bits : UInt64)
  | string (value : DartString)
  | binary (value : Uint8List)
  | list (items : List TupleValue)
  | map (entries : List (TupleValue × TupleValue))

namespace TupleErrors

def maxStringLength : DartString := literal "Max string length is 4294967295"

def maxBinaryLength : DartString := literal "Max binary length is 4294967295"

def maxListLength : DartString := literal "Max list length is 4294967295"

def maxMapLength : DartString := literal "Max map length is 4294967295"

end TupleErrors

/-! ### Sizes -/

def tupleSizeOfNull : ℕ := 1

def tupleSizeOfBool : ℕ := 1

def tupleSizeOfDouble : ℕ := 9

def tupleSizeOfInt (number : ℤ) : ℕ :=
  if number ≥ -0x20 then 1
  else if number ≥ -127 ∧ number ≤ 127 then 2
  else if number ≥ -327678 ∧ number ≤ 0xFFFF then 3
  else if number ≥ -2147483648 ∧ number ≤ 0xFFFFFFFF then 5
  else 9

def tupleSizeOfString (length : ℕ) : ℕ :=
  if length ≤ 0x1F then 1 + length
  else if length ≤ 0xFFFF then 2 + length
  else if length ≤ 0xFFFFFFFF then 3 + length
  else 5 + length

def tupleSizeOfBinary (length : ℕ) : ℕ :=
  if length ≤ 0xFF then 2 + length
  else if length ≤ 0xFFFF then 3 + length
  else 5 + length

def tupleSizeOfList (length : ℕ) : ℕ :=
  if length ≤ 0xF then 1 else if length ≤ 0xFFFF then 3 else 5

def tupleSizeOfMap (length : ℕ) : ℕ :=
  if length ≤ 0xF then 1 else if length ≤ 0xFFFF then 3 else 5

mutual

def tupleDynamicSize : TupleValue → ℕ
  | .null => tupleSizeOfNull
  | .bool _ => tupleSizeOfBool
  | .int value => tupleSizeOfInt value.toInt
  | .double _ => tupleSizeOfDouble
  | .string value => tupleSizeOfString value.length
  | .binary value => tupleSizeOfBinary value.length
  | .list items => tupleSizeOfList items.length + tupleSizeOfItems items
  | .map entries => tupleSizeOfMap entries.length + tupleSizeOfEntries entries

/-- The loop of `computeTupleSize` of an `Iterable`. -/
def tupleSizeOfItems : List TupleValue → ℕ
  | [] => 0
  | item :: items => tupleDynamicSize item + tupleSizeOfItems items

/-- The loop of `computeTupleSize` of a `Map`. -/
def tupleSizeOfEntries : List (TupleValue × TupleValue) → ℕ
  | [] => 0
  | (key, value) :: entries =>
    tupleDynamicSize key + tupleDynamicSize value + tupleSizeOfEntries entries

end

/-! ### Writes -/

/-- Bytes at an offset, with the range check of the library. -/
def setBytes (offset : ℕ) (bytes : Uint8List) : Writing Unit := fun buffer =>
  if offset + bytes.length ≤ buffer.length then
    .ok () (buffer.take offset ++ bytes ++ buffer.drop (offset + bytes.length))
  else .error .rangeError buffer

/-- The setters of `ByteData` for a number of this many bytes, which keep its low bits. -/
def setNumber (width offset : ℕ) (value : ℤ) : Writing Unit :=
  setBytes offset (toBytesBE width (value % 256 ^ width).toNat)

def setUint8 (offset : ℕ) (value : ℤ) : Writing Unit := setNumber 1 offset value

def setUint16 (offset : ℕ) (value : ℤ) : Writing Unit := setNumber 2 offset value

def setUint32 (offset : ℕ) (value : ℤ) : Writing Unit := setNumber 4 offset value

def setUint64 (offset : ℕ) (value : ℤ) : Writing Unit := setNumber 8 offset value

/-- `String.encode` of `core/extensions.dart`; it returns the offset behind the last byte. A lead
surrogate takes the next code unit, whatever that is. -/
def encode : DartString → ℕ → Writing ℕ
  | [], offset => return offset
  | codeUnit :: rest, offset =>
    let codeUnit := codeUnit.toNat
    if codeUnit ≤ 0x7f then do
      setUint8 offset codeUnit
      encode rest (offset + 1)
    else if codeUnit &&& 0xFC00 = 0xD800 then
      match rest with
      -- `codeUnitAt` behind the end.
      | [] => throw .rangeError
      | nextCodeUnit :: rest => do
        let rune := (0x10000 + ((codeUnit &&& 0x3FF) <<< 10)) ||| (nextCodeUnit.toNat &&& 0x3FF)
        setUint8 offset (0xF0 ||| (rune >>> 18) : ℕ)
        setUint8 (offset + 1) (0x80 ||| ((rune >>> 12) &&& 0x3f) : ℕ)
        setUint8 (offset + 2) (0x80 ||| ((rune >>> 6) &&& 0x3f) : ℕ)
        setUint8 (offset + 3) (0x80 ||| (rune &&& 0x3f) : ℕ)
        encode rest (offset + 4)
    else if codeUnit ≤ 0x7ff then do
      setUint8 offset (0xC0 ||| (codeUnit >>> 6) : ℕ)
      setUint8 (offset + 1) (0x80 ||| (codeUnit &&& 0x3f) : ℕ)
      encode rest (offset + 2)
    else do
      setUint8 offset (0xE0 ||| (codeUnit >>> 12) : ℕ)
      setUint8 (offset + 1) (0x80 ||| ((codeUnit >>> 6) &&& 0x3f) : ℕ)
      setUint8 (offset + 2) (0x80 ||| (codeUnit &&& 0x3f) : ℕ)
      encode rest (offset + 3)

def tupleWriteNull (offset : ℕ) : Writing ℕ := do
  setUint8 offset 0xc0
  return offset + 1

def tupleWriteBool (value : Bool) (offset : ℕ) : Writing ℕ := do
  setUint8 offset (if value then 0xc3 else 0xc2)
  return offset + 1

/-- The end of `tupleWriteInt` for numbers from 256 on, which 128 to 255 run into as well. -/
def tupleWriteLarge (value : ℤ) (offset : ℕ) : Writing ℕ :=
  if value ≤ 0xFFFF then do
    setUint8 offset 0xcd
    setUint16 (offset + 1) value
    return offset + 1 + 2
  else if value ≤ 0xFFFFFFFF then do
    setUint8 offset 0xce
    setUint32 (offset + 1) value
    return offset + 1 + 4
  else do
    setUint8 offset 0xcf
    setUint64 (offset + 1) value
    return offset + 1 + 8

def tupleWriteInt (value : ℤ) (offset : ℕ) : Writing ℕ :=
  if value ≥ 0 then
    if value ≤ 0x7f then do
      setUint8 offset value
      return offset + 1
    else if value ≤ 0xFF then do
      -- There is no `return` here.
      setUint8 offset 0xcc
      setUint8 (offset + 1) value
      tupleWriteLarge value (offset + 1 + 1)
    else tupleWriteLarge value offset
  else if value ≥ -0x20 then do
    setUint8 offset value
    return offset + 1
  else if value ≥ -128 then do
    setUint8 offset 0xd0
    setUint8 (offset + 1) value
    return offset + 1 + 1
  else if value ≥ -32768 then do
    setUint8 offset 0xd1
    setUint16 (offset + 1) value
    return offset + 1 + 2
  else if value ≥ -2147483648 then do
    setUint8 offset 0xd2
    setUint32 (offset + 1) value
    return offset + 1 + 4
  else do
    setUint8 offset 0xd3
    setUint64 (offset + 1) value
    return offset + 1 + 8

def tupleWriteDouble (bits : UInt64) (offset : ℕ) : Writing ℕ := do
  setUint8 offset 0xcb
  setUint64 (offset + 1) bits.toNat
  return offset + 1 + 8

/-- The bytes of a string; the offset moves by its code units. -/
def tupleWriteUnits (value : DartString) (offset : ℕ) : Writing ℕ := do
  let _ ← encode value offset
  return offset + value.length

def tupleWriteString (value : DartString) (offset : ℕ) : Writing ℕ :=
  let length := value.length
  if length ≤ 0x1F then do
    setUint8 offset (0xA0 ||| length : ℕ)
    tupleWriteUnits value (offset + 1)
  else if length ≤ 0xFF then do
    setUint8 offset 0xd9
    setUint8 (offset + 1) length
    tupleWriteUnits value (offset + 1 + 1)
  else if length ≤ 0xFFFF then do
    setUint8 offset 0xda
    setUint16 (offset + 1) length
    tupleWriteUnits value (offset + 1 + 2)
  else if length ≤ 0xFFFFFFFF then do
    setUint8 offset 0xdb
    setUint32 (offset + 1) length
    tupleWriteUnits value (offset + 1 + 4)
  else throw (.argumentError TupleErrors.maxStringLength)

/-- `buffer.setRange(offset, offset + length, value)`. -/
def tupleWriteRange (value : Uint8List) (offset : ℕ) : Writing ℕ := do
  setBytes offset value
  return offset + value.length

def tupleWriteBinary (value : Uint8List) (offset : ℕ) : Writing ℕ :=
  let length := value.length
  if length ≤ 0xFF then do
    setUint8 offset 0xc4
    setUint8 (offset + 1) length
    tupleWriteRange value (offset + 1 + 1)
  else if length ≤ 0xFFFF then do
    setUint8 offset 0xc5
    setUint16 (offset + 1) length
    tupleWriteRange value (offset + 1 + 2)
  else if length ≤ 0xFFFFFFFF then do
    setUint8 offset 0xc6
    setUint32 (offset + 1) length
    tupleWriteRange value (offset + 1 + 4)
  else throw (.argumentError TupleErrors.maxBinaryLength)

/-- The header of a list or a map: its length in the first byte, or behind it. -/
def tupleWriteHeader (short medium long : ℕ) (message : DartString) (length offset : ℕ) :
    Writing ℕ :=
  if length ≤ 0xF then do
    setUint8 offset (short ||| length : ℕ)
    return offset + 1
  else if length ≤ 0xFFFF then do
    setUint8 offset medium
    setUint16 (offset + 1) length
    return offset + 1 + 2
  else if length ≤ 0xFFFFFFFF then do
    setUint8 offset long
    setUint32 (offset + 1) length
    return offset + 1 + 4
  else throw (.argumentError message)

def tupleWriteList : ℕ → ℕ → Writing ℕ :=
  tupleWriteHeader 0x90 0xdc 0xdd TupleErrors.maxListLength

def tupleWriteMap : ℕ → ℕ → Writing ℕ :=
  tupleWriteHeader 0x80 0xde 0xdf TupleErrors.maxMapLength

mutual

def tupleDynamicSerialize : TupleValue → ℕ → Writing ℕ
  | .null, offset => tupleWriteNull offset
  | .bool value, offset => tupleWriteBool value offset
  | .int value, offset => tupleWriteInt value.toInt offset
  | .double bits, offset => tupleWriteDouble bits offset
  | .string value, offset => tupleWriteString value offset
  | .binary value, offset => tupleWriteBinary value offset
  | .list items, offset => do
    let offset ← tupleWriteList items.length offset
    serializeItems items offset
  | .map entries, offset => do
    let offset ← tupleWriteMap entries.length offset
    serializeEntries entries offset

/-- The loop of `serializeToTuple` of an `Iterable`. -/
def serializeItems : List TupleValue → ℕ → Writing ℕ
  | [], offset => return offset
  | item :: items, offset => do
    let offset ← tupleDynamicSerialize item offset
    serializeItems items offset

/-- The loop of `serializeToTuple` of a `Map`. -/
def serializeEntries : List (TupleValue × TupleValue) → ℕ → Writing ℕ
  | [], offset => return offset
  | (key, value) :: entries, offset => do
    let offset ← tupleDynamicSerialize key offset
    let offset ← tupleDynamicSerialize value offset
    serializeEntries entries offset

end

/-! ### Reads -/

/-- The getters of `ByteData` for an unsigned number of this many bytes, with their range check. -/
def getNumber (width : ℕ) (buffer : Uint8List) (offset : ℕ) : Except DartException ℕ :=
  (sublist buffer offset (offset + width : ℕ)).map ofBytesBE

/-- The number in two's complement. -/
def toSigned (width number : ℕ) : ℤ :=
  if 2 * number < 256 ^ width then number else number - (256 ^ width : ℕ)

def tupleReadBool (buffer : Uint8List) (offset : ℕ) : Except DartException (Option Bool × ℕ) := do
  let value ← getNumber 1 buffer offset
  if value = 0xc2 then return (some false, offset + 1)
  else if value = 0xc3 then return (some true, offset + 1)
  else if value = 0xc0 then return (none, offset + 1)
  else throw .formatException

/-- A number behind the header, as the signed 64-bit integer that Dart keeps it in. -/
def readUnsigned (width : ℕ) (buffer : Uint8List) (offset : ℕ) :
    Except DartException (Option Int64 × ℕ) := do
  let number ← getNumber width buffer (offset + 1)
  return (some (Int64.ofInt number), offset + 1 + width)

def readSigned (width : ℕ) (buffer : Uint8List) (offset : ℕ) :
    Except DartException (Option Int64 × ℕ) := do
  let number ← getNumber width buffer (offset + 1)
  return (some (Int64.ofInt (toSigned width number)), offset + 1 + width)

def tupleReadInt (buffer : Uint8List) (offset : ℕ) : Except DartException (Option Int64 × ℕ) := do
  let bytes ← getNumber 1 buffer offset
  if bytes ≤ 0x7f ∨ bytes ≥ 0xe0 then return (some (Int64.ofInt (toSigned 1 bytes)), offset + 1)
  else if bytes = 0xcc then readUnsigned 1 buffer offset
  else if bytes = 0xcd then readUnsigned 2 buffer offset
  else if bytes = 0xce then readUnsigned 4 buffer offset
  else if bytes = 0xcf then readUnsigned 8 buffer offset
  else if bytes = 0xd0 then readSigned 1 buffer offset
  else if bytes = 0xd1 then readSigned 2 buffer offset
  else if bytes = 0xd2 then readSigned 4 buffer offset
  else if bytes = 0xd3 then readSigned 8 buffer offset
  else if bytes = 0xc0 then return (none, offset + 1)
  else throw .formatException

/-- The bits of the double with the value of a 32-bit float. -/
def widenFloat32 (bits : ℕ) : UInt64 :=
  let sign := bits / 2 ^ 31 * 2 ^ 63
  let exponent := bits / 2 ^ 23 % 256
  let fraction := bits % 2 ^ 23
  if exponent = 255 then UInt64.ofNat (sign + 2047 * 2 ^ 52 + fraction * 2 ^ 29)
  else if exponent ≠ 0 then UInt64.ofNat (sign + (exponent + 896) * 2 ^ 52 + fraction * 2 ^ 29)
  else if fraction = 0 then UInt64.ofNat sign
  else
    -- A subnormal float is a normal double.
    let leading := Nat.log2 fraction
    UInt64.ofNat (sign + (leading + 874) * 2 ^ 52 + (fraction - 2 ^ leading) * 2 ^ (52 - leading))

def tupleReadDouble (buffer : Uint8List) (offset : ℕ) :
    Except DartException (Option UInt64 × ℕ) := do
  let bytes ← getNumber 1 buffer offset
  if bytes = 0xca then
    let number ← getNumber 4 buffer (offset + 1)
    return (some (widenFloat32 number), offset + 1 + 4)
  else if bytes = 0xcb then
    let number ← getNumber 8 buffer (offset + 1)
    return (some (UInt64.ofNat number), offset + 1 + 8)
  else if bytes = 0xc0 then return (none, offset + 1)
  else throw .formatException

/-- `asUint8List(offsetInBytes + offset, length)`, and the offset behind it. -/
def readView (length : ℕ) (buffer : Uint8List) (offset : ℕ) :
    Except DartException (Uint8List × ℕ) := do
  let view ← sublist buffer offset (offset + length : ℕ)
  return (view, offset + length)

/-- Bytes with their length of this many bytes behind the header. -/
def readSized (width : ℕ) (buffer : Uint8List) (offset : ℕ) :
    Except DartException (Uint8List × ℕ) := do
  let length ← getNumber width buffer (offset + 1)
  readView length buffer (offset + 1 + width)

/-- `_decoder.convert`. -/
def convert (read : Except DartException (Uint8List × ℕ)) :
    Except DartException (Option DartString × ℕ) := do
  let (view, offset) ← read
  let value ← utf8Decode view
  return (some value, offset)

def tupleReadString (buffer : Uint8List) (offset : ℕ) :
    Except DartException (Option DartString × ℕ) := do
  let byte ← getNumber 1 buffer offset
  if byte = 0xc0 then return (none, offset + 1)
  else if byte &&& 0xE0 = 0xA0 then convert (readView (byte &&& 0x1F) buffer (offset + 1))
  else if byte = 0xd9 then convert (readSized 1 buffer offset)
  else if byte = 0xda then convert (readSized 2 buffer offset)
  else if byte = 0xdb then convert (readSized 4 buffer offset)
  else throw .formatException

def tupleReadBinary (buffer : Uint8List) (offset : ℕ) : Except DartException (Uint8List × ℕ) := do
  let byte ← getNumber 1 buffer offset
  if byte = 0xc4 then readSized 1 buffer offset
  else if byte = 0xc0 then readView 0 buffer (offset + 1)
  else if byte = 0xc5 then readSized 2 buffer offset
  else if byte = 0xc6 then readSized 4 buffer offset
  else throw .formatException

/-- The header of a list or a map. A null gives the offset for the length, and 0 for the offset. -/
def tupleReadHeader (short medium long : ℕ) (buffer : Uint8List) (offset : ℕ) :
    Except DartException (ℕ × ℕ) := do
  let byte ← getNumber 1 buffer offset
  if byte &&& 0xF0 = short then return (byte &&& 0xF, offset + 1)
  else if byte = 0xc0 then return (offset + 1, 0)
  else if byte = medium then
    let length ← getNumber 2 buffer (offset + 1)
    return (length, offset + 1 + 2)
  else if byte = long then
    let length ← getNumber 4 buffer (offset + 1)
    return (length, offset + 1 + 4)
  else throw .formatException

def tupleReadList : Uint8List → ℕ → Except DartException (ℕ × ℕ) := tupleReadHeader 0x90 0xdc 0xdd

def tupleReadMap : Uint8List → ℕ → Except DartException (ℕ × ℕ) := tupleReadHeader 0x80 0xde 0xdf

end FengShui
