import FengShui.Lib.Bytes

/-!
# Integers and headers of MessagePack

An integer has up to nine formats, each with its range; `encodeInt` takes the one that MessagePack
writers take. A string has a header with its length in bytes, in one of four formats. An array or a
map has one with the number of its elements, in one of three.
-/

namespace MessagePack

open ByteString

/-! ## Integers -/

/-- The formats of an integer. -/
inductive IntFormat where
  | positiveFixint
  | uint8
  | uint16
  | uint32
  | uint64
  | negativeFixint
  | int8
  | int16
  | int32
  | int64
  deriving DecidableEq, Repr

namespace IntFormat

/-- The least and the greatest number of a format. -/
def range : IntFormat → ℤ × ℤ
  | positiveFixint => (0, 0x7f)
  | uint8 => (0, 0xff)
  | uint16 => (0, 0xffff)
  | uint32 => (0, 0xffffffff)
  | uint64 => (0, 0xffffffffffffffff)
  | negativeFixint => (-0x20, -1)
  | int8 => (-0x80, 0x7f)
  | int16 => (-0x8000, 0x7fff)
  | int32 => (-0x80000000, 0x7fffffff)
  | int64 => (-0x8000000000000000, 0x7fffffffffffffff)

/-- The number has the format. -/
def Holds (format : IntFormat) (value : ℤ) : Prop := format.range.1 ≤ value ∧ value ≤ format.range.2

/-- The first byte, which the fixints do not have apart from the number. -/
def head : IntFormat → List UInt8
  | positiveFixint | negativeFixint => []
  | uint8 => [0xcc]
  | uint16 => [0xcd]
  | uint32 => [0xce]
  | uint64 => [0xcf]
  | int8 => [0xd0]
  | int16 => [0xd1]
  | int32 => [0xd2]
  | int64 => [0xd3]

/-- The bytes of the number itself. -/
def width : IntFormat → ℕ
  | positiveFixint | negativeFixint | uint8 | int8 => 1
  | uint16 | int16 => 2
  | uint32 | int32 => 4
  | uint64 | int64 => 8

/-- The number in a format, in two's complement. -/
def encode (format : IntFormat) (value : ℤ) : List UInt8 :=
  format.head ++ toBytesBE format.width (value % 256 ^ format.width).toNat

/-- An encoding is its mark and its payload. -/
theorem length_encode (format : IntFormat) (value : ℤ) :
    (format.encode value).length = format.head.length + format.width := by
  rw [encode, List.length_append, length_toBytesBE]

end IntFormat

/-- The format that a number is written in: unsigned from 0 on, and the first that holds it. -/
def formatOf (value : ℤ) : IntFormat :=
  if value ≥ 0 then
    if value ≤ 0x7f then .positiveFixint
    else if value ≤ 0xff then .uint8
    else if value ≤ 0xffff then .uint16
    else if value ≤ 0xffffffff then .uint32
    else .uint64
  else if value ≥ -0x20 then .negativeFixint
  else if value ≥ -0x80 then .int8
  else if value ≥ -0x8000 then .int16
  else if value ≥ -0x80000000 then .int32
  else .int64

/-- The smallest format has room for the value. -/
theorem holds_formatOf {value : ℤ} (hlow : -0x8000000000000000 ≤ value)
    (hhigh : value ≤ 0xffffffffffffffff) : (formatOf value).Holds value := by
  unfold formatOf
  split_ifs <;> constructor <;> simp only [IntFormat.range] <;> omega

/-- The shortest encoding of a number. -/
def encodeInt (value : ℤ) : List UInt8 := (formatOf value).encode value

/-! ## Strings -/

/-- The headers of a string of this many bytes. -/
def stringHeaders (length : ℕ) : List (List UInt8) :=
  (if length < 0x20 then [toBytesBE 1 (0xa0 ||| length)] else []) ++
    (if length < 256 ^ 1 then [0xd9 :: toBytesBE 1 length] else []) ++
    (if length < 256 ^ 2 then [0xda :: toBytesBE 2 length] else []) ++
    (if length < 256 ^ 4 then [0xdb :: toBytesBE 4 length] else [])

/-- The length that the header of a string gives. -/
def stringLength : List UInt8 → ℕ
  | [] => 0
  | head :: rest =>
    if head = 0xd9 then ofBytesBE (rest.take 1)
    else if head = 0xda then ofBytesBE (rest.take 2)
    else if head = 0xdb then ofBytesBE (rest.take 4)
    else head.toNat % 0x20

/-- Up to 31 bytes the mark has the length. -/
theorem stringLength_short : ∀ length < 0x20,
    stringLength (toBytesBE 1 (0xa0 ||| length)) = length := by
  decide

/-- A mark with the length is read by itself. -/
theorem stringLength_singleton (head : UInt8) (rest : List UInt8)
    (h : head ≠ 0xd9 ∧ head ≠ 0xda ∧ head ≠ 0xdb) :
    stringLength (head :: rest) = stringLength [head] := by
  simp only [stringLength, if_neg h.1, if_neg h.2.1, if_neg h.2.2]

/-- A number is read from the front of what it stands before. -/
theorem ofBytesBE_take {width length : ℕ} (h : length < 256 ^ width) (rest : List UInt8) :
    ofBytesBE ((toBytesBE width length ++ rest).take width) = length := by
  rw [List.take_left' (length_toBytesBE width length), ofBytesBE_toBytesBE_of_lt h]

/-- A header says its length, whatever follows it. -/
theorem stringLength_append {length : ℕ} {header : List UInt8} (h : header ∈ stringHeaders length)
    (rest : List UInt8) : stringLength (header ++ rest) = length := by
  simp only [stringHeaders, List.mem_append, List.mem_ite_nil_right, List.mem_singleton] at h
  rcases h with ((⟨hlt, rfl⟩ | ⟨hlt, rfl⟩) | ⟨hlt, rfl⟩) | ⟨hlt, rfl⟩
  · have hhead : ∀ length < 0x20, ∃ head : UInt8, toBytesBE 1 (0xa0 ||| length) = [head] ∧
        head ≠ 0xd9 ∧ head ≠ 0xda ∧ head ≠ 0xdb := fun length hlen =>
      ⟨_, rfl, by decide +revert⟩
    obtain ⟨head, heq, hne⟩ := hhead length hlt
    have hshort := stringLength_short length hlt
    rw [heq] at hshort ⊢
    exact (stringLength_singleton head rest hne).trans hshort
  · exact ofBytesBE_take hlt rest
  · exact ofBytesBE_take hlt rest
  · exact ofBytesBE_take hlt rest

/-! ## Arrays and maps -/

/-- The number of elements that a header announces: from `short` on in the first byte itself, or in
two or four bytes behind a mark. Nothing else announces any. -/
def containerLength (short medium long : ℕ) : List UInt8 → ℕ
  | [] => 0
  | head :: rest =>
    if head.toNat = medium then ofBytesBE (rest.take 2)
    else if head.toNat = long then ofBytesBE (rest.take 4)
    else if short ≤ head.toNat ∧ head.toNat < short + 16 then head.toNat - short
    else 0

def arrayLength : List UInt8 → ℕ := containerLength 0x90 0xdc 0xdd

def mapLength : List UInt8 → ℕ := containerLength 0x80 0xde 0xdf

section Container

variable {short medium long : ℕ} {head : UInt8}

/-- Up to 15 elements the mark has the number. -/
theorem containerLength_short (hmedium : head.toNat ≠ medium) (hlong : head.toNat ≠ long)
    (hlow : short ≤ head.toNat) (hhigh : head.toNat < short + 16) (rest : List UInt8) :
    containerLength short medium long (head :: rest) = head.toNat - short := by
  rw [containerLength, if_neg hmedium, if_neg hlong, if_pos ⟨hlow, hhigh⟩]

/-- Two bytes behind the mark. -/
theorem containerLength_medium (hmedium : head.toNat = medium) (rest : List UInt8) :
    containerLength short medium long (head :: rest) = ofBytesBE (rest.take 2) := if_pos hmedium

/-- Four bytes behind the mark. -/
theorem containerLength_long (hne : medium ≠ long) (hlong : head.toNat = long) (rest : List UInt8) :
    containerLength short medium long (head :: rest) = ofBytesBE (rest.take 4) := by
  rw [containerLength, if_neg (hlong.trans_ne hne.symm), if_pos hlong]

end Container

end MessagePack
