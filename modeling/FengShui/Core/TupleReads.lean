import FengShui.Core.TupleSize
import Mathlib.Logic.Function.Iterate

/-!
# Structural reads

A structural read takes the readers of the leaves in the order in which a value was written. Each
reader that returns has taken one token: a header and what its layout says.
-/

namespace FengShui

open ByteString

mutual

/-- A structural read: each leaf is read with the reader of the leaf that was written there. -/
def readLike : TupleValue → Uint8List → ℕ → Except DartException (TupleValue × ℕ)
  | .null, buffer, offset => do
    let (value, offset) ← tupleReadBool buffer offset
    return (value.elim .null .bool, offset)
  | .bool _, buffer, offset => do
    let (value, offset) ← tupleReadBool buffer offset
    return (value.elim .null .bool, offset)
  | .int _, buffer, offset => do
    let (value, offset) ← tupleReadInt buffer offset
    return (value.elim .null .int, offset)
  | .double _, buffer, offset => do
    let (value, offset) ← tupleReadDouble buffer offset
    return (value.elim .null .double, offset)
  | .string _, buffer, offset => do
    let (value, offset) ← tupleReadString buffer offset
    return (value.elim .null .string, offset)
  | .binary _, buffer, offset => do
    let (value, offset) ← tupleReadBinary buffer offset
    return (.binary value, offset)
  | .list items, buffer, offset => do
    let (length, offset) ← tupleReadList buffer offset
    let (values, offset) ← readItems items length buffer offset
    return (.list values, offset)
  | .map entries, buffer, offset => do
    let (length, offset) ← tupleReadMap buffer offset
    let (values, offset) ← readEntries entries length buffer offset
    return (.map values, offset)

/-- The announced number of elements, which is that of the elements that were written. -/
def readItems : List TupleValue → ℕ → Uint8List → ℕ →
    Except DartException (List TupleValue × ℕ)
  | [], length, _, offset => if length = 0 then return ([], offset) else throw .formatException
  | item :: items, length, buffer, offset => do
    if length = 0 then throw .formatException
    let (value, offset) ← readLike item buffer offset
    let (values, offset) ← readItems items (length - 1) buffer offset
    return (value :: values, offset)

def readEntries : List (TupleValue × TupleValue) → ℕ → Uint8List → ℕ →
    Except DartException (List (TupleValue × TupleValue) × ℕ)
  | [], length, _, offset => if length = 0 then return ([], offset) else throw .formatException
  | (key, value) :: entries, length, buffer, offset => do
    if length = 0 then throw .formatException
    let (key, offset) ← readLike key buffer offset
    let (value, offset) ← readLike value buffer offset
    let (values, offset) ← readEntries entries (length - 1) buffer offset
    return ((key, value) :: values, offset)

end

/-- The number in the bytes at an offset. -/
def numberAt (width : ℕ) (buffer : Uint8List) (offset : ℕ) : ℕ :=
  ofBytesBE ((buffer.drop offset).take width)

/-- How many bytes follow a header, and whether they are the length of what follows them. -/
def layout (header : ℕ) : ℕ × Bool :=
  if header &&& 0xE0 = 0xA0 then (header &&& 0x1F, false)
  else if header ∈ [0xcc, 0xd0] then (1, false)
  else if header ∈ [0xcd, 0xd1, 0xdc, 0xde] then (2, false)
  else if header ∈ [0xce, 0xd2, 0xca, 0xdd, 0xdf] then (4, false)
  else if header ∈ [0xcf, 0xd3, 0xcb] then (8, false)
  else if header ∈ [0xd9, 0xc4] then (1, true)
  else if header ∈ [0xda, 0xc5] then (2, true)
  else if header ∈ [0xdb, 0xc6] then (4, true)
  else (0, false)

/-- The offset behind the token at an offset. -/
def skip (buffer : Uint8List) (offset : ℕ) : ℕ :=
  let (width, sized) := layout (numberAt 1 buffer offset)
  offset + 1 + width + if sized then numberAt width buffer (offset + 1) else 0

section Skip

variable {buffer : Uint8List} {offset stop : ℕ}

/-- A value has a byte at least. -/
theorem lt_skip (buffer : Uint8List) (offset : ℕ) : offset < skip buffer offset := by
  unfold skip
  dsimp only
  omega

variable {width : ℕ} {value : Uint8List}

/-- Inside of the buffer the number is read. -/
theorem getNumber_eq (h : offset + width ≤ buffer.length) :
    getNumber width buffer offset = .ok (numberAt width buffer offset) := by
  unfold getNumber numberAt
  rw [sublist_ok buffer (Nat.le_add_right _ _) h, Nat.add_sub_cancel_left]
  rfl

/-- What is read is the number at the offset. -/
theorem getNumber_eq_ok {number : ℕ} (h : getNumber width buffer offset = .ok number) :
    number = numberAt width buffer offset := by
  by_cases hle : offset + width ≤ buffer.length
  · rw [getNumber_eq hle] at h
    exact (Except.ok.inj h).symm
  · unfold getNumber at h
    rw [sublist_error (.inr (.inr (by omega)))] at h
    cases h

/-- One byte is below 256. -/
theorem numberAt_one_lt (buffer : Uint8List) (offset : ℕ) : numberAt 1 buffer offset < 256 := by
  have hlt := ofBytesBE_lt ((buffer.drop offset).take 1)
  have hle : ((buffer.drop offset).take 1).length ≤ 1 := List.length_take_le _ _
  have hpow : 256 ^ ((buffer.drop offset).take 1).length ≤ 256 ^ 1 :=
    Nat.pow_le_pow_right (by decide) hle
  unfold numberAt
  omega

/-- A view ends behind its length. -/
theorem readView_eq_ok {length : ℕ} (h : readView length buffer offset = .ok (value, stop)) :
    stop = offset + length := by
  obtain ⟨view, -, h⟩ := except_bind_eq_ok.mp h
  cases h
  rfl

/-- A view behind its length ends behind both. -/
theorem readSized_eq_ok (h : readSized width buffer offset = .ok (value, stop)) :
    stop = offset + 1 + width + numberAt width buffer (offset + 1) := by
  obtain ⟨length, hlen, h⟩ := except_bind_eq_ok.mp h
  rw [← getNumber_eq_ok hlen]
  exact readView_eq_ok h

/-- A conversion keeps the offset. -/
theorem convert_eq_ok {read : Except DartException (Uint8List × ℕ)} {value : Option DartString}
    (h : convert read = .ok (value, stop)) : ∃ view, read = .ok (view, stop) := by
  obtain ⟨⟨view, offset⟩, hread, h⟩ := except_bind_eq_ok.mp h
  obtain ⟨string, -, h⟩ := except_bind_eq_ok.mp h
  cases h
  exact ⟨view, hread⟩

/-- A value of a fixed width. -/
theorem skip_fixed {header : ℕ} (hhdr : numberAt 1 buffer offset = header)
    (h : layout header = (width, false)) : skip buffer offset = offset + 1 + width := by
  unfold skip
  rw [hhdr, h]
  rfl

/-- A value behind its length. -/
theorem skip_sized {header : ℕ} (hhdr : numberAt 1 buffer offset = header)
    (h : layout header = (width, true)) :
    skip buffer offset = offset + 1 + width + numberAt width buffer (offset + 1) := by
  unfold skip
  rw [hhdr, h]
  rfl

/-- A small integer is its mark. -/
theorem layout_of_small :
    ∀ header < 256, header ≤ 0x7f ∨ header ≥ 0xe0 → layout header = (0, false) := by
  decide +kernel

/-- A read of a boolean moves to the end of the value. -/
theorem tupleReadBool_skip {value : Option Bool}
    (h : tupleReadBool buffer offset = .ok (value, stop)) : stop = skip buffer offset := by
  obtain ⟨header, hhdr, h⟩ := except_bind_eq_ok.mp h
  have hat := (getNumber_eq_ok hhdr).symm
  split_ifs at h with h₁ h₂ h₃
  · cases h
    exact (skip_fixed (hat.trans h₁) rfl).symm
  · cases h
    exact (skip_fixed (hat.trans h₂) rfl).symm
  · cases h
    exact (skip_fixed (hat.trans h₃) rfl).symm

/-- A number ends behind its width. -/
theorem readUnsigned_eq_ok {value : Option Int64}
    (h : readUnsigned width buffer offset = .ok (value, stop)) : stop = offset + 1 + width := by
  obtain ⟨number, -, h⟩ := except_bind_eq_ok.mp h
  cases h
  rfl

/-- So does a number with a sign. -/
theorem readSigned_eq_ok {value : Option Int64}
    (h : readSigned width buffer offset = .ok (value, stop)) : stop = offset + 1 + width := by
  obtain ⟨number, -, h⟩ := except_bind_eq_ok.mp h
  cases h
  rfl

/-- A read of an integer moves to the end of the value. -/
theorem tupleReadInt_skip {value : Option Int64}
    (h : tupleReadInt buffer offset = .ok (value, stop)) : stop = skip buffer offset := by
  obtain ⟨header, hhdr, h⟩ := except_bind_eq_ok.mp h
  have hat := (getNumber_eq_ok hhdr).symm
  by_cases hsmall : header ≤ 0x7f ∨ header ≥ 0xe0
  · rw [if_pos hsmall] at h
    cases h
    have hlt := numberAt_one_lt buffer offset
    rw [hat] at hlt
    exact (skip_fixed hat (layout_of_small header hlt hsmall)).symm
  rw [if_neg hsmall] at h
  -- The headers in the order of the source: four unsigned widths, then four signed ones.
  by_cases huint8 : header = 0xcc
  · rw [if_pos huint8] at h
    rw [skip_fixed (hat.trans huint8) rfl]
    exact readUnsigned_eq_ok h
  rw [if_neg huint8] at h
  by_cases huint16 : header = 0xcd
  · rw [if_pos huint16] at h
    rw [skip_fixed (hat.trans huint16) rfl]
    exact readUnsigned_eq_ok h
  rw [if_neg huint16] at h
  by_cases huint32 : header = 0xce
  · rw [if_pos huint32] at h
    rw [skip_fixed (hat.trans huint32) rfl]
    exact readUnsigned_eq_ok h
  rw [if_neg huint32] at h
  by_cases huint64 : header = 0xcf
  · rw [if_pos huint64] at h
    rw [skip_fixed (hat.trans huint64) rfl]
    exact readUnsigned_eq_ok h
  rw [if_neg huint64] at h
  by_cases hint8 : header = 0xd0
  · rw [if_pos hint8] at h
    rw [skip_fixed (hat.trans hint8) rfl]
    exact readSigned_eq_ok h
  rw [if_neg hint8] at h
  by_cases hint16 : header = 0xd1
  · rw [if_pos hint16] at h
    rw [skip_fixed (hat.trans hint16) rfl]
    exact readSigned_eq_ok h
  rw [if_neg hint16] at h
  by_cases hint32 : header = 0xd2
  · rw [if_pos hint32] at h
    rw [skip_fixed (hat.trans hint32) rfl]
    exact readSigned_eq_ok h
  rw [if_neg hint32] at h
  by_cases hint64 : header = 0xd3
  · rw [if_pos hint64] at h
    rw [skip_fixed (hat.trans hint64) rfl]
    exact readSigned_eq_ok h
  rw [if_neg hint64] at h
  by_cases hnull : header = 0xc0
  · rw [if_pos hnull] at h
    cases h
    exact (skip_fixed (hat.trans hnull) rfl).symm
  · rw [if_neg hnull] at h
    cases h

/-- The same of a double. -/
theorem tupleReadDouble_skip {value : Option UInt64}
    (h : tupleReadDouble buffer offset = .ok (value, stop)) : stop = skip buffer offset := by
  obtain ⟨header, hhdr, h⟩ := except_bind_eq_ok.mp h
  have hat := (getNumber_eq_ok hhdr).symm
  split_ifs at h with h₁ h₂ h₃
  · obtain ⟨number, -, h⟩ := except_bind_eq_ok.mp h
    cases h
    exact (skip_fixed (hat.trans h₁) rfl).symm
  · obtain ⟨number, -, h⟩ := except_bind_eq_ok.mp h
    cases h
    exact (skip_fixed (hat.trans h₂) rfl).symm
  · cases h
    exact (skip_fixed (hat.trans h₃) rfl).symm

/-- The same of a string. -/
theorem tupleReadString_skip {value : Option DartString}
    (h : tupleReadString buffer offset = .ok (value, stop)) : stop = skip buffer offset := by
  obtain ⟨header, hhdr, h⟩ := except_bind_eq_ok.mp h
  have hat := (getNumber_eq_ok hhdr).symm
  split_ifs at h with h₁ h₂ h₃ h₄ h₅
  · cases h
    exact (skip_fixed (hat.trans h₁) rfl).symm
  · obtain ⟨view, h⟩ := convert_eq_ok h
    rw [skip_fixed hat (if_pos h₂)]
    exact readView_eq_ok h
  · obtain ⟨view, h⟩ := convert_eq_ok h
    rw [skip_sized (hat.trans h₃) rfl]
    exact readSized_eq_ok h
  · obtain ⟨view, h⟩ := convert_eq_ok h
    rw [skip_sized (hat.trans h₄) rfl]
    exact readSized_eq_ok h
  · obtain ⟨view, h⟩ := convert_eq_ok h
    rw [skip_sized (hat.trans h₅) rfl]
    exact readSized_eq_ok h

/-- The same of bytes. -/
theorem tupleReadBinary_skip (h : tupleReadBinary buffer offset = .ok (value, stop)) :
    stop = skip buffer offset := by
  obtain ⟨header, hhdr, h⟩ := except_bind_eq_ok.mp h
  have hat := (getNumber_eq_ok hhdr).symm
  split_ifs at h with h₁ h₂ h₃ h₄
  · rw [skip_sized (hat.trans h₁) rfl]
    exact readSized_eq_ok h
  · rw [skip_fixed (hat.trans h₂) rfl]
    exact readView_eq_ok h
  · rw [skip_sized (hat.trans h₃) rfl]
    exact readSized_eq_ok h
  · rw [skip_sized (hat.trans h₄) rfl]
    exact readSized_eq_ok h

/-- The header of a list or a map, unless it is a null. -/
theorem tupleReadHeader_skip {short medium long length : ℕ}
    (hshort : ∀ header < 256, header &&& 0xF0 = short → layout header = (0, false))
    (hmedium : layout medium = (2, false)) (hlong : layout long = (4, false))
    (h : tupleReadHeader short medium long buffer offset = .ok (length, stop)) :
    stop = skip buffer offset ∨ length = offset + 1 ∧ stop = 0 := by
  obtain ⟨header, hhdr, h⟩ := except_bind_eq_ok.mp h
  have hat := (getNumber_eq_ok hhdr).symm
  split_ifs at h with h₁ h₂ h₃ h₄
  · cases h
    have hlt := numberAt_one_lt buffer offset
    rw [hat] at hlt
    exact .inl (skip_fixed hat (hshort header hlt h₁)).symm
  · cases h
    exact .inr ⟨rfl, rfl⟩
  · obtain ⟨number, -, h⟩ := except_bind_eq_ok.mp h
    cases h
    exact .inl (skip_fixed (hat.trans h₃) hmedium).symm
  · obtain ⟨number, -, h⟩ := except_bind_eq_ok.mp h
    cases h
    exact .inl (skip_fixed (hat.trans h₄) hlong).symm

end Skip

mutual

/-- How many values a value has, itself and its keys counted. -/
def nodesOf : TupleValue → ℕ
  | .list items => nodesOfItems items + 1
  | .map entries => nodesOfEntries entries + 1
  | .null | .bool _ | .int _ | .double _ | .string _ | .binary _ => 1

def nodesOfItems : List TupleValue → ℕ
  | [] => 0
  | item :: items => nodesOfItems items + nodesOf item

def nodesOfEntries : List (TupleValue × TupleValue) → ℕ
  | [] => 0
  | (key, value) :: entries => nodesOfEntries entries + nodesOf value + nodesOf key

end

section Nodes

variable {buffer : Uint8List}

/-- No reader takes the header 0xc1. -/
theorem readLike_mark (h : getNumber 1 buffer 0 = .ok 0xc1) (shape : TupleValue) :
    readLike shape buffer 0 = .error .formatException := by
  cases shape with
  | null | bool =>
    unfold readLike tupleReadBool
    rw [h]
    rfl
  | int =>
    unfold readLike tupleReadInt
    rw [h]
    rfl
  | double =>
    unfold readLike tupleReadDouble
    rw [h]
    rfl
  | string =>
    unfold readLike tupleReadString
    rw [h]
    rfl
  | binary =>
    unfold readLike tupleReadBinary
    rw [h]
    rfl
  | list =>
    unfold readLike tupleReadList tupleReadHeader
    rw [h]
    rfl
  | map =>
    unfold readLike tupleReadMap tupleReadHeader
    rw [h]
    rfl

/-- A short list has its length in the mark. -/
theorem layout_of_list : ∀ header < 256, header &&& 0xF0 = 0x90 → layout header = (0, false) := by
  decide +kernel

/-- So does a short map. -/
theorem layout_of_map : ∀ header < 256, header &&& 0xF0 = 0x80 → layout header = (0, false) := by
  decide +kernel

mutual

/-- A structural read takes as many tokens as the value has values. -/
theorem readLike_skip (hmark : getNumber 1 buffer 0 = .ok 0xc1) : ∀ (shape : TupleValue)
    {value : TupleValue} {offset stop : ℕ}, readLike shape buffer offset = .ok (value, stop) →
      stop = (skip buffer)^[nodesOf shape] offset
  | .null, _, _, _, h => by
    obtain ⟨⟨value, stop⟩, hread, h⟩ := except_bind_eq_ok.mp h
    cases h
    exact tupleReadBool_skip hread
  | .bool _, _, _, _, h => by
    obtain ⟨⟨value, stop⟩, hread, h⟩ := except_bind_eq_ok.mp h
    cases h
    exact tupleReadBool_skip hread
  | .int _, _, _, _, h => by
    obtain ⟨⟨value, stop⟩, hread, h⟩ := except_bind_eq_ok.mp h
    cases h
    exact tupleReadInt_skip hread
  | .double _, _, _, _, h => by
    obtain ⟨⟨value, stop⟩, hread, h⟩ := except_bind_eq_ok.mp h
    cases h
    exact tupleReadDouble_skip hread
  | .string _, _, _, _, h => by
    obtain ⟨⟨value, stop⟩, hread, h⟩ := except_bind_eq_ok.mp h
    cases h
    exact tupleReadString_skip hread
  | .binary _, _, _, _, h => by
    obtain ⟨⟨value, stop⟩, hread, h⟩ := except_bind_eq_ok.mp h
    cases h
    exact tupleReadBinary_skip hread
  | .list items, _, offset, _, h => by
    obtain ⟨⟨length, behind⟩, hhdr, h⟩ := except_bind_eq_ok.mp h
    obtain ⟨⟨values, stop⟩, hitems, h⟩ := except_bind_eq_ok.mp h
    cases h
    rcases tupleReadHeader_skip layout_of_list rfl rfl hhdr with rfl | ⟨rfl, rfl⟩
    · exact readItems_skip hmark items hitems
    · -- A null: the elements would be read at 0.
      cases items with
      | nil => cases hitems
      | cons item items =>
        have hfirst := readLike_mark hmark item
        rw [readItems, if_neg (Nat.succ_ne_zero offset)] at hitems
        change (readLike item buffer 0 >>= _) = _ at hitems
        rw [hfirst] at hitems
        cases hitems
  | .map entries, _, offset, _, h => by
    -- As for a list, with a key and a value in each step.
    obtain ⟨⟨length, behind⟩, hhdr, h⟩ := except_bind_eq_ok.mp h
    obtain ⟨⟨values, stop⟩, hents, h⟩ := except_bind_eq_ok.mp h
    cases h
    rcases tupleReadHeader_skip layout_of_map rfl rfl hhdr with rfl | ⟨rfl, rfl⟩
    · exact readEntries_skip hmark entries hents
    · cases entries with
      | nil => cases hents
      | cons entry entries =>
        obtain ⟨key, value⟩ := entry
        have hfirst := readLike_mark hmark key
        rw [readEntries, if_neg (Nat.succ_ne_zero offset)] at hents
        change (readLike key buffer 0 >>= _) = _ at hents
        rw [hfirst] at hents
        cases hents

/-- The elements of a list, by their shapes. -/
theorem readItems_skip (hmark : getNumber 1 buffer 0 = .ok 0xc1) : ∀ (shapes : List TupleValue)
    {length : ℕ} {values : List TupleValue} {offset stop : ℕ},
      readItems shapes length buffer offset = .ok (values, stop) →
        stop = (skip buffer)^[nodesOfItems shapes] offset
  | [], length, _, _, _, h => by
    unfold readItems at h
    split at h
    · cases h
      rfl
    · cases h
  | item :: items, length, _, offset, _, h => by
    unfold readItems at h
    by_cases hlen : length = 0
    · rw [if_pos hlen] at h
      cases h
    · rw [if_neg hlen] at h
      obtain ⟨⟨value, middle⟩, hitem, h⟩ := except_bind_eq_ok.mp h
      obtain ⟨⟨values, stop⟩, hitems, h⟩ := except_bind_eq_ok.mp h
      cases h
      rw [nodesOfItems, Function.iterate_add_apply, ← readLike_skip hmark item hitem]
      exact readItems_skip hmark items hitems

/-- The entries of a map, each a key and a value. -/
theorem readEntries_skip (hmark : getNumber 1 buffer 0 = .ok 0xc1) :
    ∀ (shapes : List (TupleValue × TupleValue)) {length : ℕ}
      {values : List (TupleValue × TupleValue)} {offset stop : ℕ},
      readEntries shapes length buffer offset = .ok (values, stop) →
        stop = (skip buffer)^[nodesOfEntries shapes] offset
  | [], length, _, _, _, h => by
    unfold readEntries at h
    split at h
    · cases h
      rfl
    · cases h
  | (key, value) :: entries, length, _, offset, _, h => by
    unfold readEntries at h
    by_cases hlen : length = 0
    -- Fewer entries than the shape has: the read does not have that shape.
    · rw [if_pos hlen] at h
      cases h
    · rw [if_neg hlen] at h
      obtain ⟨⟨key', first⟩, hkey, h⟩ := except_bind_eq_ok.mp h
      obtain ⟨⟨value', second⟩, hval, h⟩ := except_bind_eq_ok.mp h
      obtain ⟨⟨values, stop⟩, hents, h⟩ := except_bind_eq_ok.mp h
      cases h
      rw [nodesOfEntries, Function.iterate_add_apply, Function.iterate_add_apply,
        ← readLike_skip hmark key hkey, ← readLike_skip hmark value hval]
      exact readEntries_skip hmark entries hents

end

end Nodes

end FengShui
