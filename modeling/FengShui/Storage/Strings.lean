import FengShui.Core.Transcoding
import FengShui.Storage.Marshalling

/-!
# Strings for native code (`storage/strings.dart`, `core/extensions.dart`)

A string is handed over as its UTF-8 bytes with a zero behind them. `StorageStrings.allocate` takes
a block of one byte for each code unit and one for the zero, `StorageStrings.free` gives back a
block of one byte for each byte and one for the zero, and the setter of `Pointer<Uint8>` sees one
byte for each code unit and none for the zero. `handed_iff` says for which strings the block is
right; the setter has no room for any.
-/

namespace FengShui.Storage

open List

/-- A write through the view `asTypedList(length)` of the memory at an address. -/
def throughView {α : Type} (address length : ℕ) (write : Writing α) : Writing α := fun memory =>
  match write ((memory.drop address).take length) with
  | .ok a units => .ok a (memory.take address ++ units ++ memory.drop (address + length))
  | .error e units => .error e (memory.take address ++ units ++ memory.drop (address + length))

namespace StorageStrings

/-- The size that `allocate` asks `storage_create_string` for. -/
def createSize (source : DartString) : ℕ := source.length + 1

/-- The size that `free` passes to `storage_free_string`. -/
def freeSize (size : ℕ) : ℕ := size + 1

/-- `allocate`, with the block at this address. -/
def allocateAt (source : DartString) (address : ℕ) : Writing ℕ :=
  throughView address (createSize source) (allocate source)

/-- The block at the address is the UTF-8 bytes of the string and a zero, the memory around the
block is as it was, and `free` gives the whole block back for the number that is returned. -/
def Handed (source : DartString) : Prop :=
  ∀ (memory : Uint8List) address, address + createSize source ≤ memory.length →
    allocateAt source address memory = .ok (utf8Encode source).length
      (memory.take address ++ (utf8Encode source ++ [0]) ++
        memory.drop (address + createSize source)) ∧
    freeSize (utf8Encode source).length = createSize source

end StorageStrings

/-- What the setter `string` of `Pointer<Uint8>` does with its view. -/
def setUnits (value : DartString) : Writing Unit := do
  let length ← StringExtensions.encode value 0
  setUint8 length 0

/-- The setter `string` of the `Pointer<Uint8>` with this address. -/
def setString (value : DartString) (address : ℕ) : Writing Unit :=
  throughView address value.length (setUnits value)

/-- The block of this size starts with the UTF-8 bytes of the string and a zero, and nothing behind
them is changed. -/
def SetsString (value : DartString) (size : ℕ) : Prop :=
  ∀ (memory : Uint8List) address, address + size ≤ memory.length →
    (utf8Encode value).length + 1 ≤ size ∧ setString value address memory = .ok ()
      (memory.take address ++ (utf8Encode value ++ [0]) ++
        memory.drop (address + (utf8Encode value).length + 1))

variable {source value : DartString} {memory units : Uint8List}

theorem throughView_ok {α : Type} {address length : ℕ} {write : Writing α} {a : α}
    {after : Uint8List} (h : throughView address length write memory = .ok a after) :
    ∃ units, write ((memory.drop address).take length) = .ok a units := by
  unfold throughView at h
  split at h
  · rename_i b units hwrite
    cases h
    exact ⟨units, hwrite⟩
  · cases h

theorem setUint8_last (front : Uint8List) (last : UInt8) :
    setUint8 front.length 0 (front ++ [last]) = .ok () (front ++ [0]) := by
  change setBytes front.length [0] (front ++ [last]) = _
  have hfits : front.length + ([0] : Uint8List).length ≤ (front ++ [last]).length := by
    rw [length_append, length_singleton, length_singleton]
  have hbehind : (front ++ [last]).drop (front.length + ([0] : Uint8List).length) = [] :=
    drop_eq_nil_of_le (by rw [length_append, length_singleton, length_singleton])
  unfold setBytes
  rw [if_pos hfits, hbehind, take_left, append_nil]

namespace StorageStrings

/-- The block of an ASCII string, with all of its bytes. -/
theorem allocate_eq (h : Unicode.Ascii source) (hlen : units.length = createSize source) :
    allocate source units = .ok (utf8Encode source).length (utf8Encode source ++ [0]) := by
  have hbytes : (utf8Encode source).length = source.length :=
    (Unicode.length_utf8Encode_eq_iff source).mpr h
  have hroom : 0 + encodedLength source ≤ units.length := by
    rw [encodedLength_of_ascii h, hlen, createSize]
    omega
  obtain ⟨-, hencode⟩ :=
    written_eq (puts_encode source) (writes_encode source) (encodable_of_ascii h) hroom
  rw [encodeBytes_of_ascii h, take_zero, nil_append, Nat.zero_add] at hencode
  -- One byte of the block is left, for the zero.
  obtain ⟨last, hlast⟩ : ∃ last, units.drop (utf8Encode source).length = [last] := by
    apply length_eq_one_iff.mp
    rw [length_drop, hlen, hbytes, createSize, Nat.add_sub_cancel_left]
  rw [hlast] at hencode
  unfold allocate
  rw [bind_of_ok hencode, bind_of_ok (setUint8_last _ last)]
  rfl

/-- A string is handed over, and its block given back, if and only if it is ASCII. -/
theorem handed_iff (source : DartString) : Handed source ↔ Unicode.Ascii source := by
  constructor
  · intro hhand
    have hroom :
        0 + createSize source ≤ (List.replicate (createSize source) (0 : UInt8)).length := by
      rw [length_replicate, Nat.zero_add]
    obtain ⟨units, halloc⟩ := throughView_ok (hhand _ 0 hroom).1
    refine ascii_of_allocate ?_ halloc
    rw [drop_zero, length_take, length_replicate, Nat.min_self]
    rfl
  · intro hascii memory address hroom
    have hlen : ((memory.drop address).take (createSize source)).length = createSize source := by
      rw [length_take, length_drop, Nat.min_eq_left (by omega)]
    have hbytes : (utf8Encode source).length = source.length :=
      (Unicode.length_utf8Encode_eq_iff source).mpr hascii
    constructor
    · unfold allocateAt throughView
      rw [allocate_eq hascii hlen]
    · rw [freeSize, createSize, hbytes]

end StorageStrings

/-! ## The setter -/

/-- The zero comes behind at least as many bytes as the view has. -/
theorem setUnits_throws (value : DartString) (hlen : units.length ≤ value.length) :
    ∃ e after, setUnits value units = .error e after := by
  by_cases hfits : Encodable value ∧ 0 + encodedLength value ≤ units.length
  · obtain ⟨buffer, hencode, hbuf, -⟩ := (writes_encode value).returns 0 units hfits.1 hfits.2
    have hle := length_le_encodedLength value
    have hreturn : StringExtensions.encode value 0 units = .ok (encodedLength value) buffer := by
      unfold StringExtensions.encode
      rw [bind_of_ok hencode, Nat.zero_add]
      rfl
    have hout : ¬encodedLength value + (numberBytes 1 0).length ≤ buffer.length := by
      rw [length_numberBytes, hbuf]
      omega
    refine ⟨.rangeError, buffer, ?_⟩
    unfold setUnits
    rw [bind_of_ok hreturn]
    exact if_neg hout
  · obtain ⟨e, buffer, hencode⟩ := (writes_encode value).throws 0 units (Nat.zero_le _) hfits
    have hthrows : StringExtensions.encode value 0 units = .error e buffer := bind_of_error hencode
    exact ⟨e, buffer, bind_of_error hthrows⟩

theorem not_setsString (value : DartString) (size : ℕ) : ¬SetsString value size := by
  intro hsets
  obtain ⟨-, hok⟩ := hsets (List.replicate size 0) 0 (by rw [length_replicate, Nat.zero_add])
  obtain ⟨units, hunits⟩ := throughView_ok hok
  have hview : (((List.replicate size (0 : UInt8)).drop 0).take value.length).length ≤
      value.length := by
    rw [length_take]
    exact Nat.min_le_left _ _
  obtain ⟨e, after, herror⟩ := setUnits_throws value hview
  cases hunits.symm.trans herror

/-- `allocate` and `free` are right for the ASCII strings, and the setter for none, whatever the
size of its block. -/
theorem native_strings_iff (string : DartString) :
    (StorageStrings.Handed string ↔ Unicode.Ascii string) ∧ ∀ size, ¬SetsString string size :=
  ⟨StorageStrings.handed_iff string, not_setsString string⟩

/-- "é" is two bytes, which fill a block that has no room for the zero then. -/
theorem native_string_overflows : ¬∀ string, Unicode.wellFormed string →
    StorageStrings.Handed string ∧ ∃ size, SetsString string size := by
  intro h
  have hascii : ¬Unicode.Ascii [0xE9] := fun h => absurd (h 0xE9 List.mem_cons_self) (by decide)
  exact hascii ((StorageStrings.handed_iff [0xE9]).mp (h [0xE9] (by decide)).1)

end FengShui.Storage
