import FengShui.Core.TupleRoundTrip
import FengShui.Lib.MessagePack

/-!
# Integers and strings as MessagePack has them

`canonical_iff` says which integers are written in their shortest encoding and in just the size that
is computed for them, and `conforms_iff` which strings have a header with the number of their bytes,
and stay in the size that is computed for them.
-/

namespace FengShui

open ByteString

/-- A write whose bytes and whose room are known leaves just them. -/
theorem written_eq {write : ℕ → Writing ℕ} {valid : Prop} {bytes : Uint8List} {written : ℕ}
    (hputs : Puts write bytes) (hwrites : Writes write valid written written) (hvalid : valid)
    {offset : ℕ} {buffer : Uint8List} (hroom : offset + written ≤ buffer.length) :
    written = bytes.length ∧ write offset buffer = .ok (offset + bytes.length)
      (buffer.take offset ++ bytes ++ buffer.drop (offset + bytes.length)) := by
  obtain ⟨buffer', hok, hlen, -, hdrop⟩ := hwrites.returns offset buffer hvalid hroom
  obtain ⟨hstop, rest, rfl⟩ := hputs offset buffer _ _ (by omega) hok
  have hwritten : written = bytes.length := by omega
  have hfront : (buffer.take offset ++ bytes).length = offset + written := by
    rw [List.length_append, List.length_take]
    omega
  rw [List.drop_left' hfront] at hdrop
  rw [hwritten] at hok hdrop
  exact ⟨hwritten, hdrop ▸ hok⟩

/-! ## Integers -/

/-- The integer is written in its shortest encoding, and in nothing but the size computed for it. -/
def Canonical (value : Int64) : Prop :=
  (MessagePack.encodeInt value.toInt).length = tupleSizeOfInt value.toInt ∧
    ∀ offset (buffer : Uint8List),
      offset + (MessagePack.encodeInt value.toInt).length ≤ buffer.length →
        tupleWriteInt value.toInt offset buffer =
          .ok (offset + (MessagePack.encodeInt value.toInt).length)
            (buffer.take offset ++ MessagePack.encodeInt value.toInt ++
              buffer.drop (offset + (MessagePack.encodeInt value.toInt).length))

theorem largeBytes_eq {value : ℤ} (h : 0xFF < value) :
    largeBytes value = MessagePack.encodeInt value := by
  have hformat : MessagePack.formatOf value = if value ≤ 0xffff then .uint16
      else if value ≤ 0xffffffff then .uint32 else .uint64 := by
    unfold MessagePack.formatOf
    rw [if_pos (by omega : value ≥ 0), if_neg (by omega), if_neg (by omega)]
  unfold largeBytes MessagePack.encodeInt
  rw [hformat]
  split_ifs <;> rfl

/-- Only from 128 to 255 are the bytes not those of the shortest encoding. -/
theorem intBytes_eq {value : ℤ} (h : value ≤ 0x7f ∨ 0xFF < value) :
    intBytes value = MessagePack.encodeInt value := by
  unfold intBytes
  by_cases hsign : value ≥ 0
  · rw [if_pos hsign]
    rcases h with h | h
    · unfold MessagePack.encodeInt MessagePack.formatOf
      rw [if_pos h, if_pos hsign, if_pos h]
      rfl
    · rw [if_neg (by omega), if_neg (by omega), largeBytes_eq h]
  · unfold MessagePack.encodeInt MessagePack.formatOf
    rw [if_neg hsign, if_neg hsign]
    split_ifs <;> rfl

theorem length_encodeInt (value : ℤ) : (MessagePack.encodeInt value).length =
    if value ≥ 0 then
      if value ≤ 0x7f then 1 else if value ≤ 0xff then 2 else if value ≤ 0xffff then 3
      else if value ≤ 0xffffffff then 5 else 9
    else if value ≥ -0x20 then 1 else if value ≥ -0x80 then 2 else if value ≥ -0x8000 then 3
    else if value ≥ -0x80000000 then 5 else 9 := by
  rw [MessagePack.encodeInt, MessagePack.IntFormat.length_encode]
  unfold MessagePack.formatOf
  split_ifs <;> rfl

/-- The size that is computed for an integer is that of its shortest encoding. -/
theorem length_eq_size_iff (value : ℤ) :
    (MessagePack.encodeInt value).length = tupleSizeOfInt value ↔
      -0x8000 ≤ value ∧ value ≤ 0x7f ∧ value ≠ -0x80 ∨ value < -327678 := by
  rw [length_encodeInt]
  unfold tupleSizeOfInt
  split_ifs <;> omega

/-- The integers from -32768 to 127, without -128, and those below -327678. -/
theorem canonical_iff (value : Int64) :
    Canonical value ↔
      -0x8000 ≤ value.toInt ∧ value.toInt ≤ 0x7f ∧ value.toInt ≠ -0x80 ∨ value.toInt < -327678 := by
  rw [← length_eq_size_iff]
  refine ⟨And.left, fun hsize => ⟨hsize, fun offset buffer hroom => ?_⟩⟩
  have hrange := (length_eq_size_iff value.toInt).mp hsize
  have hputs := puts_tupleWriteInt value.toInt
  rw [intBytes_eq (by omega)] at hputs
  obtain ⟨written, hwritten, hwrites⟩ := writes_tupleWriteInt value.toInt
  -- The surplus of these integers is zero, so that what is written is what the size says.
  have hsurplus : surplusOfInt value.toInt = 0 := by
    unfold surplusOfInt
    split_ifs <;> omega
  exact (written_eq hputs hwrites trivial (by omega)).2

/-- 128 is written as a `uint8`, and again as a `uint16` behind it. -/
theorem not_canonical : ¬∀ value : Int64, Canonical value := by
  intro h
  obtain ⟨hsize, -⟩ := h 128
  revert hsize
  decide

/-! ## Strings -/

/-- The string is written as a header with the number of its UTF-8 bytes and these bytes, within the
size that is computed for it. -/
def Conforms (value : DartString) : Prop :=
  ∃ header ∈ MessagePack.stringHeaders (utf8Encode value).length,
    (header ++ utf8Encode value).length ≤ tupleSizeOfString value.length ∧
      ∀ offset (buffer : Uint8List), offset + (header ++ utf8Encode value).length ≤ buffer.length →
        tupleWriteString value offset buffer = .ok (offset + (header ++ utf8Encode value).length)
          (buffer.take offset ++ (header ++ utf8Encode value) ++
            buffer.drop (offset + (header ++ utf8Encode value).length))

/-- The bytes of a number that is not negative. -/
theorem numberBytes_natCast (width number : ℕ) :
    numberBytes width (number : ℤ) = toBytesBE width number := by
  have hcast : ((number : ℤ) % 256 ^ width).toNat = number % 256 ^ width := by
    rw [← Int.toNat_natCast (number % 256 ^ width)]
    push_cast
    rfl
  rw [numberBytes, hcast, toBytesBE_mod]

variable {value : DartString}

/-- What is written of a string starts with a header that has the number of its code units. -/
theorem exists_stringBytes (h : value.length ≤ 0xFFFFFFFF) :
    ∃ header ∈ MessagePack.stringHeaders value.length,
      stringBytes value = header ++ (encodeBytes value).take value.length := by
  have hone : ∀ head : ℕ, numberBytes 1 (head : ℤ) = [UInt8.ofNat head] := fun head => by
    rw [numberBytes_natCast]
    simp only [toBytesBE, pow_zero, Nat.div_one]
  unfold stringBytes
  simp only [MessagePack.stringHeaders, List.mem_append, List.mem_ite_nil_right, List.mem_singleton]
  -- The writer takes the first header that has room for the length.
  split_ifs with h₁ h₂ h₃
  · exact ⟨toBytesBE 1 (0xa0 ||| value.length), .inl (.inl (.inl ⟨by omega, rfl⟩)),
      by rw [numberBytes_natCast]⟩
  · exact ⟨0xd9 :: toBytesBE 1 value.length, .inl (.inl (.inr ⟨by omega, rfl⟩)),
      by rw [numberBytes_natCast]; rfl⟩
  · exact ⟨0xda :: toBytesBE 2 value.length, .inl (.inr ⟨by omega, rfl⟩),
      by rw [numberBytes_natCast]; rfl⟩
  · exact ⟨0xdb :: toBytesBE 4 value.length, .inr ⟨by omega, rfl⟩,
      by rw [numberBytes_natCast]; rfl⟩

theorem encodable_of_ascii (h : Unicode.Ascii value) : Encodable value := by
  induction value with
  | nil => trivial
  | cons codeUnit rest ih =>
    have hunit : codeUnit.toNat ≤ 0x7f := Nat.le_of_lt_succ (h codeUnit List.mem_cons_self)
    unfold Encodable
    rw [if_pos hunit]
    exact ih fun other hother => h other (List.mem_cons_of_mem _ hother)

/-- Both headers are at the front of the same bytes, so that there are as many bytes as code
units. -/
theorem ascii_of_conforms (h : Conforms value) : value.length ≤ 0xFF ∧ Unicode.Ascii value := by
  obtain ⟨header, hhdr, hsize, hconforms⟩ := h
  obtain ⟨written, hwritten, hwrites⟩ := writes_tupleWriteString value
  -- A memory of just the encoding.
  let buffer : Uint8List := List.replicate (header ++ utf8Encode value).length 0
  have hlen : buffer.length = (header ++ utf8Encode value).length := List.length_replicate
  have hok := hconforms 0 buffer (by omega)
  have hvalid : (value.length ≤ 0xFFFFFFFF ∧ Encodable value) ∧
      0 + (written + (encodedLength value - value.length)) ≤ buffer.length := by
    by_contra hinvalid
    obtain ⟨e, last, herror⟩ := hwrites.throws 0 buffer (Nat.zero_le _) hinvalid
    cases hok.symm.trans herror
  obtain ⟨last, hreturns, -⟩ := hwrites.returns 0 buffer hvalid.1 hvalid.2
  obtain ⟨hstop, rest, hbuf⟩ := puts_tupleWriteString value 0 buffer _ _ (Nat.zero_le _) hok
  have hsame : header ++ utf8Encode value = stringBytes value := by
    rw [List.take_zero, List.nil_append, List.nil_append] at hbuf
    exact List.append_inj_left hbuf (by omega)
  obtain ⟨own, hown, hbytes⟩ := exists_stringBytes hvalid.1.1
  have hnum : (utf8Encode value).length = value.length := by
    have hread := MessagePack.stringLength_append hhdr (utf8Encode value)
    rw [hsame, hbytes] at hread
    exact hread.symm.trans (MessagePack.stringLength_append hown _)
  have hall : written = (header ++ utf8Encode value).length := by
    have hequal := hok.symm.trans hreturns
    injection hequal with hoff
    omega
  refine ⟨?_, (Unicode.length_utf8Encode_eq_iff value).mp hnum⟩
  have hsurplus : surplusOfString value.length ≤ 0 := by omega
  unfold surplusOfString at hsurplus
  split_ifs at hsurplus <;> omega

theorem conforms_of_ascii (hlen : value.length ≤ 0xFF) (hascii : Unicode.Ascii value) :
    Conforms value := by
  obtain ⟨written, hwritten, hwrites⟩ := writes_tupleWriteString value
  have hnum := (Unicode.length_utf8Encode_eq_iff value).mpr hascii
  have hencode : encodeBytes value = utf8Encode value := encodeBytes_of_ascii hascii
  have hencoded : encodedLength value = value.length := by
    rw [← length_encodeBytes, hencode]
    exact hnum
  have hshort : value.length ≤ 0xFFFFFFFF := by omega
  obtain ⟨header, hhdr, hbytes⟩ := exists_stringBytes hshort
  rw [hencode, List.take_of_length_le (by rw [utf8Encode]; omega)] at hbytes
  have hputs := puts_tupleWriteString value
  rw [hbytes] at hputs
  rw [hencoded, Nat.sub_self] at hwrites
  have hvalid : value.length ≤ 0xFFFFFFFF ∧ Encodable value :=
    ⟨by omega, encodable_of_ascii hascii⟩
  have hsurplus : surplusOfString value.length = 0 := if_pos hlen
  -- What is written is the encoding, in whatever memory.
  have hroom : 0 + written ≤ (List.replicate written (0 : UInt8)).length := by
    rw [List.length_replicate, Nat.zero_add]
  obtain ⟨hall, -⟩ := written_eq hputs hwrites hvalid hroom
  refine ⟨header, hnum.symm ▸ hhdr, by omega, fun offset buffer hroom => ?_⟩
  exact (written_eq hputs hwrites hvalid (by omega)).2

/-- The strings of at most 255 code units that are ASCII. -/
theorem conforms_iff (value : DartString) :
    Conforms value ↔ value.length ≤ 0xFF ∧ Unicode.Ascii value :=
  ⟨ascii_of_conforms, fun h => conforms_of_ascii h.1 h.2⟩

/-- "é" is two bytes, with a header that says one. -/
theorem not_conforms : ¬∀ value : DartString, Unicode.wellFormed value → Conforms value := by
  intro h
  have hascii := (ascii_of_conforms (h [0xE9] rfl)).2 0xE9 List.mem_cons_self
  revert hascii
  decide

end FengShui
