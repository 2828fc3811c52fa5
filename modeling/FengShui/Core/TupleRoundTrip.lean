import FengShui.Core.TupleTokens
import FengShui.Lib.MessagePackValues

/-!
# The round trip of a tuple

`roundTrip_iff` says which values a structural read returns: those without an integer from 128 to
255, of which a second token is left behind, and without a character outside ASCII, whose bytes are
more than the code units that are counted.
-/

namespace FengShui

open ByteString List

/-! ## Reading what was written -/

section Own

variable {front rest bytes : Uint8List} {offset width : ℕ}

theorem getNumber_numberBytes (value : ℤ) (h : front.length = offset) :
    getNumber width (front ++ (numberBytes width value ++ rest)) offset =
      .ok (value % 256 ^ width).toNat := by
  subst h
  rw [getNumber_eq (by simp only [length_append, length_numberBytes]; omega),
    numberAt_numberBytes]

theorem getNumber_behind (header value : ℤ) :
    getNumber width (front ++ (numberBytes 1 header ++ (numberBytes width value ++ rest)))
      (front.length + 1) = .ok (value % 256 ^ width).toNat := by
  rw [← append_assoc]
  exact getNumber_numberBytes value (by rw [length_append, length_numberBytes])

theorem readView_own (h : front.length = offset) :
    readView bytes.length (front ++ (bytes ++ rest)) offset =
      .ok (bytes, offset + bytes.length) := by
  subst h
  unfold readView
  rw [sublist_ok _ (Nat.le_add_right _ _) (by simp only [length_append]; omega),
    Nat.add_sub_cancel_left, drop_left, take_left]
  rfl

theorem readSized_own {header : ℤ} (h : bytes.length < 256 ^ width) :
    readSized width (front ++ (numberBytes 1 header ++ (numberBytes width bytes.length ++
      (bytes ++ rest)))) front.length = .ok (bytes, front.length + 1 + width + bytes.length) := by
  have hsize : ((bytes.length : ℤ) % 256 ^ width).toNat = bytes.length := by
    rw [Int.emod_eq_of_lt (by omega) (by exact_mod_cast h), Int.toNat_natCast]
  have hview : readView bytes.length (front ++ (numberBytes 1 header ++
      numberBytes width bytes.length) ++ (bytes ++ rest)) (front.length + 1 + width) =
      .ok (bytes, front.length + 1 + width + bytes.length) :=
    readView_own (by simp only [length_append, length_numberBytes, Nat.add_assoc])
  unfold readSized
  rw [getNumber_behind, hsize]
  simp only [append_assoc] at hview
  exact hview

variable {value : ℤ}

theorem readUnsigned_own (header : ℤ) (h : 0 ≤ value) (h' : value < 256 ^ width) :
    readUnsigned width (front ++ (numberBytes 1 header ++ (numberBytes width value ++ rest)))
      front.length = .ok (some (Int64.ofInt value), front.length + 1 + width) := by
  unfold readUnsigned
  rw [getNumber_behind, Int.emod_eq_of_lt h h']
  change Except.ok (some (Int64.ofInt value.toNat), _) = _
  rw [Int.toNat_of_nonneg h]

theorem toSigned_emod (h : -256 ^ width ≤ 2 * value) (h' : 2 * value < 256 ^ width) :
    toSigned width (value % 256 ^ width).toNat = value := MessagePack.signed_emod h h'

theorem readSigned_own (header : ℤ) (h : -256 ^ width ≤ 2 * value) (h' : 2 * value < 256 ^ width) :
    readSigned width (front ++ (numberBytes 1 header ++ (numberBytes width value ++ rest)))
      front.length = .ok (some (Int64.ofInt value), front.length + 1 + width) := by
  unfold readSigned
  rw [getNumber_behind]
  change Except.ok (some (Int64.ofInt (toSigned width _)), _) = _
  rw [toSigned_emod h h']

/-- A header that sends to a reader of the number behind it. -/
theorem tupleReadInt_of_header {header : ℤ}
    {read : Uint8List → ℕ → Except DartException (Option Int64 × ℕ)}
    (hhdr : ∀ buffer offset, getNumber 1 buffer offset = .ok (header % 256 ^ 1).toNat →
      tupleReadInt buffer offset = read buffer offset)
    (hread : read (front ++ (numberBytes 1 header ++ (numberBytes width value ++ rest)))
      front.length = .ok (some (Int64.ofInt value), front.length + 1 + width)) :
    tupleReadInt (front ++ (numberBytes 1 header ++ numberBytes width value ++ rest))
      front.length = .ok (some (Int64.ofInt value),
        front.length + (numberBytes 1 header ++ numberBytes width value).length) := by
  rw [append_assoc, length_append, length_numberBytes, length_numberBytes,
    ← Nat.add_assoc]
  exact (hhdr _ _ (getNumber_numberBytes header rfl)).trans hread

theorem tupleReadInt_small (h : value ≥ -0x20) (h' : value ≤ 0x7f) :
    tupleReadInt (front ++ (numberBytes 1 value ++ rest)) front.length =
      .ok (some (Int64.ofInt value), front.length + 1) := by
  have hnonneg := Int.emod_nonneg value (show (256 ^ 1 : ℤ) ≠ 0 by decide)
  unfold tupleReadInt
  rw [getNumber_numberBytes value rfl]
  change (if (value % 256 ^ 1).toNat ≤ 0x7f ∨ (value % 256 ^ 1).toNat ≥ 0xe0 then _ else _) = _
  rw [if_pos (by omega), toSigned_emod (by omega) (by omega)]
  rfl

theorem tupleReadInt_large (h : 0 ≤ value) (h' : value < 256 ^ 8) :
    tupleReadInt (front ++ (largeBytes value ++ rest)) front.length =
      .ok (some (Int64.ofInt value), front.length + (largeBytes value).length) := by
  unfold largeBytes
  split_ifs with h₁ h₂
  · exact tupleReadInt_of_header (fun _ _ h => by unfold tupleReadInt; rw [h]; rfl)
      (readUnsigned_own 0xcd h (by omega))
  · exact tupleReadInt_of_header (fun _ _ h => by unfold tupleReadInt; rw [h]; rfl)
      (readUnsigned_own 0xce h (by omega))
  · exact tupleReadInt_of_header (fun _ _ h => by unfold tupleReadInt; rw [h]; rfl)
      (readUnsigned_own 0xcf h h')

/-- Any other integer is read back. -/
theorem tupleReadInt_own (hlow : -2 ^ 63 ≤ value) (hhigh : value < 2 ^ 63)
    (h : ¬(value > 0x7f ∧ value ≤ 0xFF)) :
    tupleReadInt (front ++ (intBytes value ++ rest)) front.length =
      .ok (some (Int64.ofInt value), front.length + (intBytes value).length) := by
  unfold intBytes
  split_ifs with h₁ h₂ h₃ h₄ h₅ h₆ h₇
  · rw [length_numberBytes]
    exact tupleReadInt_small (by omega) h₂
  · exact absurd ⟨by omega, h₃⟩ h
  · exact tupleReadInt_large (by omega) (by omega)
  · rw [length_numberBytes]
    exact tupleReadInt_small h₄ (by omega)
  · exact tupleReadInt_of_header (fun _ _ h => by unfold tupleReadInt; rw [h]; rfl)
      (readSigned_own 0xd0 (by omega) (by omega))
  · exact tupleReadInt_of_header (fun _ _ h => by unfold tupleReadInt; rw [h]; rfl)
      (readSigned_own 0xd1 (by omega) (by omega))
  · exact tupleReadInt_of_header (fun _ _ h => by unfold tupleReadInt; rw [h]; rfl)
      (readSigned_own 0xd2 (by omega) (by omega))
  · exact tupleReadInt_of_header (fun _ _ h => by unfold tupleReadInt; rw [h]; rfl)
      (readSigned_own 0xd3 (by omega) (by omega))

theorem tupleReadDouble_own (bits : UInt64) :
    tupleReadDouble (front ++ (numberBytes 1 0xcb ++ numberBytes 8 bits.toNat ++ rest))
      front.length = .ok (some bits, front.length + 1 + 8) := by
  have hlt := bits.toNat_lt
  have hnum : ((bits.toNat : ℤ) % 256 ^ 8).toNat = bits.toNat := by
    rw [Int.emod_eq_of_lt (by omega) (by omega), Int.toNat_natCast]
  unfold tupleReadDouble
  rw [append_assoc, getNumber_numberBytes 0xcb rfl]
  change (getNumber 8 _ _ >>= _) = _
  rw [getNumber_behind, hnum]
  change Except.ok (some (UInt64.ofNat bits.toNat), _) = _
  rw [UInt64.ofNat_toNat]

/-- A header that sends to a reader of sized bytes. -/
theorem tupleRead_of_header {α : Type} {length : ℕ}
    {reader : Uint8List → ℕ → Except DartException α} (header : ℤ)
    (use : Except DartException (Uint8List × ℕ) → Except DartException α)
    (hhdr : ∀ buffer offset, getNumber 1 buffer offset = .ok (header % 256 ^ 1).toNat →
      reader buffer offset = use (readSized width buffer offset))
    (hlen : bytes.length = length) (h : length < 256 ^ width) :
    reader (front ++ (numberBytes 1 header ++ (numberBytes width length ++ bytes) ++ rest))
      front.length = use (.ok (bytes,
        front.length + (numberBytes 1 header ++ (numberBytes width length ++ bytes)).length)) := by
  subst hlen
  simp only [append_assoc, length_append, length_numberBytes]
  rw [hhdr _ _ (getNumber_numberBytes header rfl), readSized_own h]
  simp only [Nat.add_assoc]

theorem header_of_string : ∀ length ≤ 0x1F,
    (((0xA0 ||| length : ℕ) : ℤ) % 256 ^ 1).toNat ≠ 0xc0 ∧
      (((0xA0 ||| length : ℕ) : ℤ) % 256 ^ 1).toNat &&& 0xE0 = 0xA0 ∧
      (((0xA0 ||| length : ℕ) : ℤ) % 256 ^ 1).toNat &&& 0x1F = length := by
  decide +kernel

/-- The bytes that are read as a string are as many as the string has code units. -/
theorem tupleReadString_own {value : DartString} (h : value.length ≤ 0xFFFFFFFF) :
    tupleReadString (front ++ (stringBytes value ++ rest)) front.length =
      convert (.ok ((encodeBytes value).take value.length,
        front.length + (stringBytes value).length)) := by
  have hunits := length_units value
  unfold stringBytes
  dsimp only
  split_ifs with h₁ h₂ h₃
  -- A short string has its length in the header, and none of the headers with a length is null.
  · obtain ⟨hnull, hshort, hlen⟩ := header_of_string value.length h₁
    have hview : readView ((encodeBytes value).take value.length).length
        (front ++ numberBytes 1 (0xA0 ||| value.length : ℕ) ++
          ((encodeBytes value).take value.length ++ rest)) (front.length + 1) = .ok (_, _) :=
      readView_own (by rw [length_append, length_numberBytes])
    rw [append_assoc, hunits] at hview
    unfold tupleReadString
    rw [append_assoc, getNumber_numberBytes _ rfl, length_append, length_numberBytes,
      hunits, ← Nat.add_assoc, ← hview]
    change (if (((0xA0 ||| value.length : ℕ) : ℤ) % 256 ^ 1).toNat = 0xc0 then _ else _) = _
    rw [if_neg hnull, if_pos hshort, hlen]
  · exact tupleRead_of_header 0xd9 convert (fun _ _ h => by unfold tupleReadString; rw [h]; rfl)
      hunits (by omega)
  · exact tupleRead_of_header 0xda convert (fun _ _ h => by unfold tupleReadString; rw [h]; rfl)
      hunits (by omega)
  · exact tupleRead_of_header 0xdb convert (fun _ _ h => by unfold tupleReadString; rw [h]; rfl)
      hunits (by omega)

theorem tupleReadBinary_own {value : Uint8List} (h : value.length ≤ 0xFFFFFFFF) :
    tupleReadBinary (front ++ (binaryBytes value ++ rest)) front.length =
      .ok (value, front.length + (binaryBytes value).length) := by
  unfold binaryBytes
  split_ifs with h₁ h₂
  · exact tupleRead_of_header 0xc4 id (fun _ _ h => by unfold tupleReadBinary; rw [h]; rfl)
      rfl (by omega)
  · exact tupleRead_of_header 0xc5 id (fun _ _ h => by unfold tupleReadBinary; rw [h]; rfl)
      rfl (by omega)
  · exact tupleRead_of_header 0xc6 id (fun _ _ h => by unfold tupleReadBinary; rw [h]; rfl)
      rfl (by omega)

theorem tupleReadHeader_own {short medium long length : ℕ}
    (hshort : ∀ length ≤ 0xF, (((short ||| length : ℕ) : ℤ) % 256 ^ 1).toNat &&& 0xF0 = short ∧
      (((short ||| length : ℕ) : ℤ) % 256 ^ 1).toNat &&& 0xF = length)
    (hmedium : medium < 256 ∧ medium &&& 0xF0 ≠ short ∧ medium ≠ 0xc0)
    (hlong : long < 256 ∧ long &&& 0xF0 ≠ short ∧ long ≠ 0xc0 ∧ long ≠ medium)
    (h : length ≤ 0xFFFFFFFF) :
    tupleReadHeader short medium long (front ++ (headerBytes short medium long length ++ rest))
      front.length =
      .ok (length, front.length + (headerBytes short medium long length).length) := by
  unfold headerBytes
  split_ifs with h₁ h₂
  · obtain ⟨hmask, hlen⟩ := hshort length h₁
    unfold tupleReadHeader
    rw [getNumber_numberBytes _ rfl, length_numberBytes]
    change (if (((short ||| length : ℕ) : ℤ) % 256 ^ 1).toNat &&& 0xF0 = short then _ else _) = _
    rw [if_pos hmask, hlen]
    rfl
  -- The header is none of those that are tested before it.
  · have hhdr : ((medium : ℤ) % 256 ^ 1).toNat = medium := by omega
    have hnum : ((length : ℤ) % 256 ^ 2).toNat = length := by omega
    unfold tupleReadHeader
    rw [append_assoc, getNumber_numberBytes _ rfl, hhdr, length_append,
      length_numberBytes, length_numberBytes]
    change (if medium &&& 0xF0 = short then _ else _) = _
    rw [if_neg hmedium.2.1, if_neg hmedium.2.2, if_pos rfl, getNumber_behind, hnum]
    rfl
  · have hhdr : ((long : ℤ) % 256 ^ 1).toNat = long := by omega
    have hnum : ((length : ℤ) % 256 ^ 4).toNat = length := by omega
    unfold tupleReadHeader
    rw [append_assoc, getNumber_numberBytes _ rfl, hhdr, length_append,
      length_numberBytes, length_numberBytes]
    change (if long &&& 0xF0 = short then _ else _) = _
    rw [if_neg hlong.2.1, if_neg hlong.2.2.1, if_neg hlong.2.2.2, if_pos rfl, getNumber_behind,
      hnum]
    rfl

end Own

/-! ## The law -/

section Strings

theorem numberBytes_one {number : ℕ} (h : number ≤ 0x7f) :
    numberBytes 1 number = [UInt8.ofNat number] := by
  have hnum : ((number : ℤ) % 256 ^ 1).toNat = number := by omega
  unfold numberBytes
  rw [hnum]
  simp [toBytesBE]

/-- Of an ASCII string, `encode` writes the bytes of `utf8.encode`. -/
theorem encodeBytes_of_ascii {value : DartString} (h : Unicode.Ascii value) :
    encodeBytes value = utf8Encode value := by
  induction value with
  | nil => rfl
  | cons codeUnit rest ih =>
    have hunit : codeUnit.toNat ≤ 0x7f := Nat.le_of_lt_succ (h codeUnit (by simp))
    have hrest := ih fun u hu => h u (by simp [hu])
    rw [utf8Encode_cons_of_ascii hunit, ← hrest, ← numberBytes_one hunit]
    conv_lhs => unfold encodeBytes
    dsimp only
    rw [if_pos hunit]

/-- Only of an ASCII string are the first bytes, as many as it has code units, the whole string. -/
theorem utf8Decode_units_iff (value : DartString) :
    utf8Decode ((encodeBytes value).take value.length) = .ok value ↔ Unicode.Ascii value := by
  constructor
  · intro hdecode
    unfold utf8Decode at hdecode
    split at hdecode
    · rename_i string hstr
      cases hdecode
      have hbytes := (Unicode.utf8Encode_of_utf8Decode? hstr).1
      -- Decoding may drop a byte order mark, so what it gives encodes to no more than was read.
      have hskip : (skipBom ((encodeBytes value).take value.length)).length ≤
          ((encodeBytes value).take value.length).length := by
        unfold skipBom
        split_ifs
        · rw [length_drop]
          omega
        · exact le_rfl
      rw [length_units, ← hbytes] at hskip
      exact (Unicode.length_utf8Encode_eq_iff value).mp
        (le_antisymm hskip (Unicode.length_le_length_utf8Encode value))
    · cases hdecode
  · intro hascii
    have hlen : (utf8Encode value).length = value.length :=
      (Unicode.length_utf8Encode_eq_iff value).mpr hascii
    rw [encodeBytes_of_ascii hascii, ← hlen, take_length,
      utf8Decode_utf8Encode (Unicode.wellFormed_of_ascii hascii), dropBom_of_ascii hascii]

theorem readLike_string_iff {value : DartString} (h : value.length ≤ 0xFFFFFFFF)
    (front rest : Uint8List) (stop : ℕ) :
    readLike (.string value) (front ++ (stringBytes value ++ rest)) front.length =
      .ok (.string value, stop) ↔
      Unicode.Ascii value ∧ stop = front.length + (stringBytes value).length := by
  rw [← utf8Decode_units_iff]
  unfold readLike
  rw [tupleReadString_own h]
  unfold convert
  change (utf8Decode _ >>= _) >>= _ = _ ↔ _
  cases hdecode : utf8Decode ((encodeBytes value).take value.length) with
  | error e => exact ⟨fun h => (by cases h), fun h => (by cases h.1)⟩
  | ok string =>
    constructor
    · intro h
      cases h
      exact ⟨rfl, rfl⟩
    · rintro ⟨hstr, rfl⟩
      cases hstr
      rfl

end Strings

theorem header_of_list : ∀ length ≤ 0xF,
    (((0x90 ||| length : ℕ) : ℤ) % 256 ^ 1).toNat &&& 0xF0 = 0x90 ∧
      (((0x90 ||| length : ℕ) : ℤ) % 256 ^ 1).toNat &&& 0xF = length := by
  decide +kernel

theorem header_of_map : ∀ length ≤ 0xF,
    (((0x80 ||| length : ℕ) : ℤ) % 256 ^ 1).toNat &&& 0xF0 = 0x80 ∧
      (((0x80 ||| length : ℕ) : ℤ) % 256 ^ 1).toNat &&& 0xF = length := by
  decide +kernel

theorem tupleReadList_own {length : ℕ} (h : length ≤ 0xFFFFFFFF) (front rest : Uint8List) :
    tupleReadList (front ++ (headerBytes 0x90 0xdc 0xdd length ++ rest)) front.length =
      .ok (length, front.length + (headerBytes 0x90 0xdc 0xdd length).length) :=
  tupleReadHeader_own header_of_list (by decide) (by decide) h

theorem tupleReadMap_own {length : ℕ} (h : length ≤ 0xFFFFFFFF) (front rest : Uint8List) :
    tupleReadMap (front ++ (headerBytes 0x80 0xde 0xdf length ++ rest)) front.length =
      .ok (length, front.length + (headerBytes 0x80 0xde 0xdf length).length) :=
  tupleReadHeader_own header_of_map (by decide) (by decide) h

/-- A read that returns the value, at an offset which does not depend on the rest. -/
theorem read_iff {value : TupleValue} {read : Except DartException (TupleValue × ℕ)}
    {stop behind : ℕ} (h : read = .ok (value, behind)) : read = .ok (value, stop) ↔
      True ∧ stop = behind := by
  rw [h]
  constructor
  · intro h'
    cases h'
    exact ⟨trivial, rfl⟩
  · rintro ⟨-, rfl⟩
    rfl

mutual

/-- Where the integers take one token each, just the ASCII strings decide. -/
theorem readLike_bytesOf_iff : ∀ {value : TupleValue}, Serializable value →
    Leaves NotFallingThrough value → ∀ (front rest : Uint8List) (stop : ℕ),
      readLike value (front ++ (bytesOf value ++ rest)) front.length = .ok (value, stop) ↔
        Leaves AsciiString value ∧ stop = front.length + (bytesOf value).length
  | .null, _, _, front, rest, stop => by
    refine read_iff ?_
    unfold readLike tupleReadBool bytesOf
    rw [getNumber_numberBytes 0xc0 rfl, length_numberBytes]
    rfl
  | .bool false, _, _, front, rest, stop => by
    refine read_iff ?_
    unfold readLike tupleReadBool bytesOf
    rw [length_numberBytes]
    change (getNumber 1 (front ++ (numberBytes 1 0xc2 ++ rest)) front.length >>= _) >>= _ = _
    rw [getNumber_numberBytes 0xc2 rfl]
    rfl
  | .bool true, _, _, front, rest, stop => by
    refine read_iff ?_
    unfold readLike tupleReadBool bytesOf
    rw [length_numberBytes]
    change (getNumber 1 (front ++ (numberBytes 1 0xc3 ++ rest)) front.length >>= _) >>= _ = _
    rw [getNumber_numberBytes 0xc3 rfl]
    rfl
  | .int value, _, hwhole, front, rest, stop => by
    refine read_iff ?_
    have hlow := value.le_toInt
    have hhigh := value.toInt_lt
    unfold readLike bytesOf
    rw [tupleReadInt_own hlow hhigh hwhole, Int64.ofInt_toInt]
    rfl
  | .double bits, _, _, front, rest, stop => by
    refine read_iff ?_
    unfold readLike bytesOf
    rw [tupleReadDouble_own bits, length_append, length_numberBytes, length_numberBytes]
    rfl
  -- The only leaf that may come back as another one.
  | .string value, hvalid, _, front, rest, stop => readLike_string_iff hvalid.1 front rest stop
  | .binary value, hvalid, _, front, rest, stop => by
    refine read_iff ?_
    unfold readLike bytesOf
    rw [tupleReadBinary_own hvalid]
    rfl
  | .list items, hvalid, hwhole, front, rest, stop => by
    have hhdr := tupleReadList_own hvalid.1 front (bytesOfItems items ++ rest)
    have hitems := readItems_bytesOfItems_iff hvalid.2 hwhole
      (front ++ headerBytes 0x90 0xdc 0xdd items.length) rest
    simp only [append_assoc, length_append] at hitems
    unfold bytesOf readLike Leaves
    rw [append_assoc, hhdr, length_append, ← Nat.add_assoc, ← hitems]
    change (readItems _ _ _ _ >>= _) = _ ↔ _
    rw [except_bind_eq_ok]
    constructor
    · rintro ⟨⟨values, last⟩, hread, h⟩
      cases h
      exact hread
    · intro hread
      exact ⟨_, hread, rfl⟩
  | .map entries, hvalid, hwhole, front, rest, stop => by
    have hhdr := tupleReadMap_own hvalid.1 front (bytesOfEntries entries ++ rest)
    have hents := readEntries_bytesOfEntries_iff hvalid.2 hwhole
      (front ++ headerBytes 0x80 0xde 0xdf entries.length) rest
    simp only [append_assoc, length_append] at hents
    unfold bytesOf readLike Leaves
    rw [append_assoc, hhdr, length_append, ← Nat.add_assoc, ← hents]
    change (readEntries _ _ _ _ >>= _) = _ ↔ _
    rw [except_bind_eq_ok]
    constructor
    · rintro ⟨⟨values, last⟩, hread, h⟩
      cases h
      exact hread
    · intro hread
      exact ⟨_, hread, rfl⟩

theorem readItems_bytesOfItems_iff : ∀ {items : List TupleValue}, SerializableItems items →
    LeavesItems NotFallingThrough items → ∀ (front rest : Uint8List) (stop : ℕ),
      readItems items items.length (front ++ (bytesOfItems items ++ rest)) front.length =
        .ok (items, stop) ↔
        LeavesItems AsciiString items ∧ stop = front.length + (bytesOfItems items).length
  | [], _, _, front, rest, stop => by
    change Except.ok ([], front.length) = _ ↔ True ∧ stop = front.length
    constructor
    · intro h
      cases h
      exact ⟨trivial, rfl⟩
    · rintro ⟨-, rfl⟩
      rfl
  | item :: items, hvalid, hwhole, front, rest, stop => by
    -- The element with the others behind it, and the others with the element in front of them.
    have hitem := readLike_bytesOf_iff hvalid.1 hwhole.1 front (bytesOfItems items ++ rest)
    have hitems := readItems_bytesOfItems_iff hvalid.2 hwhole.2 (front ++ bytesOf item) rest
    simp only [append_assoc, length_append] at hitems
    unfold readItems bytesOfItems LeavesItems
    rw [length_cons, if_neg (Nat.succ_ne_zero _), append_assoc, length_append,
      ← Nat.add_assoc]
    change (readLike _ _ _ >>= _) = _ ↔ _
    rw [except_bind_eq_ok]
    constructor
    · rintro ⟨⟨value, middle⟩, hread, h⟩
      obtain ⟨⟨values, last⟩, hreads, h⟩ := except_bind_eq_ok.mp h
      have h : Except.ok (value :: values, last) = Except.ok (item :: items, stop) := h
      cases h
      obtain ⟨hascii, rfl⟩ := (hitem middle).mp hread
      obtain ⟨hasciis, rfl⟩ := (hitems stop).mp hreads
      exact ⟨⟨hascii, hasciis⟩, rfl⟩
    · rintro ⟨⟨hascii, hasciis⟩, hstop⟩
      exact ⟨_, (hitem _).mpr ⟨hascii, rfl⟩, except_bind_eq_ok.mpr
        ⟨_, (hitems stop).mpr ⟨hasciis, hstop⟩, rfl⟩⟩

theorem readEntries_bytesOfEntries_iff : ∀ {entries : List (TupleValue × TupleValue)},
    SerializableEntries entries → LeavesEntries NotFallingThrough entries →
      ∀ (front rest : Uint8List) (stop : ℕ),
      readEntries entries entries.length (front ++ (bytesOfEntries entries ++ rest)) front.length =
        .ok (entries, stop) ↔
        LeavesEntries AsciiString entries ∧ stop = front.length + (bytesOfEntries entries).length
  | [], _, _, front, rest, stop => by
    change Except.ok ([], front.length) = _ ↔ True ∧ stop = front.length
    constructor
    · intro h
      cases h
      exact ⟨trivial, rfl⟩
    · rintro ⟨-, rfl⟩
      rfl
  | (key, value) :: entries, hvalid, hwhole, front, rest, stop => by
    have hkey := readLike_bytesOf_iff hvalid.1 hwhole.1 front
      (bytesOf value ++ (bytesOfEntries entries ++ rest))
    have hval := readLike_bytesOf_iff hvalid.2.1 hwhole.2.1 (front ++ bytesOf key)
      (bytesOfEntries entries ++ rest)
    have hents := readEntries_bytesOfEntries_iff hvalid.2.2 hwhole.2.2
      (front ++ (bytesOf key ++ bytesOf value)) rest
    simp only [append_assoc, length_append, ← Nat.add_assoc] at hval hents
    unfold readEntries bytesOfEntries LeavesEntries
    simp only [length_cons, if_neg (Nat.succ_ne_zero _), append_assoc,
      length_append, ← Nat.add_assoc]
    change (readLike _ _ _ >>= _) = _ ↔ _
    rw [except_bind_eq_ok]
    constructor
    · rintro ⟨⟨key', first⟩, hreadKey, h⟩
      obtain ⟨⟨value', second⟩, hreadVal, h⟩ := except_bind_eq_ok.mp h
      obtain ⟨⟨values, last⟩, hreads, h⟩ := except_bind_eq_ok.mp h
      have h : Except.ok ((key', value') :: values, last) =
        Except.ok ((key, value) :: entries, stop) := h
      cases h
      obtain ⟨hascii, rfl⟩ := (hkey first).mp hreadKey
      obtain ⟨hascii', rfl⟩ := (hval second).mp hreadVal
      obtain ⟨hasciis, rfl⟩ := (hents stop).mp hreads
      exact ⟨⟨hascii, hascii', hasciis⟩, rfl⟩
    · rintro ⟨⟨hascii, hascii', hasciis⟩, hstop⟩
      exact ⟨_, (hkey _).mpr ⟨hascii, rfl⟩, except_bind_eq_ok.mpr
        ⟨_, (hval _).mpr ⟨hascii', rfl⟩, except_bind_eq_ok.mpr
          ⟨_, (hents stop).mpr ⟨hasciis, hstop⟩, rfl⟩⟩⟩

end

/-- In every memory with room the value is written, and a structural read of what was written
returns it and the offset behind it. -/
structure RoundTrip (value : TupleValue) : Prop where
  returns : ∃ room, ∀ offset (buffer : Uint8List), offset + room ≤ buffer.length →
    ∃ stop buffer', tupleDynamicSerialize value offset buffer = .ok stop buffer'
  reads : ∀ offset (buffer : Uint8List) stop buffer', offset ≤ buffer.length →
    tupleDynamicSerialize value offset buffer = .ok stop buffer' →
      readLike value buffer' offset = .ok (value, stop)

/-- The values that can be serialized, without an integer from 128 to 255 and without a character
outside ASCII, are those that come back. -/
theorem roundTrip_iff (value : TupleValue) :
    RoundTrip value ↔
      Serializable value ∧ Leaves NotFallingThrough value ∧ Leaves AsciiString value := by
  obtain ⟨written, -, hwrites⟩ := writes_tupleDynamicSerialize value
  constructor
  · intro hlaw
    have hvalid : Serializable value := by
      by_contra hinvalid
      obtain ⟨room, hreturns⟩ := hlaw.returns
      obtain ⟨stop, buffer', hok⟩ := hreturns 0 (List.replicate room 0) (by simp)
      obtain ⟨e, last, herror⟩ := hwrites.throws 0 _ (Nat.zero_le _) fun h => hinvalid h.1
      cases hok.symm.trans herror
    -- What no reader takes is in front, so that a null cannot send one back to it.
    have hlength : ([0xc1] ++ List.replicate (written + spillOf value) (0 : UInt8)).length =
        1 + (written + spillOf value) := by
      rw [List.length_append, List.length_replicate]
      rfl
    obtain ⟨buffer', hok, -⟩ := hwrites.returns 1 _ hvalid hlength.ge
    obtain ⟨hstop, rest, hbuffer⟩ := puts_tupleDynamicSerialize value 1 _ _ buffer' (by omega) hok
    have hread := hlaw.reads 1 _ _ buffer' (by omega) hok
    rw [hstop, hbuffer, List.append_assoc] at hread
    change readLike value ([0xc1] ++ (bytesOf value ++ rest)) 1 = _ at hread
    have hwhole := notFallingThrough_of_read hvalid hread
    exact ⟨hvalid, hwhole, ((readLike_bytesOf_iff hvalid hwhole [0xc1] rest _).mp hread).1⟩
  · rintro ⟨hvalid, hwhole, hascii⟩
    constructor
    · refine ⟨written + spillOf value, fun offset buffer hroom => ?_⟩
      obtain ⟨buffer', hok, -⟩ := hwrites.returns offset buffer hvalid hroom
      exact ⟨_, buffer', hok⟩
    · intro offset buffer stop buffer' hoffset hok
      obtain ⟨rfl, rest, rfl⟩ :=
        puts_tupleDynamicSerialize value offset buffer stop buffer' hoffset hok
      have hfront : (buffer.take offset).length = offset := by
        rw [List.length_take, Nat.min_eq_left hoffset]
      have hread :=
        (readLike_bytesOf_iff hvalid hwhole (buffer.take offset) rest _).mpr ⟨hascii, rfl⟩
      rw [hfront] at hread
      rw [List.append_assoc]
      exact hread

theorem roundTrip_false : ¬RoundTrip (.int 200) := by
  intro h
  have hread := h.reads 0 [0, 0, 0, 0, 0] 5 [0xcc, 200, 0xcd, 0, 200] (by decide) rfl
  cases hread

end FengShui
