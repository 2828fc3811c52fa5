import FengShui.Core.TupleReads

/-!
# The tokens of a value

What is written of a value is as many tokens as the value has values, but for an integer from 128 to
255, which is written as two.
-/

namespace FengShui

open ByteString

/-- Wherever the bytes stand, this many tokens end where they do. -/
def Tokens (count : ℕ) (bytes : Uint8List) : Prop :=
  ∀ front rest : Uint8List, (skip (front ++ (bytes ++ rest)))^[count] front.length =
    front.length + bytes.length

section Tokens

variable {count count' width header : ℕ} {bytes bytes' : Uint8List}

/-- A number that was written is read, modulo its width. -/
theorem numberAt_numberBytes (front rest : Uint8List) (width : ℕ) (value : ℤ) :
    numberAt width (front ++ (numberBytes width value ++ rest)) front.length =
      (value % 256 ^ width).toNat := by
  have hpos : (0 : ℤ) < 256 ^ width := Int.pow_pos (by decide)
  have hlt := Int.emod_lt_of_pos value hpos
  have hnonneg := Int.emod_nonneg value hpos.ne'
  have hbound : (value % 256 ^ width).toNat < 256 ^ width :=
    (Int.toNat_lt hnonneg).mpr (by exact_mod_cast hlt)
  unfold numberAt
  rw [List.drop_left, List.take_left' (length_numberBytes width value)]
  exact ofBytesBE_toBytesBE_of_lt hbound

/-- A number that fits is read as it is. -/
theorem numberAt_numberBytes_of_lt (front rest : Uint8List) {number : ℕ}
    (h : number < 256 ^ width) :
    numberAt width (front ++ (numberBytes width number ++ rest)) front.length = number := by
  rw [numberAt_numberBytes, Int.emod_eq_of_lt (by omega) (by exact_mod_cast h), Int.toNat_natCast]

/-- No bytes are no token. -/
theorem tokens_nil : Tokens 0 [] := fun _ _ => rfl

/-- Tokens behind each other are counted together. -/
theorem Tokens.append (h : Tokens count bytes) (h' : Tokens count' bytes') :
    Tokens (count' + count) (bytes ++ bytes') := by
  intro front rest
  have hfirst := h front (bytes' ++ rest)
  have hsecond := h' (front ++ bytes) rest
  rw [List.append_assoc, List.length_append] at hsecond
  rw [Function.iterate_add_apply, List.append_assoc, hfirst, hsecond, List.length_append,
    Nat.add_assoc]

variable {value : ℤ}

/-- A header with as many bytes behind it as its layout says. -/
theorem tokens_fixed (hlayout : layout (value % 256 ^ 1).toNat = (bytes.length, false)) :
    Tokens 1 (numberBytes 1 value ++ bytes) := by
  intro front rest
  have hhdr := numberAt_numberBytes front (bytes ++ rest) 1 value
  rw [← List.append_assoc (numberBytes 1 value)] at hhdr
  rw [Function.iterate_one, skip_fixed hhdr hlayout, List.length_append, length_numberBytes,
    Nat.add_assoc]

/-- A header with the length of what follows. -/
theorem tokens_sized {length : ℕ} (hlayout : layout (value % 256 ^ 1).toNat = (width, true))
    (hlen : bytes.length = length) (hlt : length < 256 ^ width) :
    Tokens 1 (numberBytes 1 value ++ (numberBytes width length ++ bytes)) := by
  subst hlen
  intro front rest
  have hhdr :=
    numberAt_numberBytes front (numberBytes width bytes.length ++ bytes ++ rest) 1 value
  rw [← List.append_assoc (numberBytes 1 value)] at hhdr
  have hsize := numberAt_numberBytes_of_lt (front ++ numberBytes 1 value) (bytes ++ rest) hlt
  rw [List.length_append, length_numberBytes] at hsize
  simp only [List.append_assoc] at hhdr hsize ⊢
  rw [Function.iterate_one, skip_sized hhdr hlayout, hsize]
  simp only [List.length_append, length_numberBytes, Nat.add_assoc]

/-- A value that is its mark. -/
theorem tokens_single (hlayout : layout (value % 256 ^ 1).toNat = (0, false)) :
    Tokens 1 (numberBytes 1 value) := by
  have h : Tokens 1 (numberBytes 1 value ++ []) := tokens_fixed hlayout
  rwa [List.append_nil] at h

end Tokens

mutual

/-- How many tokens are written of a value. -/
def tokensOf : TupleValue → ℕ
  | .int value => if value.toInt > 0x7f ∧ value.toInt ≤ 0xFF then 2 else 1
  | .list items => tokensOfItems items + 1
  | .map entries => tokensOfEntries entries + 1
  | .null | .bool _ | .double _ | .string _ | .binary _ => 1

def tokensOfItems : List TupleValue → ℕ
  | [] => 0
  | item :: items => tokensOfItems items + tokensOf item

def tokensOfEntries : List (TupleValue × TupleValue) → ℕ
  | [] => 0
  | (key, value) :: entries => tokensOfEntries entries + tokensOf value + tokensOf key

end

section Leaves

/-- A value of a fixed width. -/
theorem tokens_number {header : ℤ} {width : ℕ} (value : ℤ)
    (h : layout (header % 256 ^ 1).toNat = (width, false)) :
    Tokens 1 (numberBytes 1 header ++ numberBytes width value) :=
  tokens_fixed (by rw [length_numberBytes, h])

/-- Each branch from 256 on is a token. -/
theorem tokens_largeBytes (value : ℤ) : Tokens 1 (largeBytes value) := by
  unfold largeBytes
  split_ifs
  · exact tokens_number value rfl
  · exact tokens_number value rfl
  · exact tokens_number value rfl

/-- A small integer is its mark, also below zero. -/
theorem layout_of_emod {value : ℤ} (h : value ≥ -0x20) (h' : value ≤ 0x7f) :
    layout (value % 256 ^ 1).toNat = (0, false) := by
  have hnonneg := Int.emod_nonneg value (show (256 ^ 1 : ℤ) ≠ 0 by decide)
  exact layout_of_small _ (by omega) (by omega)

/-- An integer is one token, and from 128 to 255 two. -/
theorem tokens_intBytes (value : ℤ) :
    Tokens (if value > 0x7f ∧ value ≤ 0xFF then 2 else 1) (intBytes value) := by
  unfold intBytes
  by_cases hsign : value ≥ 0
  · rw [if_pos hsign]
    by_cases hsmall : value ≤ 0x7f
    · rw [if_pos hsmall, if_neg (by omega)]
      exact tokens_single (layout_of_emod (by omega) hsmall)
    rw [if_neg hsmall]
    by_cases hbyte : value ≤ 0xFF
    · -- The bytes of a larger number follow.
      rw [if_pos hbyte, if_pos ⟨by omega, hbyte⟩, ← List.append_assoc]
      exact (tokens_number value rfl).append (tokens_largeBytes value)
    · rw [if_neg hbyte, if_neg fun h => hbyte h.2]
      exact tokens_largeBytes value
  · rw [if_neg hsign, if_neg (show ¬(value > 0x7f ∧ value ≤ 0xFF) by omega)]
    split_ifs with h₁ h₂ h₃ h₄
    · exact tokens_single (layout_of_emod h₁ (by omega))
    · exact tokens_number value rfl
    · exact tokens_number value rfl
    · exact tokens_number value rfl
    · exact tokens_number value rfl

/-- As many bytes follow the header of a string as it has code units. -/
theorem length_units (value : DartString) :
    ((encodeBytes value).take value.length).length = value.length := by
  have hle := length_le_encodedLength value
  rw [List.length_take, length_encodeBytes, Nat.min_eq_left hle]

/-- A short string has its length in the mark. -/
theorem layout_of_string : ∀ length ≤ 0x1F,
    layout (((0xA0 ||| length : ℕ) : ℤ) % 256 ^ 1).toNat = (length, false) := by
  decide +kernel

/-- A string is one token. -/
theorem tokens_stringBytes {value : DartString} (h : value.length ≤ 0xFFFFFFFF) :
    Tokens 1 (stringBytes value) := by
  have hlen := length_units value
  unfold stringBytes
  dsimp only
  split_ifs with h₁ h₂ h₃
  · exact tokens_fixed (by rw [hlen]; exact layout_of_string _ h₁)
  · exact tokens_sized rfl hlen (by omega)
  · exact tokens_sized rfl hlen (by omega)
  · exact tokens_sized rfl hlen (by omega)

/-- Bytes are one token. -/
theorem tokens_binaryBytes {value : Uint8List} (h : value.length ≤ 0xFFFFFFFF) :
    Tokens 1 (binaryBytes value) := by
  unfold binaryBytes
  split_ifs with h₁ h₂
  · exact tokens_sized rfl rfl (by omega)
  · exact tokens_sized rfl rfl (by omega)
  · exact tokens_sized rfl rfl (by omega)

/-- The header of a list or a map is one token. -/
theorem tokens_headerBytes {short medium long length : ℕ}
    (hshort : ∀ length ≤ 0xF, layout (((short ||| length : ℕ) : ℤ) % 256 ^ 1).toNat = (0, false))
    (hmedium : layout ((medium : ℤ) % 256 ^ 1).toNat = (2, false))
    (hlong : layout ((long : ℤ) % 256 ^ 1).toNat = (4, false)) :
    Tokens 1 (headerBytes short medium long length) := by
  unfold headerBytes
  split_ifs with h₁ h₂
  · exact tokens_single (hshort length h₁)
  · exact tokens_number _ hmedium
  · exact tokens_number _ hlong

/-- A short list is its mark. -/
theorem layout_of_shortList : ∀ length ≤ 0xF,
    layout (((0x90 ||| length : ℕ) : ℤ) % 256 ^ 1).toNat = (0, false) := by
  decide +kernel

/-- So is a short map. -/
theorem layout_of_shortMap : ∀ length ≤ 0xF,
    layout (((0x80 ||| length : ℕ) : ℤ) % 256 ^ 1).toNat = (0, false) := by
  decide +kernel

end Leaves

mutual

/-- A value has as many tokens as its tree counts. -/
theorem tokens_bytesOf : ∀ {value : TupleValue}, Serializable value →
    Tokens (tokensOf value) (bytesOf value)
  | .null, _ => tokens_single rfl
  | .bool value, _ => by
    cases value with
    | false => exact tokens_single rfl
    | true => exact tokens_single rfl
  | .int value, _ => tokens_intBytes value.toInt
  | .double bits, _ => tokens_number _ rfl
  | .string _, h => tokens_stringBytes h.1
  | .binary _, h => tokens_binaryBytes h
  | .list _, h => (tokens_headerBytes layout_of_shortList rfl rfl).append (tokens_bytesOfItems h.2)
  | .map _, h => (tokens_headerBytes layout_of_shortMap rfl rfl).append (tokens_bytesOfEntries h.2)

/-- The elements of a list. -/
theorem tokens_bytesOfItems : ∀ {items : List TupleValue}, SerializableItems items →
    Tokens (tokensOfItems items) (bytesOfItems items)
  | [], _ => tokens_nil
  | _ :: _, h => (tokens_bytesOf h.1).append (tokens_bytesOfItems h.2)

/-- The entries of a map. -/
theorem tokens_bytesOfEntries : ∀ {entries : List (TupleValue × TupleValue)},
    SerializableEntries entries → Tokens (tokensOfEntries entries) (bytesOfEntries entries)
  | [], _ => tokens_nil
  | (_, _) :: _, h => (tokens_bytesOf h.1).append
      ((tokens_bytesOf h.2.1).append (tokens_bytesOfEntries h.2.2))

end

mutual

/-- Every leaf satisfies the predicate. -/
def Leaves (holds : TupleValue → Prop) : TupleValue → Prop
  | .list items => LeavesItems holds items
  | .map entries => LeavesEntries holds entries
  | .null => holds .null
  | .bool value => holds (.bool value)
  | .int value => holds (.int value)
  | .double bits => holds (.double bits)
  | .string value => holds (.string value)
  | .binary value => holds (.binary value)

def LeavesItems (holds : TupleValue → Prop) : List TupleValue → Prop
  | [] => True
  | item :: items => Leaves holds item ∧ LeavesItems holds items

def LeavesEntries (holds : TupleValue → Prop) : List (TupleValue × TupleValue) → Prop
  | [] => True
  | (key, value) :: entries =>
    Leaves holds key ∧ Leaves holds value ∧ LeavesEntries holds entries

end

/-- No integer from 128 to 255. -/
def NotFallingThrough : TupleValue → Prop
  | .int value => ¬(value.toInt > 0x7f ∧ value.toInt ≤ 0xFF)
  | _ => True

/-- No string with a character outside ASCII. -/
def AsciiString : TupleValue → Prop
  | .string value => Unicode.Ascii value
  | _ => True

mutual

/-- A node has a token at least, and just one where nothing falls through. -/
theorem nodesOf_le_tokensOf : ∀ value : TupleValue, nodesOf value ≤ tokensOf value ∧
    (tokensOf value = nodesOf value → Leaves NotFallingThrough value)
  | .null => ⟨le_rfl, fun _ => trivial⟩
  | .bool _ => ⟨le_rfl, fun _ => trivial⟩
  | .double _ => ⟨le_rfl, fun _ => trivial⟩
  | .string _ => ⟨le_rfl, fun _ => trivial⟩
  | .binary _ => ⟨le_rfl, fun _ => trivial⟩
  | .int value => by
    unfold nodesOf tokensOf Leaves NotFallingThrough
    by_cases h : value.toInt > 0x7f ∧ value.toInt ≤ 0xFF
    · rw [if_pos h]
      exact ⟨by decide, fun h => absurd h (by decide)⟩
    · rw [if_neg h]
      exact ⟨le_rfl, fun _ => h⟩
  | .list items => by
    obtain ⟨hle, hleaves⟩ := nodesOfItems_le_tokensOfItems items
    unfold nodesOf tokensOf Leaves
    exact ⟨by omega, fun h => hleaves (by omega)⟩
  | .map entries => by
    obtain ⟨hle, hleaves⟩ := nodesOfEntries_le_tokensOfEntries entries
    unfold nodesOf tokensOf Leaves
    exact ⟨by omega, fun h => hleaves (by omega)⟩

/-- The same of the elements of a list. -/
theorem nodesOfItems_le_tokensOfItems : ∀ items : List TupleValue,
    nodesOfItems items ≤ tokensOfItems items ∧
      (tokensOfItems items = nodesOfItems items → LeavesItems NotFallingThrough items)
  | [] => ⟨le_rfl, fun _ => trivial⟩
  | item :: items => by
    obtain ⟨hle, hleaves⟩ := nodesOf_le_tokensOf item
    obtain ⟨hle', hleaves'⟩ := nodesOfItems_le_tokensOfItems items
    unfold nodesOfItems tokensOfItems LeavesItems
    exact ⟨by omega, fun h => ⟨hleaves (by omega), hleaves' (by omega)⟩⟩

/-- The same of the entries of a map. -/
theorem nodesOfEntries_le_tokensOfEntries : ∀ entries : List (TupleValue × TupleValue),
    nodesOfEntries entries ≤ tokensOfEntries entries ∧
      (tokensOfEntries entries = nodesOfEntries entries → LeavesEntries NotFallingThrough entries)
  | [] => ⟨le_rfl, fun _ => trivial⟩
  | (key, value) :: entries => by
    obtain ⟨hle, hleaves⟩ := nodesOf_le_tokensOf key
    obtain ⟨hle', hleaves'⟩ := nodesOf_le_tokensOf value
    obtain ⟨hle'', hleaves''⟩ := nodesOfEntries_le_tokensOfEntries entries
    unfold nodesOfEntries tokensOfEntries LeavesEntries
    exact ⟨by omega, fun h => ⟨hleaves (by omega), hleaves' (by omega), hleaves'' (by omega)⟩⟩

end

/-- A value that is read back from behind the mark is not written as more tokens. -/
theorem notFallingThrough_of_read {value read : TupleValue} {rest : Uint8List}
    (hvalid : Serializable value)
    (h : readLike value ([0xc1] ++ (bytesOf value ++ rest)) 1 =
      .ok (read, 1 + (bytesOf value).length)) : Leaves NotFallingThrough value := by
  have hmark : getNumber 1 ([0xc1] ++ (bytesOf value ++ rest)) 0 = .ok 0xc1 := by
    rw [getNumber_eq (by simp)]
    rfl
  have hread := readLike_skip hmark value h
  have htokens := tokens_bytesOf hvalid [0xc1] rest
  have hmono : StrictMono fun count => (skip ([0xc1] ++ (bytesOf value ++ rest)))^[count] 1 := by
    refine strictMono_nat_of_lt_succ fun count => ?_
    rw [Function.iterate_succ_apply']
    exact lt_skip _ _
  exact (nodesOf_le_tokensOf value).2 (hmono.injective (htokens.trans hread))

end FengShui
