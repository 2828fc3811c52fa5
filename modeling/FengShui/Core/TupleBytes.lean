import FengShui.Core.Tuples

/-!
# What is written of a value

`bytesOf` is what the serializer leaves between its two offsets, in whatever memory: of a string, as
many bytes as it has code units.
-/

namespace FengShui

open ByteString List

/-- A write that returns leaves its bytes at the offset, and what is in front of them as it was. -/
def Puts (write : ℕ → Writing ℕ) (bytes : Uint8List) : Prop :=
  ∀ offset buffer stop buffer', offset ≤ buffer.length → write offset buffer = .ok stop buffer' →
    stop = offset + bytes.length ∧ ∃ rest, buffer' = buffer.take offset ++ bytes ++ rest

section Puts

variable {write next : ℕ → Writing ℕ} {bytes bytes' : Uint8List}

variable {buffer buffer' : Uint8List}

/-- What is behind a write that returns. -/
theorem bind_of_ok {α β : Type} {m : Writing α} {f : α → Writing β} {a : α}
    (h : m buffer = .ok a buffer') : (m >>= f) buffer = f a buffer' := by
  change EStateM.bind m f buffer = _
  simp only [EStateM.bind, h]

/-- A write that throws ends what it is part of. -/
theorem bind_of_error {α β : Type} {m : Writing α} {f : α → Writing β} {e : DartException}
    (h : m buffer = .error e buffer') : (m >>= f) buffer = .error e buffer' := by
  change EStateM.bind m f buffer = _
  simp only [EStateM.bind, h]

/-- What returns has returned in both of its parts. -/
theorem ok_of_bind {α β : Type} {m : Writing α} {f : α → Writing β} {buffer last : Uint8List}
    {b : β} (h : (m >>= f) buffer = .ok b last) :
    ∃ a middle, m buffer = .ok a middle ∧ f a middle = .ok b last := by
  cases hm : m buffer with
  | ok a middle => exact ⟨a, middle, rfl, by rwa [bind_of_ok hm] at h⟩
  | error e middle =>
    rw [bind_of_error hm] at h
    cases h

/-- An offset that is only returned writes nothing. -/
theorem puts_pure : Puts (fun offset => pure offset) [] := by
  intro offset buffer stop buffer' hoff h
  cases h
  exact ⟨rfl, buffer.drop offset, by rw [append_nil, take_append_drop]⟩

/-- What throws does not return, so that it puts any bytes. -/
theorem puts_throw (e : DartException) : Puts (fun _ => throw e) bytes := by
  intro offset buffer stop buffer' _ h
  cases h

/-- One write behind the other puts the bytes of the one behind those of the other. -/
theorem Puts.bind (h : Puts write bytes) (h' : Puts next bytes') :
    Puts (fun offset => write offset >>= next) (bytes ++ bytes') := by
  intro offset buffer stop last hoff hok
  obtain ⟨a, middle, hwrite, hnext⟩ := ok_of_bind hok
  obtain ⟨rfl, rest, rfl⟩ := h offset buffer a middle hoff hwrite
  have hfront : (buffer.take offset ++ bytes).length = offset + bytes.length := by
    rw [length_append, length_take, Nat.min_eq_left hoff]
  obtain ⟨rfl, rest', rfl⟩ := h' _ _ stop last (by rw [length_append]; omega) hnext
  rw [take_left' hfront, length_append, Nat.add_assoc]
  exact ⟨rfl, rest', by simp only [append_assoc]⟩

/-- A range of bytes is written as it is. -/
theorem puts_tupleWriteRange (value : Uint8List) :
    Puts (fun offset => tupleWriteRange value offset) value := by
  intro offset buffer stop buffer' hoff h
  obtain ⟨a, middle, hset, hok⟩ := ok_of_bind h
  unfold setBytes at hset
  split at hset
  · cases hset
    cases hok
    exact ⟨rfl, _, rfl⟩
  · cases hset

/-- The bytes of a number. -/
def numberBytes (width : ℕ) (value : ℤ) : Uint8List := toBytesBE width (value % 256 ^ width).toNat

/-- A number has as many bytes as its width. -/
theorem length_numberBytes (width : ℕ) (value : ℤ) : (numberBytes width value).length = width :=
  length_toBytesBE width _

/-- A number is written by its bytes. -/
theorem puts_setNumber (width : ℕ) (value : ℤ) :
    Puts (fun offset => do setNumber width offset value; return offset + width)
      (numberBytes width value) := by
  intro offset buffer stop buffer' hoff h
  obtain ⟨a, middle, hset, hok⟩ := ok_of_bind h
  have hlen := length_numberBytes width value
  unfold numberBytes at hlen
  unfold setNumber setBytes at hset
  split at hset
  · cases hset
    cases hok
    rw [length_numberBytes]
    exact ⟨rfl, _, rfl⟩
  · cases hset

/-- A number in front of another write. -/
theorem Puts.setNumber (h : Puts next bytes) (width : ℕ) (value : ℤ) :
    Puts (fun offset => do setNumber width offset value; next (offset + width))
      (numberBytes width value ++ bytes) := by
  have hbind := (puts_setNumber width value).bind h
  simp only [bind_assoc, pure_bind] at hbind
  exact hbind

/-- Both branches put the bytes that they are said to put. -/
theorem puts_ite {condition : Prop} [Decidable condition] {write' : ℕ → Writing ℕ}
    (h : condition → Puts write bytes) (h' : ¬condition → Puts write' bytes') :
    Puts (fun offset => if condition then write offset else write' offset)
      (if condition then bytes else bytes') := by
  by_cases hcond : condition
  · simp only [if_pos hcond]
    exact h hcond
  · simp only [if_neg hcond]
    exact h' hcond

end Puts

/-! ### The bytes of a value -/

/-- What `encode` writes, or would write with a code unit behind the end. -/
def encodeBytes : DartString → Uint8List
  | [] => []
  | codeUnit :: rest =>
    let codeUnit := codeUnit.toNat
    if codeUnit ≤ 0x7f then numberBytes 1 codeUnit ++ encodeBytes rest
    else if codeUnit &&& 0xFC00 = 0xD800 then
      match rest with
      -- `encode` throws here.
      | [] => numberBytes 4 0
      | nextCodeUnit :: rest =>
        let rune := (0x10000 + ((codeUnit &&& 0x3FF) <<< 10)) ||| (nextCodeUnit.toNat &&& 0x3FF)
        numberBytes 1 (0xF0 ||| (rune >>> 18) : ℕ) ++
          (numberBytes 1 (0x80 ||| ((rune >>> 12) &&& 0x3f) : ℕ) ++
            (numberBytes 1 (0x80 ||| ((rune >>> 6) &&& 0x3f) : ℕ) ++
              (numberBytes 1 (0x80 ||| (rune &&& 0x3f) : ℕ) ++ encodeBytes rest)))
    else if codeUnit ≤ 0x7ff then
      numberBytes 1 (0xC0 ||| (codeUnit >>> 6) : ℕ) ++
        (numberBytes 1 (0x80 ||| (codeUnit &&& 0x3f) : ℕ) ++ encodeBytes rest)
    else
      numberBytes 1 (0xE0 ||| (codeUnit >>> 12) : ℕ) ++
        (numberBytes 1 (0x80 ||| ((codeUnit >>> 6) &&& 0x3f) : ℕ) ++
          (numberBytes 1 (0x80 ||| (codeUnit &&& 0x3f) : ℕ) ++ encodeBytes rest))

/-- `encode` puts the bytes of the code units. -/
theorem puts_encode : ∀ value : DartString,
    Puts (fun offset => encode value offset) (encodeBytes value)
  | [] => puts_pure
  | [codeUnit] => by
    have hrest := puts_encode []
    unfold encode encodeBytes
    dsimp only
    exact puts_ite (fun _ => hrest.setNumber 1 _) fun _ =>
      puts_ite (fun _ => puts_throw _) fun _ =>
        puts_ite (fun _ => (hrest.setNumber 1 _).setNumber 1 _) fun _ =>
          ((hrest.setNumber 1 _).setNumber 1 _).setNumber 1 _
  | codeUnit :: next :: rest => by
    have hrest := puts_encode rest
    have hnext := puts_encode (next :: rest)
    unfold encode encodeBytes
    dsimp only
    refine puts_ite (fun _ => hnext.setNumber 1 _) fun _ => puts_ite (fun _ => ?_) fun _ =>
      puts_ite (fun _ => (hnext.setNumber 1 _).setNumber 1 _) fun _ =>
        ((hnext.setNumber 1 _).setNumber 1 _).setNumber 1 _
    exact (((hrest.setNumber 1 _).setNumber 1 _).setNumber 1 _).setNumber 1 _

/-- The bytes that `encode` writes, or would write with a code unit behind the end. -/
def encodedLength : DartString → ℕ
  | [] => 0
  | codeUnit :: rest =>
    if codeUnit.toNat ≤ 0x7f then 1 + encodedLength rest
    else if codeUnit.toNat &&& 0xFC00 = 0xD800 then
      match rest with
      | [] => 4
      | _ :: rest => 4 + encodedLength rest
    else if codeUnit.toNat ≤ 0x7ff then 2 + encodedLength rest
    else 3 + encodedLength rest

/-- A code unit has at least one byte. -/
theorem length_le_encodedLength : ∀ value : DartString, value.length ≤ encodedLength value
  | [] => le_rfl
  | [codeUnit] => by
    unfold encodedLength
    dsimp only [List.length]
    split_ifs <;> omega
  | codeUnit :: next :: rest => by
    have hrest := length_le_encodedLength rest
    have hnext := length_le_encodedLength (next :: rest)
    unfold encodedLength
    simp only [List.length_cons] at hnext ⊢
    split_ifs <;> omega

/-- The bytes that `encode` writes are as many as it counts. -/
theorem length_encodeBytes : ∀ value : DartString, (encodeBytes value).length = encodedLength value
  | [] => rfl
  | [codeUnit] => by
    unfold encodeBytes encodedLength
    dsimp only
    split_ifs <;> simp only [length_append, length_numberBytes, encodeBytes, encodedLength,
      length_nil]
  | codeUnit :: next :: rest => by
    have hrest := length_encodeBytes rest
    have hnext := length_encodeBytes (next :: rest)
    unfold encodeBytes encodedLength
    dsimp only
    split_ifs <;> simp only [length_append, length_numberBytes, hrest, hnext] <;> omega

/-- The first bytes of what is written, if the offset behind them is returned. -/
theorem puts_tupleWriteUnits (value : DartString) :
    Puts (fun offset => tupleWriteUnits value offset) ((encodeBytes value).take value.length) := by
  intro offset buffer stop buffer' hoff h
  obtain ⟨a, middle, hencode, hok⟩ := ok_of_bind h
  obtain ⟨rfl, rest, rfl⟩ := puts_encode value offset buffer a middle hoff hencode
  cases hok
  have hle : value.length ≤ (encodeBytes value).length := by
    rw [length_encodeBytes]
    exact length_le_encodedLength value
  refine ⟨by rw [length_take, Nat.min_eq_left hle],
    (encodeBytes value).drop value.length ++ rest, ?_⟩
  rw [append_assoc, append_assoc, ← append_assoc (List.take _ (encodeBytes value)),
    take_append_drop]

/-- What is written from 256 on. -/
def largeBytes (value : ℤ) : Uint8List :=
  if value ≤ 0xFFFF then numberBytes 1 0xcd ++ numberBytes 2 value
  else if value ≤ 0xFFFFFFFF then numberBytes 1 0xce ++ numberBytes 4 value
  else numberBytes 1 0xcf ++ numberBytes 8 value

/-- The bytes of an integer: from 128 to 255 those of both forms. -/
def intBytes (value : ℤ) : Uint8List :=
  if value ≥ 0 then
    if value ≤ 0x7f then numberBytes 1 value
    else if value ≤ 0xFF then
      numberBytes 1 0xcc ++ (numberBytes 1 value ++ largeBytes value)
    else largeBytes value
  else if value ≥ -0x20 then numberBytes 1 value
  else if value ≥ -128 then numberBytes 1 0xd0 ++ numberBytes 1 value
  else if value ≥ -32768 then numberBytes 1 0xd1 ++ numberBytes 2 value
  else if value ≥ -2147483648 then numberBytes 1 0xd2 ++ numberBytes 4 value
  else numberBytes 1 0xd3 ++ numberBytes 8 value

/-- A number from 256 on is written by its mark and its bytes. -/
theorem puts_tupleWriteLarge (value : ℤ) :
    Puts (fun offset => tupleWriteLarge value offset) (largeBytes value) := by
  unfold tupleWriteLarge largeBytes
  exact puts_ite (fun _ => (puts_setNumber 2 value).setNumber 1 _) fun _ =>
    puts_ite (fun _ => (puts_setNumber 4 value).setNumber 1 _) fun _ =>
      (puts_setNumber 8 value).setNumber 1 _

/-- An integer is written in the form that its size asks for. -/
theorem puts_tupleWriteInt (value : ℤ) :
    Puts (fun offset => tupleWriteInt value offset) (intBytes value) := by
  unfold tupleWriteInt intBytes
  refine puts_ite (fun _ => puts_ite (fun _ => puts_setNumber 1 value) fun _ =>
    puts_ite (fun _ => ?_) fun _ => puts_tupleWriteLarge value) fun _ =>
      puts_ite (fun _ => puts_setNumber 1 value) fun _ =>
        puts_ite (fun _ => (puts_setNumber 1 value).setNumber 1 _) fun _ =>
          puts_ite (fun _ => (puts_setNumber 2 value).setNumber 1 _) fun _ =>
            puts_ite (fun _ => (puts_setNumber 4 value).setNumber 1 _) fun _ =>
              (puts_setNumber 8 value).setNumber 1 _
  exact ((puts_tupleWriteLarge value).setNumber 1 value).setNumber 1 _

/-- The bytes of a string: its header and as many bytes as it has code units. -/
def stringBytes (value : DartString) : Uint8List :=
  let units := (encodeBytes value).take value.length
  if value.length ≤ 0x1F then numberBytes 1 (0xA0 ||| value.length : ℕ) ++ units
  else if value.length ≤ 0xFF then numberBytes 1 0xd9 ++ (numberBytes 1 value.length ++ units)
  else if value.length ≤ 0xFFFF then numberBytes 1 0xda ++ (numberBytes 2 value.length ++ units)
  else numberBytes 1 0xdb ++ (numberBytes 4 value.length ++ units)

/-- A string is written by its header and its first bytes. -/
theorem puts_tupleWriteString (value : DartString) :
    Puts (fun offset => tupleWriteString value offset) (stringBytes value) := by
  have hunits := puts_tupleWriteUnits value
  unfold tupleWriteString stringBytes
  dsimp only
  refine puts_ite (fun _ => hunits.setNumber 1 _) fun _ =>
    puts_ite (fun _ => (hunits.setNumber 1 _).setNumber 1 _) fun _ =>
      puts_ite (fun _ => (hunits.setNumber 2 _).setNumber 1 _) fun _ => ?_
  by_cases h : value.length ≤ 0xFFFFFFFF
  · simp only [if_pos h]
    exact (hunits.setNumber 4 _).setNumber 1 _
  · simp only [if_neg h]
    exact puts_throw _

/-- The bytes of a binary value: its header and what it has. -/
def binaryBytes (value : Uint8List) : Uint8List :=
  if value.length ≤ 0xFF then numberBytes 1 0xc4 ++ (numberBytes 1 value.length ++ value)
  else if value.length ≤ 0xFFFF then numberBytes 1 0xc5 ++ (numberBytes 2 value.length ++ value)
  else numberBytes 1 0xc6 ++ (numberBytes 4 value.length ++ value)

/-- Bytes are written behind a header with their number. -/
theorem puts_tupleWriteBinary (value : Uint8List) :
    Puts (fun offset => tupleWriteBinary value offset) (binaryBytes value) := by
  have hrange := puts_tupleWriteRange value
  unfold tupleWriteBinary binaryBytes
  dsimp only
  refine puts_ite (fun _ => (hrange.setNumber 1 _).setNumber 1 _) fun _ =>
    puts_ite (fun _ => (hrange.setNumber 2 _).setNumber 1 _) fun _ => ?_
  by_cases h : value.length ≤ 0xFFFFFFFF
  · simp only [if_pos h]
    exact (hrange.setNumber 4 _).setNumber 1 _
  · simp only [if_neg h]
    exact puts_throw _

/-- The header of a list or a map, by its three marks. -/
def headerBytes (short medium long length : ℕ) : Uint8List :=
  if length ≤ 0xF then numberBytes 1 (short ||| length : ℕ)
  else if length ≤ 0xFFFF then numberBytes 1 medium ++ numberBytes 2 length
  else numberBytes 1 long ++ numberBytes 4 length

/-- The header of a list or a map has one of three forms. -/
theorem puts_tupleWriteHeader (short medium long : ℕ) (message : DartString) (length : ℕ) :
    Puts (fun offset => tupleWriteHeader short medium long message length offset)
      (headerBytes short medium long length) := by
  unfold tupleWriteHeader headerBytes
  refine puts_ite (fun _ => puts_setNumber 1 _) fun _ =>
    puts_ite (fun _ => (puts_setNumber 2 _).setNumber 1 _) fun _ => ?_
  by_cases h : length ≤ 0xFFFFFFFF
  · simp only [if_pos h]
    exact (puts_setNumber 4 _).setNumber 1 _
  · simp only [if_neg h]
    exact puts_throw _

mutual

/-- The bytes of a value between the two offsets. -/
def bytesOf : TupleValue → Uint8List
  | .null => numberBytes 1 0xc0
  | .bool value => numberBytes 1 (if value then 0xc3 else 0xc2)
  | .int value => intBytes value.toInt
  | .double bits => numberBytes 1 0xcb ++ numberBytes 8 bits.toNat
  | .string value => stringBytes value
  | .binary value => binaryBytes value
  | .list items => headerBytes 0x90 0xdc 0xdd items.length ++ bytesOfItems items
  | .map entries => headerBytes 0x80 0xde 0xdf entries.length ++ bytesOfEntries entries

def bytesOfItems : List TupleValue → Uint8List
  | [] => []
  | item :: items => bytesOf item ++ bytesOfItems items

def bytesOfEntries : List (TupleValue × TupleValue) → Uint8List
  | [] => []
  | (key, value) :: entries => bytesOf key ++ (bytesOf value ++ bytesOfEntries entries)

end

mutual

/-- The serializer writes the bytes of the value. -/
theorem puts_tupleDynamicSerialize : ∀ value : TupleValue,
    Puts (fun offset => tupleDynamicSerialize value offset) (bytesOf value)
  | .null => puts_setNumber 1 _
  | .bool _ => puts_setNumber 1 _
  | .int value => puts_tupleWriteInt value.toInt
  | .double _ => (puts_setNumber 8 _).setNumber 1 _
  | .string value => puts_tupleWriteString value
  | .binary value => puts_tupleWriteBinary value
  | .list items => (puts_tupleWriteHeader _ _ _ _ items.length).bind (puts_serializeItems items)
  | .map entries =>
    (puts_tupleWriteHeader _ _ _ _ entries.length).bind (puts_serializeEntries entries)

/-- The elements of a list, one behind the other. -/
theorem puts_serializeItems : ∀ items : List TupleValue,
    Puts (fun offset => serializeItems items offset) (bytesOfItems items)
  | [] => puts_pure
  | item :: items => (puts_tupleDynamicSerialize item).bind (puts_serializeItems items)

/-- The entries of a map, each with its key in front. -/
theorem puts_serializeEntries : ∀ entries : List (TupleValue × TupleValue),
    Puts (fun offset => serializeEntries entries offset) (bytesOfEntries entries)
  | [] => puts_pure
  | (key, value) :: entries => (puts_tupleDynamicSerialize key).bind
      ((puts_tupleDynamicSerialize value).bind (puts_serializeEntries entries))

end

end FengShui
