import FengShui.Core.TupleBytes
import FengShui.Lib.Effect

/-!
# The size of a tuple and what is written of it

`sizeLaw_iff` says for which values the computed size is what the serializer takes. The size and the
writer of binaries, lists and maps agree. Those of integers agree from -327678 down and from -32768
to 127 but for -128, and those of strings up to 255 code units; a string that is not ASCII is
written past the end of its own bytes.
-/

namespace FengShui

open ByteString Effect

/-- A write at an offset: when it is valid and its bytes fit, it returns the offset behind what is
written and touches no byte but those it reaches; otherwise it throws. -/
structure Writes (write : ℕ → Writing ℕ) (valid : Prop) (written reach : ℕ) : Prop where
  written_le : written ≤ reach
  returns : ∀ offset buffer, valid → offset + reach ≤ buffer.length → ∃ buffer',
    write offset buffer = .ok (offset + written) buffer' ∧ buffer'.length = buffer.length ∧
      buffer'.take offset = buffer.take offset ∧
      buffer'.drop (offset + reach) = buffer.drop (offset + reach)
  throws : ∀ offset buffer, offset ≤ buffer.length → ¬(valid ∧ offset + reach ≤ buffer.length) →
    ∃ e buffer', write offset buffer = .error e buffer'

section Writes

variable {write next : ℕ → Writing ℕ} {valid valid' : Prop} {written written' reach reach' : ℕ}

variable {buffer buffer' : Uint8List}

/-- Memory is only changed between the two offsets. -/
theorem frame_of_le {offset low high top : ℕ} (htake : buffer'.take low = buffer.take low)
    (hdrop : buffer'.drop high = buffer.drop high) (hlow : offset ≤ low) (hhigh : high ≤ top) :
    buffer'.take offset = buffer.take offset ∧ buffer'.drop top = buffer.drop top := by
  constructor
  · have h := congrArg (List.take offset) htake
    rwa [List.take_take, List.take_take, Nat.min_eq_left hlow] at h
  · have h := congrArg (List.drop (top - high)) hdrop
    rwa [List.drop_drop, List.drop_drop, Nat.add_sub_cancel' hhigh] at h

theorem writes_throw (e : DartException) (h : written ≤ reach) :
    Writes (fun _ => throw e) False written reach where
  written_le := h
  returns _ _ h := h.elim
  throws _ buffer _ _ := ⟨e, buffer, rfl⟩

theorem writes_pure : Writes (fun offset => pure offset) True 0 0 where
  written_le := le_rfl
  returns _ buffer _ _ := ⟨buffer, rfl, rfl, rfl, rfl⟩
  throws _ _ hoff hinvalid := absurd ⟨trivial, hoff⟩ hinvalid

/-- One write behind another. -/
theorem Writes.bind (h : Writes write valid written reach)
    (h' : Writes next valid' written' reach') :
    Writes (fun offset => write offset >>= next) (valid ∧ valid') (written + written')
      (max reach (written + reach')) where
  written_le := le_max_of_le_right (Nat.add_le_add_left h'.written_le written)
  returns offset buffer hvalid hfits := by
    obtain ⟨middle, hwrite, hlen, htake, hdrop⟩ := h.returns offset buffer hvalid.1 (by omega)
    obtain ⟨last, hnext, hlen', htake', hdrop'⟩ := h'.returns (offset + written) middle hvalid.2
      (by omega)
    refine ⟨last, ?_, hlen'.trans hlen, ?_⟩
    · rw [bind_of_ok hwrite, hnext, Nat.add_assoc]
    · have hfirst := frame_of_le htake hdrop le_rfl
        (show offset + reach ≤ offset + max reach (written + reach') by omega)
      have hsecond := frame_of_le htake' hdrop' (Nat.le_add_right offset written)
        (show offset + written + reach' ≤ offset + max reach (written + reach') by omega)
      exact ⟨hsecond.1.trans hfirst.1, hsecond.2.trans hfirst.2⟩
  throws offset buffer hoff hinvalid := by
    have hle := h.written_le
    -- The first writer throws, or it leaves the second one too little room or an invalid value.
    by_cases hfirst : valid ∧ offset + reach ≤ buffer.length
    · obtain ⟨middle, hwrite, hlen, -, -⟩ := h.returns offset buffer hfirst.1 hfirst.2
      have hsecond : ¬(valid' ∧ offset + written + reach' ≤ middle.length) := fun hsecond =>
        hinvalid ⟨⟨hfirst.1, hsecond.1⟩, by omega⟩
      obtain ⟨e, last, hnext⟩ := h'.throws (offset + written) middle (by omega) hsecond
      exact ⟨e, last, by rw [bind_of_ok hwrite, hnext]⟩
    · obtain ⟨e, last, hwrite⟩ := h.throws offset buffer hoff hfirst
      exact ⟨e, last, bind_of_error hwrite⟩

theorem Writes.congr (h : Writes write valid written reach) (hvalid : valid ↔ valid')
    (hwritten : written = written') (hreach : reach = reach') :
    Writes write valid' written' reach' := by
  subst hwritten hreach
  exact ⟨h.written_le, fun offset buffer h' => h.returns offset buffer (hvalid.mpr h'),
    fun offset buffer hoff h' => h.throws offset buffer hoff (by rwa [hvalid])⟩

/-- Bytes, and the offset behind them. -/
theorem writes_setBytes {width : ℕ} {bytes : ℕ → Uint8List}
    (hbytes : ∀ offset, (bytes offset).length = width) :
    Writes (fun offset => do setBytes offset (bytes offset); return offset + width) True width
      width where
  written_le := le_rfl
  returns offset buffer _ hfits := by
    have hlen := hbytes offset
    have hset : setBytes offset (bytes offset) buffer =
      .ok () (buffer.take offset ++ bytes offset ++
        buffer.drop (offset + (bytes offset).length)) := by
      unfold setBytes
      rw [if_pos (by omega)]
    have htaken : (buffer.take offset).length = offset := by
      rw [List.length_take]
      omega
    refine ⟨_, bind_of_ok hset, ?_, ?_, ?_⟩
    · simp only [List.length_append, List.length_drop, htaken]
      omega
    · rw [List.append_assoc, List.take_left' htaken]
    · have hfront : (buffer.take offset ++ bytes offset).length = offset + width := by
        rw [List.length_append]
        omega
      rw [List.drop_left' hfront, hlen]
  throws offset buffer _ hinvalid := by
    have hlen := hbytes offset
    have hset : setBytes offset (bytes offset) buffer = .error .rangeError buffer := by
      unfold setBytes
      rw [if_neg (by rw [hlen]; simpa using hinvalid)]
    exact ⟨_, _, bind_of_error hset⟩

/-- A number, and the offset behind it. -/
theorem writes_setNumber (width : ℕ) (value : ℤ) :
    Writes (fun offset => do setNumber width offset value; return offset + width) True
      width width :=
  writes_setBytes fun _ => length_toBytesBE width _

/-- A number, and a write behind it. -/
theorem Writes.setNumber (h : Writes next valid written reach) (width : ℕ) (value : ℤ) :
    Writes (fun offset => do setNumber width offset value; next (offset + width)) valid
      (width + written) (width + reach) := by
  have hbind := (writes_setNumber width value).bind h
  simp only [bind_assoc, pure_bind] at hbind
  exact hbind.congr (Iff.of_eq (true_and _)) rfl (by omega)

/-- A choice between two writes. -/
theorem exists_writes_ite {condition : Prop} [Decidable condition] {write' : ℕ → Writing ℕ}
    {amount : ℕ → Prop} {spill : ℕ}
    (h : condition → ∃ written, amount written ∧ Writes write valid written (written + spill))
    (h' : ¬condition → ∃ written, amount written ∧ Writes write' valid written (written + spill)) :
    ∃ written, amount written ∧
      Writes (fun offset => if condition then write offset else write' offset)
      valid written (written + spill) := by
  by_cases hcond : condition
  · simp only [if_pos hcond]
    exact h hcond
  · simp only [if_neg hcond]
    exact h' hcond

end Writes

/-! ## Leaves -/

/-- A lead surrogate always has a code unit behind it. -/
def Encodable : DartString → Prop
  | [] => True
  | codeUnit :: rest =>
    if codeUnit.toNat ≤ 0x7f then Encodable rest
    else if codeUnit.toNat &&& 0xFC00 = 0xD800 then
      match rest with
      | [] => False
      | _ :: rest => Encodable rest
    else Encodable rest

theorem writes_encode : ∀ value : DartString,
    Writes (fun offset => encode value offset) (Encodable value) (encodedLength value)
      (encodedLength value)
  | [] => writes_pure
  | [codeUnit] => by
    have hrest := writes_encode []
    unfold encode encodedLength Encodable
    dsimp only
    by_cases hone : codeUnit.toNat ≤ 0x7f
    · simp only [if_pos hone]
      exact hrest.setNumber 1 _
    simp only [if_neg hone]
    -- A lead surrogate at the end has nothing to pair with, and the encoder reads past it.
    by_cases hlead : codeUnit.toNat &&& 0xFC00 = 0xD800
    · simp only [if_pos hlead]
      exact writes_throw _ le_rfl
    simp only [if_neg hlead]
    by_cases htwo : codeUnit.toNat ≤ 0x7ff
    · simp only [if_pos htwo]
      exact (hrest.setNumber 1 _).setNumber 1 _
    · simp only [if_neg htwo]
      exact ((hrest.setNumber 1 _).setNumber 1 _).setNumber 1 _
  | codeUnit :: next :: rest => by
    have hrest := writes_encode rest
    have hnext := writes_encode (next :: rest)
    unfold encode encodedLength Encodable
    dsimp only
    by_cases hone : codeUnit.toNat ≤ 0x7f
    · simp only [if_pos hone]
      exact hnext.setNumber 1 _
    simp only [if_neg hone]
    by_cases hlead : codeUnit.toNat &&& 0xFC00 = 0xD800
    · simp only [if_pos hlead]
      refine ((((hrest.setNumber 1 _).setNumber 1 _).setNumber 1 _).setNumber 1 _).congr Iff.rfl
        ?_ ?_ <;> omega
    simp only [if_neg hlead]
    by_cases htwo : codeUnit.toNat ≤ 0x7ff
    · simp only [if_pos htwo]
      refine ((hnext.setNumber 1 _).setNumber 1 _).congr Iff.rfl ?_ ?_ <;> omega
    · simp only [if_neg htwo]
      refine (((hnext.setNumber 1 _).setNumber 1 _).setNumber 1 _).congr Iff.rfl ?_ ?_ <;> omega

/-- By how much the bytes of an integer are more than its size. -/
def surplusOfInt (value : ℤ) : ℤ :=
  if value > 0xFFFFFFFF then 8
  else if value > 0xFFFF then 4
  else if value > 0xFF then 2
  else if value > 0x7f then 4
  else if value = -128 then -1
  else if value ≥ -327678 ∧ value < -32768 then 2
  else 0

/-- By how much the bytes of a string of this length are more than its size. -/
def surplusOfString (length : ℕ) : ℤ :=
  if length ≤ 0xFF then 0 else if length ≤ 0xFFFF then 1 else 2

variable {value : ℤ}

theorem tupleSizeOfInt_of_ge (h : value ≥ -0x20) : tupleSizeOfInt value = 1 := if_pos h

theorem surplusOfInt_of_neg (h : value < 0) : surplusOfInt value =
    if value = -128 then -1 else if value ≥ -327678 ∧ value < -32768 then 2 else 0 := by
  unfold surplusOfInt
  rw [if_neg (by omega), if_neg (by omega), if_neg (by omega), if_neg (by omega)]

theorem writes_tupleWriteLarge (hval : value > 0xFF) : ∃ written : ℕ,
    (written : ℤ) = tupleSizeOfInt value + surplusOfInt value ∧
      Writes (fun offset => tupleWriteLarge value offset) True written (written + 0) := by
  rw [tupleSizeOfInt_of_ge (by omega)]
  unfold tupleWriteLarge surplusOfInt
  refine exists_writes_ite (fun h => ?_) fun h => exists_writes_ite (fun h' => ?_) fun h' => ?_
  · refine ⟨3, ?_, (writes_setNumber 2 value).setNumber 1 _⟩
    rw [if_neg (by omega), if_neg (by omega), if_pos hval]
    rfl
  · refine ⟨5, ?_, (writes_setNumber 4 value).setNumber 1 _⟩
    rw [if_neg (by omega), if_pos (by omega)]
    rfl
  · refine ⟨9, ?_, (writes_setNumber 8 value).setNumber 1 _⟩
    rw [if_pos (by omega)]
    rfl

/-- From 128 to 255 the bytes of a larger number follow those of the number. -/
theorem writes_fallThrough (h : value > 0x7f) (h' : value ≤ 0xFF) : ∃ written : ℕ,
    (written : ℤ) = tupleSizeOfInt value + surplusOfInt value ∧
      Writes (fun offset => do
        setUint8 offset 0xcc
        setUint8 (offset + 1) value
        tupleWriteLarge value (offset + 1 + 1)) True written (written + 0) := by
  have hsmall : Writes (fun offset => tupleWriteLarge value offset) True 3 3 := by
    unfold tupleWriteLarge
    simp only [if_pos (show value ≤ 0xFFFF by omega)]
    exact (writes_setNumber 2 value).setNumber 1 _
  refine ⟨5, ?_, (hsmall.setNumber 1 value).setNumber 1 _⟩
  rw [tupleSizeOfInt_of_ge (by omega)]
  unfold surplusOfInt
  rw [if_neg (by omega), if_neg (by omega), if_neg (by omega), if_pos h]
  rfl

theorem writes_tupleWriteInt (value : ℤ) : ∃ written : ℕ,
    (written : ℤ) = tupleSizeOfInt value + surplusOfInt value ∧
      Writes (fun offset => tupleWriteInt value offset) True written (written + 0) := by
  unfold tupleWriteInt
  refine exists_writes_ite (fun hsign => exists_writes_ite (fun h => ?_) fun h =>
    exists_writes_ite (fun h' => writes_fallThrough (by omega) h') fun h' =>
      writes_tupleWriteLarge (by omega)) fun hsign => ?_
  -- A small integer is its own header.
  · refine ⟨1, ?_, writes_setNumber 1 value⟩
    rw [tupleSizeOfInt_of_ge (by omega)]
    unfold surplusOfInt
    rw [if_neg (by omega), if_neg (by omega), if_neg (by omega), if_neg (by omega),
      if_neg (by omega), if_neg (by omega)]
    rfl
  -- Of a negative value: the size and the writer part at -128, and from -327678 up to -32769.
  · rw [surplusOfInt_of_neg (by omega)]
    unfold tupleSizeOfInt
    refine exists_writes_ite (fun h₁ => ?_) fun h₁ => exists_writes_ite (fun h₂ => ?_) fun h₂ =>
      exists_writes_ite (fun h₃ => ?_) fun h₃ => exists_writes_ite (fun h₄ => ?_) fun h₄ => ?_
    · refine ⟨1, ?_, writes_setNumber 1 value⟩
      split_ifs <;> omega
    · refine ⟨2, ?_, (writes_setNumber 1 value).setNumber 1 _⟩
      split_ifs <;> omega
    · refine ⟨3, ?_, (writes_setNumber 2 value).setNumber 1 _⟩
      split_ifs <;> omega
    · refine ⟨5, ?_, (writes_setNumber 4 value).setNumber 1 _⟩
      split_ifs <;> omega
    · refine ⟨9, ?_, (writes_setNumber 8 value).setNumber 1 _⟩
      split_ifs <;> omega

/-- The bytes of a string go on behind the offset that is returned. -/
theorem writes_tupleWriteUnits (value : DartString) :
    Writes (fun offset => tupleWriteUnits value offset) (Encodable value) value.length
      (encodedLength value) where
  written_le := length_le_encodedLength value
  returns offset buffer hvalid hfits := by
    obtain ⟨buffer', hencode, hframe⟩ := (writes_encode value).returns offset buffer hvalid hfits
    exact ⟨buffer', bind_of_ok hencode, hframe⟩
  throws offset buffer hoff hinvalid := by
    obtain ⟨e, buffer', hencode⟩ := (writes_encode value).throws offset buffer hoff hinvalid
    exact ⟨e, buffer', bind_of_error hencode⟩

theorem writes_tupleWriteString (value : DartString) : ∃ written : ℕ,
    (written : ℤ) = tupleSizeOfString value.length + surplusOfString value.length ∧
      Writes (fun offset => tupleWriteString value offset)
        (value.length ≤ 0xFFFFFFFF ∧ Encodable value) written
        (written + (encodedLength value - value.length)) := by
  have hle := length_le_encodedLength value
  have hunits := writes_tupleWriteUnits value
  unfold tupleWriteString tupleSizeOfString surplusOfString
  dsimp only
  refine exists_writes_ite (fun h₁ => ?_) fun h₁ => exists_writes_ite (fun h₂ => ?_) fun h₂ =>
    exists_writes_ite (fun h₃ => ?_) fun h₃ => exists_writes_ite (fun h₄ => ?_) fun h₄ => ?_
  · refine ⟨1 + value.length, by split_ifs <;> omega, (hunits.setNumber 1 _).congr ?_ rfl ?_⟩
    · exact (and_iff_right (by omega)).symm
    · omega
  · refine ⟨1 + (1 + value.length), by split_ifs <;> omega,
      ((hunits.setNumber 1 _).setNumber 1 _).congr ?_ rfl ?_⟩
    · exact (and_iff_right (by omega)).symm
    · omega
  · refine ⟨1 + (2 + value.length), by split_ifs; omega,
      ((hunits.setNumber 2 _).setNumber 1 _).congr ?_ rfl ?_⟩
    · exact (and_iff_right (by omega)).symm
    · omega
  · refine ⟨1 + (4 + value.length), by split_ifs; omega,
      ((hunits.setNumber 4 _).setNumber 1 _).congr ?_ rfl ?_⟩
    · exact (and_iff_right (by omega)).symm
    · omega
  -- Too long for any header: nothing is written, and what it would have been does not matter.
  · refine ⟨5 + value.length + 2, by split_ifs; omega, (writes_throw _ ?_).congr ?_ rfl rfl⟩
    · exact Nat.le_add_right _ _
    · exact iff_of_false id fun hvalid => h₄ hvalid.1

theorem writes_tupleWriteBinary (value : Uint8List) : ∃ written : ℕ,
    (written : ℤ) = tupleSizeOfBinary value.length + 0 ∧
      Writes (fun offset => tupleWriteBinary value offset) (value.length ≤ 0xFFFFFFFF) written
        (written + 0) := by
  have hrange :
    Writes (fun offset => tupleWriteRange value offset) True value.length value.length :=
    writes_setBytes fun _ => rfl
  unfold tupleWriteBinary tupleSizeOfBinary
  dsimp only
  refine exists_writes_ite (fun h₁ => ?_) fun h₁ => exists_writes_ite (fun h₂ => ?_) fun h₂ =>
    exists_writes_ite (fun h₃ => ?_) fun h₃ => ?_
  · refine ⟨1 + (1 + value.length), by split_ifs; omega,
      ((hrange.setNumber 1 _).setNumber 1 _).congr ?_ rfl rfl⟩
    exact iff_of_true trivial (by omega)
  · refine ⟨1 + (2 + value.length), by split_ifs; omega,
      ((hrange.setNumber 2 _).setNumber 1 _).congr ?_ rfl rfl⟩
    exact iff_of_true trivial (by omega)
  · refine ⟨1 + (4 + value.length), by split_ifs; omega,
      ((hrange.setNumber 4 _).setNumber 1 _).congr ?_ rfl rfl⟩
    exact iff_of_true trivial (by omega)
  · refine ⟨5 + value.length, by split_ifs; omega, (writes_throw _ le_rfl).congr ?_ rfl rfl⟩
    exact iff_of_false id h₃

theorem writes_tupleWriteHeader (short medium long : ℕ) (message : DartString) (length : ℕ) :
    ∃ written : ℕ, (written : ℤ) = tupleSizeOfList length + 0 ∧
      Writes (fun offset => tupleWriteHeader short medium long message length offset)
        (length ≤ 0xFFFFFFFF) written (written + 0) := by
  unfold tupleWriteHeader tupleSizeOfList
  refine exists_writes_ite (fun h₁ => ?_) fun h₁ => exists_writes_ite (fun h₂ => ?_) fun h₂ =>
    exists_writes_ite (fun h₃ => ?_) fun h₃ => ?_
  · refine ⟨1, by split_ifs; omega, (writes_setNumber 1 _).congr ?_ rfl rfl⟩
    exact iff_of_true trivial (by omega)
  · refine ⟨3, by split_ifs; omega, ((writes_setNumber 2 _).setNumber 1 _).congr ?_ rfl rfl⟩
    exact iff_of_true trivial (by omega)
  · refine ⟨5, by split_ifs; omega, ((writes_setNumber 4 _).setNumber 1 _).congr ?_ rfl rfl⟩
    exact iff_of_true trivial (by omega)
  · refine ⟨5, by split_ifs; omega, (writes_throw _ le_rfl).congr ?_ rfl rfl⟩
    exact iff_of_false id h₃

/-! ## Trees -/

mutual

/-- By how much the bytes of a value are more than its size. -/
def surplusOf : TupleValue → ℤ
  | .int value => surplusOfInt value.toInt
  | .string value => surplusOfString value.length
  | .list items => surplusOfItems items
  | .map entries => surplusOfEntries entries
  | .null | .bool _ | .double _ | .binary _ => 0

def surplusOfItems : List TupleValue → ℤ
  | [] => 0
  | item :: items => surplusOf item + surplusOfItems items

def surplusOfEntries : List (TupleValue × TupleValue) → ℤ
  | [] => 0
  | (key, value) :: entries => surplusOf key + (surplusOf value + surplusOfEntries entries)

end

mutual

/-- How far the strings of a value are written past its end: what comes behind a string is written
over the bytes that are too many. -/
def spillOf : TupleValue → ℕ
  | .string value => encodedLength value - value.length
  | .list items => spillOfItems items
  | .map entries => spillOfEntries entries
  | .null | .bool _ | .int _ | .double _ | .binary _ => 0

def spillOfItems : List TupleValue → ℕ
  | [] => 0
  | item :: items => max (spillOf item - (bytesOfItems items).length) (spillOfItems items)

def spillOfEntries : List (TupleValue × TupleValue) → ℕ
  | [] => 0
  | (key, value) :: entries =>
    let behind := (bytesOfEntries entries).length
    max (spillOf key - ((bytesOf value).length + behind))
      (max (spillOf value - behind) (spillOfEntries entries))

end

mutual

/-- The lengths fit 32 bits, and no string ends with a lead surrogate. -/
def Serializable : TupleValue → Prop
  | .string value => value.length ≤ 0xFFFFFFFF ∧ Encodable value
  | .binary value => value.length ≤ 0xFFFFFFFF
  | .list items => items.length ≤ 0xFFFFFFFF ∧ SerializableItems items
  | .map entries => entries.length ≤ 0xFFFFFFFF ∧ SerializableEntries entries
  | .null | .bool _ | .int _ | .double _ => True

def SerializableItems : List TupleValue → Prop
  | [] => True
  | item :: items => Serializable item ∧ SerializableItems items

def SerializableEntries : List (TupleValue × TupleValue) → Prop
  | [] => True
  | (key, value) :: entries => Serializable key ∧ Serializable value ∧ SerializableEntries entries

end

/-- What is written of a value, by its size, what that lacks and what is written past the end. -/
def WritesAmount (write : ℕ → Writing ℕ) (valid : Prop) (amount : ℤ) (spill : ℕ) : Prop :=
  ∃ written : ℕ, (written : ℤ) = amount ∧ Writes write valid written (written + spill)

theorem WritesAmount.bind {write next : ℕ → Writing ℕ} {valid valid' : Prop} {amount amount' : ℤ}
    {spill spill' : ℕ} (h : WritesAmount write valid amount spill)
    (h' : WritesAmount next valid' amount' spill') :
    WritesAmount (fun offset => write offset >>= next) (valid ∧ valid') (amount + amount')
      (max (spill - amount'.toNat) spill') := by
  obtain ⟨written, rfl, hwrite⟩ := h
  obtain ⟨written', rfl, hnext⟩ := h'
  refine ⟨written + written', by push_cast; rfl, (hwrite.bind hnext).congr Iff.rfl rfl ?_⟩
  rw [Int.toNat_natCast]
  omega

/-- What is written is the bytes of the value, when it is valid. -/
theorem WritesAmount.toNat_eq {write : ℕ → Writing ℕ} {valid : Prop} {amount : ℤ} {spill : ℕ}
    {bytes : Uint8List} (h : WritesAmount write valid amount spill) (hputs : Puts write bytes)
    (hvalid : valid) : amount.toNat = bytes.length := by
  obtain ⟨written, rfl, hwrite⟩ := h
  obtain ⟨buffer', hok, -⟩ := hwrite.returns 0 (List.replicate (written + spill) 0) hvalid (by simp)
  have hstop := (hputs 0 _ _ buffer' (Nat.zero_le _) hok).1
  rw [Int.toNat_natCast]
  omega

theorem WritesAmount.congr {write : ℕ → Writing ℕ} {valid : Prop} {amount amount' : ℤ}
    {spill spill' : ℕ} (h : WritesAmount write valid amount spill) (hamount : amount = amount')
    (hspill : valid → spill = spill') : WritesAmount write valid amount' spill' := by
  obtain ⟨written, hwritten, hwrite⟩ := h
  refine ⟨written, hwritten.trans hamount, Nat.le_add_right _ _, fun offset buffer hvalid => ?_,
    fun offset buffer hoff hinvalid => hwrite.throws offset buffer hoff fun hboth => ?_⟩
  · rw [← hspill hvalid]
    exact hwrite.returns offset buffer hvalid
  · rw [hspill hboth.1] at hboth
    exact hinvalid hboth

mutual

theorem writes_tupleDynamicSerialize : ∀ value : TupleValue,
    WritesAmount (fun offset => tupleDynamicSerialize value offset) (Serializable value)
      (tupleDynamicSize value + surplusOf value) (spillOf value)
  | .null => ⟨1, rfl, writes_setNumber 1 _⟩
  | .bool _ => ⟨1, rfl, writes_setNumber 1 _⟩
  | .int value => writes_tupleWriteInt value.toInt
  | .double bits => ⟨9, rfl, (writes_setNumber 8 _).setNumber 1 _⟩
  | .string value => writes_tupleWriteString value
  | .binary value => writes_tupleWriteBinary value
  | .list items => by
    have hhdr : WritesAmount (fun offset => tupleWriteList items.length offset) _ _ _ :=
      writes_tupleWriteHeader 0x90 0xdc 0xdd TupleErrors.maxListLength items.length
    have hitems := writes_serializeItems items
    refine (hhdr.bind hitems).congr ?_ fun _ => ?_
    · unfold tupleDynamicSize surplusOf
      push_cast
      ring
    · unfold spillOf
      omega
  | .map entries => by
    have hhdr : WritesAmount (fun offset => tupleWriteMap entries.length offset) _ _ _ :=
      writes_tupleWriteHeader 0x80 0xde 0xdf TupleErrors.maxMapLength entries.length
    have hents := writes_serializeEntries entries
    refine (hhdr.bind hents).congr ?_ fun _ => ?_
    · unfold tupleDynamicSize surplusOf tupleSizeOfMap tupleSizeOfList
      push_cast
      ring
    · unfold spillOf
      omega

theorem writes_serializeItems : ∀ items : List TupleValue,
    WritesAmount (fun offset => serializeItems items offset) (SerializableItems items)
      (tupleSizeOfItems items + surplusOfItems items) (spillOfItems items)
  | [] => ⟨0, rfl, writes_pure⟩
  | item :: items => by
    have hitem := writes_tupleDynamicSerialize item
    have hitems := writes_serializeItems items
    refine (hitem.bind hitems).congr ?_ fun hvalid => ?_
    · rw [tupleSizeOfItems, surplusOfItems]
      push_cast
      ring
    · rw [spillOfItems, hitems.toNat_eq (puts_serializeItems items) hvalid.2]

theorem writes_serializeEntries : ∀ entries : List (TupleValue × TupleValue),
    WritesAmount (fun offset => serializeEntries entries offset) (SerializableEntries entries)
      (tupleSizeOfEntries entries + surplusOfEntries entries) (spillOfEntries entries)
  | [] => ⟨0, rfl, writes_pure⟩
  | (key, value) :: entries => by
    have hkey := writes_tupleDynamicSerialize key
    have hval := writes_tupleDynamicSerialize value
    have hents := writes_serializeEntries entries
    have hbehind := (puts_tupleDynamicSerialize value).bind (puts_serializeEntries entries)
    refine (hkey.bind (hval.bind hents)).congr ?_ fun hvalid => ?_
    · rw [tupleSizeOfEntries, surplusOfEntries]
      push_cast
      ring
    · rw [spillOfEntries, (hval.bind hents).toNat_eq hbehind hvalid.2,
        hents.toNat_eq (puts_serializeEntries entries) hvalid.2.2, List.length_append]

end

/-! ## The law -/

/-- In every memory with room for the computed size, the value is written in just that room. -/
def SizeLaw (value : TupleValue) : Prop :=
  ∀ offset (buffer : Uint8List), offset + tupleDynamicSize value ≤ buffer.length → ∃ buffer',
    tupleDynamicSerialize value offset buffer = .ok (offset + tupleDynamicSize value) buffer' ∧
      buffer'.take offset = buffer.take offset ∧
      buffer'.drop (offset + tupleDynamicSize value) = buffer.drop (offset + tupleDynamicSize value)

/-- The law holds just when the value can be serialized, its surpluses add up to nothing and no
string is written past the end. -/
theorem sizeLaw_iff (value : TupleValue) :
    SizeLaw value ↔ Serializable value ∧ surplusOf value = 0 ∧ spillOf value = 0 := by
  obtain ⟨written, hwritten, hwrites⟩ := writes_tupleDynamicSerialize value
  constructor
  · intro hlaw
    -- A memory of just the computed size.
    have hlength : (List.replicate (tupleDynamicSize value) (0 : UInt8)).length =
        tupleDynamicSize value := List.length_replicate
    obtain ⟨buffer', hok, -, -⟩ := hlaw 0 (List.replicate (tupleDynamicSize value) 0) (by omega)
    have hvalid : Serializable value ∧ 0 + (written + spillOf value) ≤
        (List.replicate (tupleDynamicSize value) (0 : UInt8)).length := by
      by_contra hinvalid
      obtain ⟨e, last, herror⟩ := hwrites.throws 0 _ (Nat.zero_le _) hinvalid
      cases hok.symm.trans herror
    obtain ⟨last, hok', -⟩ := hwrites.returns 0 _ hvalid.1 hvalid.2
    have hsame := hok.symm.trans hok'
    injection hsame with hoffset
    exact ⟨hvalid.1, by omega, by omega⟩
  · rintro ⟨hvalid, hsurplus, hspill⟩ offset buffer hroom
    have hexact : written = tupleDynamicSize value := by omega
    rw [hspill, Nat.add_zero, hexact] at hwrites
    obtain ⟨buffer', hok, -, htake, hdrop⟩ := hwrites.returns offset buffer hvalid hroom
    exact ⟨buffer', hok, htake, hdrop⟩

theorem sizeLaw_false : ¬SizeLaw (.int 1000) := by
  intro h
  obtain ⟨buffer', hok, -, -⟩ := h 0 [0] (by decide)
  cases hok

end FengShui
