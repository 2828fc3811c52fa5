import FengShui.Core.TupleConformance

/-!
# UTF-16 to UTF-8 (`String.encode` of `core/extensions.dart`)

The loop of `encode` takes one or two code units and writes one to four bytes. `encodeBytes_plain`
and `encodeBytes_pair` compare these bytes with the encoding of the scalar value that the code units
denote, and `encodeBytes_of_wellFormed` follows along the string. With what is known of the memory
that a write touches, `encode_spec` says what `encode` leaves in a buffer.
-/

namespace FengShui

/-- `String.encode`: the number of the bytes that its loop writes. -/
def StringExtensions.encode (string : DartString) (offset : ℕ) : Writing ℕ := do
  let stop ← FengShui.encode string offset
  return stop - offset

open Unicode

/-! ## Masks and tags -/

theorem numberBytes_natCast_one (number : ℕ) : numberBytes 1 number = [UInt8.ofNat number] := by
  have hnum : ((number : ℤ) % 256 ^ 1).toNat = number % 256 := by omega
  unfold numberBytes
  rw [hnum]
  have hbyte : UInt8.ofNat (number % 256) = UInt8.ofNat number := UInt8.ofNat_mod_size
  simp [ByteString.toBytesBE, hbyte]

/-- The mask of the surrogate tag finds the lead surrogates. -/
theorem tag_eq_iff (codeUnit : UInt16) : codeUnit.toNat &&& 0xFC00 = 0xD800 ↔ isLead codeUnit := by
  have hlt := codeUnit.toNat_lt
  have hhigh : (codeUnit.toNat &&& 0xFC00) / 2 ^ 10 = codeUnit.toNat / 2 ^ 10 % 64 := by
    rw [Nat.and_div_two_pow]
    exact Nat.and_two_pow_sub_one_eq_mod _ 6
  have hlow : (codeUnit.toNat &&& 0xFC00) % 2 ^ 10 = 0 := by
    rw [Nat.and_mod_two_pow]
    exact Nat.and_zero _
  simp only [isLead, Bool.and_eq_true, decide_eq_true_eq]
  omega

/-- A tag in front of bits that it leaves free. -/
theorem tag_or {bits : ℕ} (tag width : ℕ) (h : bits < 2 ^ width) :
    2 ^ width * tag ||| bits = bits + 2 ^ width * tag := by
  rw [← Nat.two_pow_add_eq_or_of_lt h, Nat.add_comm]

theorem continuation_eq (number : ℕ) : 0x80 ||| (number &&& 0x3f) = number % 0x40 + 0x80 := by
  have hmask : number &&& 0x3f = number % 0x40 := Nat.and_two_pow_sub_one_eq_mod number 6
  rw [hmask]
  exact tag_or 2 6 (Nat.mod_lt _ (by decide))

/-- The rune of two code units is the scalar value of the surrogate pair. -/
theorem rune_eq {lead trail : UInt16} (hlead : isLead lead) (htrail : isTrail trail) :
    (0x10000 + ((lead.toNat &&& 0x3FF) <<< 10)) ||| (trail.toNat &&& 0x3FF) =
      (pairScalar lead trail).toNat := by
  have hhigh : lead.toNat &&& 0x3FF = lead.toNat % 1024 := Nat.and_two_pow_sub_one_eq_mod _ 10
  have hlow : trail.toNat &&& 0x3FF = trail.toNat % 1024 := Nat.and_two_pow_sub_one_eq_mod _ 10
  have hshift : 0x10000 + ((lead.toNat % 1024) <<< 10) = 2 ^ 10 * (64 + lead.toNat % 1024) := by
    rw [Nat.shiftLeft_eq]
    omega
  have hbits : trail.toNat % 1024 < 2 ^ 10 := Nat.mod_lt _ (by decide)
  rw [hhigh, hlow, hshift, tag_or _ 10 hbits, toNat_pairScalar hlead htrail]
  simp only [isLead, isTrail, Bool.and_eq_true, decide_eq_true_eq] at hlead htrail
  omega

/-! ## One step of the loop -/

/-- A code unit that is no surrogate is written as the one to three bytes of its scalar value. -/
theorem encodeBytes_plain {codeUnit : UInt16} (h : (isLead codeUnit || isTrail codeUnit) = false)
    (rest : DartString) : encodeBytes (codeUnit :: rest) =
      String.utf8EncodeChar (unitScalar codeUnit) ++ encodeBytes rest := by
  have hlt := codeUnit.toNat_lt
  have hscalar : (unitScalar codeUnit).val.toNat = codeUnit.toNat := toNat_unitScalar h
  have hlead : ¬codeUnit.toNat &&& 0xFC00 = 0xD800 := by
    rw [tag_eq_iff, (Bool.or_eq_false_iff.mp h).1]
    exact Bool.false_ne_true
  unfold String.utf8EncodeChar
  conv_lhs => unfold encodeBytes
  dsimp only
  rw [hscalar]
  by_cases hone : codeUnit.toNat ≤ 0x7f
  · rw [if_pos hone, if_pos hone, numberBytes_natCast_one]
  rw [if_neg hone, if_neg hone, if_neg hlead]
  by_cases htwo : codeUnit.toNat ≤ 0x7ff
  · have hfirst : 0xC0 ||| (codeUnit.toNat >>> 6) = codeUnit.toNat / 64 % 0x20 + 0xc0 := by
      rw [Nat.shiftRight_eq_div_pow, Nat.mod_eq_of_lt (by omega)]
      exact tag_or 3 6 (by omega)
    rw [if_pos htwo, if_pos htwo, hfirst, continuation_eq, numberBytes_natCast_one,
      numberBytes_natCast_one]
    rfl
  · have hfirst : 0xE0 ||| (codeUnit.toNat >>> 12) = codeUnit.toNat / 4096 % 0x10 + 0xe0 := by
      rw [Nat.shiftRight_eq_div_pow, Nat.mod_eq_of_lt (by omega)]
      exact tag_or 7 5 (by omega)
    rw [if_neg htwo, if_neg htwo, if_pos (by omega), hfirst, continuation_eq, continuation_eq,
      Nat.shiftRight_eq_div_pow, numberBytes_natCast_one, numberBytes_natCast_one,
      numberBytes_natCast_one]
    rfl

/-- A surrogate pair is written as the four bytes of its scalar value. -/
theorem encodeBytes_pair {lead trail : UInt16} (hlead : isLead lead) (htrail : isTrail trail)
    (rest : DartString) : encodeBytes (lead :: trail :: rest) =
      String.utf8EncodeChar (pairScalar lead trail) ++ encodeBytes rest := by
  have htag := (tag_eq_iff lead).mpr hlead
  have hscalar := toNat_pairScalar hlead htrail
  have hrange : 0x10000 ≤ (pairScalar lead trail).toNat ∧
      (pairScalar lead trail).toNat < 0x110000 := by
    rw [hscalar]
    simp only [isLead, isTrail, Bool.and_eq_true, decide_eq_true_eq] at hlead htrail
    omega
  have hone : ¬lead.toNat ≤ 0x7f := by
    simp only [isLead, Bool.and_eq_true, decide_eq_true_eq] at hlead
    omega
  unfold String.utf8EncodeChar
  conv_lhs => unfold encodeBytes
  dsimp only
  rw [if_neg hone, if_pos htag, rune_eq hlead htrail]
  change _ = (if (pairScalar lead trail).toNat ≤ 0x7f then _ else _) ++ _
  rw [if_neg (by omega)]
  change _ = (if (pairScalar lead trail).toNat ≤ 0x7ff then _ else _) ++ _
  rw [if_neg (by omega)]
  change _ = (if (pairScalar lead trail).toNat ≤ 0xffff then _ else _) ++ _
  rw [if_neg (by omega)]
  change _ = [_, _, _, _] ++ _
  have hfirst : 0xF0 ||| ((pairScalar lead trail).toNat >>> 18) =
      (pairScalar lead trail).toNat / 262144 % 0x08 + 0xf0 := by
    rw [Nat.shiftRight_eq_div_pow, Nat.mod_eq_of_lt (by omega)]
    exact tag_or 15 4 (by omega)
  rw [hfirst, continuation_eq, continuation_eq, continuation_eq, Nat.shiftRight_eq_div_pow,
    Nat.shiftRight_eq_div_pow, numberBytes_natCast_one, numberBytes_natCast_one,
    numberBytes_natCast_one, numberBytes_natCast_one]
  rfl

/-! ## A string -/

/-- What the loop writes of a well-formed string is its UTF-8 encoding. -/
theorem encodeBytes_of_wellFormed {string : DartString} (h : wellFormed string) :
    encodeBytes string = utf8Encode string := by
  change _ = (utf16Decode string).flatMap String.utf8EncodeChar
  induction string using utf16Decode.induct with
  | case1 => rfl
  | case2 codeUnit =>
    have hplain : (isLead codeUnit || isTrail codeUnit) = false := by simpa [wellFormed] using h
    rw [utf16Decode, List.flatMap_cons, encodeBytes_plain hplain]
    rfl
  | case3 lead trail rest hpair ih =>
    rw [wellFormed, if_pos hpair] at h
    have hsurrogates := Bool.and_eq_true_iff.mp hpair
    rw [utf16Decode, if_pos hpair, List.flatMap_cons, ← ih h,
      encodeBytes_pair hsurrogates.1 hsurrogates.2]
  | case4 codeUnit next rest hpair ih =>
    rw [wellFormed, if_neg hpair, Bool.and_eq_true] at h
    have hplain : (isLead codeUnit || isTrail codeUnit) = false := by simpa using h.1
    rw [utf16Decode, if_neg hpair, List.flatMap_cons, ← ih h.2, encodeBytes_plain hplain]

theorem encodable_cons_plain {codeUnit : UInt16} (h : (isLead codeUnit || isTrail codeUnit) = false)
    (rest : DartString) : Encodable (codeUnit :: rest) ↔ Encodable rest := by
  have hlead : ¬codeUnit.toNat &&& 0xFC00 = 0xD800 := by
    rw [tag_eq_iff, (Bool.or_eq_false_iff.mp h).1]
    exact Bool.false_ne_true
  conv_lhs => unfold Encodable
  rw [if_neg hlead, ite_self]

/-- In a well-formed string a lead surrogate has its trail behind it. -/
theorem encodable_of_wellFormed {string : DartString} (h : wellFormed string) :
    Encodable string := by
  induction string using utf16Decode.induct with
  | case1 => trivial
  | case2 codeUnit =>
    have hplain : (isLead codeUnit || isTrail codeUnit) = false := by simpa [wellFormed] using h
    exact (encodable_cons_plain hplain []).mpr trivial
  | case3 lead trail rest hpair ih =>
    rw [wellFormed, if_pos hpair] at h
    have hlead := (Bool.and_eq_true_iff.mp hpair).1
    have htag := (tag_eq_iff lead).mpr hlead
    unfold Encodable
    rw [if_pos htag]
    split
    · rename_i hone
      simp only [isLead, Bool.and_eq_true, decide_eq_true_eq] at hlead
      omega
    · exact ih h
  | case4 codeUnit next rest hpair ih =>
    rw [wellFormed, if_neg hpair, Bool.and_eq_true] at h
    have hplain : (isLead codeUnit || isTrail codeUnit) = false := by simpa using h.1
    exact (encodable_cons_plain hplain (next :: rest)).mpr (ih h.2)

/-- `encode` leaves the UTF-8 encoding of a well-formed string at the offset, changes no other byte
and returns the number of the bytes. -/
theorem encode_spec (string : DartString) (buffer : Uint8List) (offset : ℕ) (h : wellFormed string)
    (hroom : offset + (utf8Encode string).length ≤ buffer.length) :
    StringExtensions.encode string offset buffer =
      .ok (utf8Encode string).length
        (buffer.take offset ++ utf8Encode string ++
          buffer.drop (offset + (utf8Encode string).length)) := by
  have hbytes := encodeBytes_of_wellFormed h
  have hlength : encodedLength string = (utf8Encode string).length := by
    rw [← length_encodeBytes, hbytes]
  obtain ⟨-, hencode⟩ := written_eq (puts_encode string) (writes_encode string)
    (encodable_of_wellFormed h) (hlength ▸ hroom)
  rw [hbytes] at hencode
  unfold StringExtensions.encode
  rw [bind_of_ok hencode, Nat.add_sub_cancel_left]
  rfl

/-- "a😀" behind the first byte: one byte and four. -/
theorem encode_spec_pair : StringExtensions.encode [0x61, 0xD83D, 0xDE00] 1 (List.replicate 7 0) =
    .ok 5 [0, 0x61, 0xF0, 0x9F, 0x98, 0x80, 0] :=
  encode_spec [0x61, 0xD83D, 0xDE00] (List.replicate 7 0) 1 (by decide) (by decide)

end FengShui
