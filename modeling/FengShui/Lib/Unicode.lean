import Mathlib.Data.List.Basic
import Mathlib.Data.UInt

/-!
# UTF-16 strings and their UTF-8 bytes

A UTF-16 string is a list of code units. `utf16Decode` reads it as scalar values, with the
replacement character for every unpaired surrogate, and `utf16Encode` writes scalar values as code
units; they are inverse on well-formed strings (`utf16Encode_utf16Decode`,
`utf16Decode_utf16Encode`). The bytes of a string are the UTF-8 encoding of its scalar values
(`utf8Encode`), and `utf8Decode?` is the strict decoder, which refuses ill-formed bytes. The theory
of the two encodings of scalar values is the core library's.

A string is never longer than its bytes (`length_le_length_utf8Encode`), and is as long exactly when
it is ASCII (`length_utf8Encode_eq_iff`).
-/

namespace Unicode

open List

/-- A leading surrogate. -/
def isLead (u : UInt16) : Bool := 0xD800 ≤ u.toNat && u.toNat < 0xDC00

/-- A trailing surrogate. -/
def isTrail (u : UInt16) : Bool := 0xDC00 ≤ u.toNat && u.toNat < 0xE000

/-- The character that stands for an unpaired surrogate. -/
def replacementChar : Char := Char.ofNat 0xFFFD

/-- The scalar value of a code unit that is not part of a surrogate pair. -/
def unitScalar (u : UInt16) : Char :=
  if isLead u || isTrail u then replacementChar else Char.ofNat u.toNat

/-- The scalar value of a surrogate pair. -/
def pairScalar (lead trail : UInt16) : Char :=
  Char.ofNat (0x10000 + (lead.toNat - 0xD800) * 0x400 + (trail.toNat - 0xDC00))

/-- The scalar values of a string of code units. -/
def utf16Decode : List UInt16 → List Char
  | [] => []
  | [u] => [unitScalar u]
  | u :: v :: rest =>
    if isLead u && isTrail v then pairScalar u v :: utf16Decode rest
    else unitScalar u :: utf16Decode (v :: rest)

/-- The code units of a scalar value: one below `0x10000`, and a surrogate pair above. -/
def utf16EncodeChar (c : Char) : List UInt16 :=
  if c.toNat < 0x10000 then [UInt16.ofNat c.toNat]
  else [UInt16.ofNat (0xD800 + (c.toNat - 0x10000) / 0x400),
    UInt16.ofNat (0xDC00 + (c.toNat - 0x10000) % 0x400)]

/-- The code units of a list of scalar values. -/
def utf16Encode (cs : List Char) : List UInt16 := cs.flatMap utf16EncodeChar

/-- A string without unpaired surrogates. -/
def wellFormed : List UInt16 → Bool
  | [] => true
  | [u] => !(isLead u || isTrail u)
  | u :: v :: rest =>
    if isLead u && isTrail v then wellFormed rest
    else !(isLead u || isTrail u) && wellFormed (v :: rest)

/-- The UTF-8 bytes of a string. -/
def utf8Encode (s : List UInt16) : List UInt8 := (utf16Decode s).flatMap String.utf8EncodeChar

/-- The string that well-formed UTF-8 bytes denote, and none for ill-formed bytes. -/
def utf8Decode? (bytes : List UInt8) : Option (List UInt16) :=
  bytes.toByteArray.utf8Decode?.map fun cs => utf16Encode cs.toList

/-- A string of code units below `0x80`. -/
def Ascii (s : List UInt16) : Prop := ∀ u ∈ s, u.toNat < 0x80

instance (s : List UInt16) : Decidable (Ascii s) := inferInstanceAs (Decidable (∀ u ∈ s, _))

/-! ## Scalar values -/

theorem toNat_ofNat_of_valid {n : ℕ} (h : n.isValidChar) : (Char.ofNat n).toNat = n := by
  rw [Char.ofNat, dif_pos h]
  rfl

theorem char_cases (c : Char) : c.toNat < 0xD800 ∨ 0xE000 ≤ c.toNat ∧ c.toNat < 0x110000 := by
  rcases c.valid with h | ⟨h1, h2⟩
  · exact Or.inl h
  · refine Or.inr ⟨?_, h2⟩
    change 0xDFFF < c.toNat at h1
    omega

theorem char_eq_of_toNat {c d : Char} (h : c.toNat = d.toNat) : c = d :=
  Char.ext (UInt32.toNat.inj h)

variable {u v : UInt16} {s : List UInt16}

theorem toNat_unitScalar (h : (isLead u || isTrail u) = false) :
    (unitScalar u).toNat = u.toNat := by
  have hu := u.toNat_lt
  rw [unitScalar, if_neg (by simp [h])]
  apply toNat_ofNat_of_valid
  simp only [isLead, isTrail, Bool.or_eq_false_iff, Bool.and_eq_false_iff, decide_eq_false_iff_not]
    at h
  simp only [Nat.isValidChar]
  omega

theorem toNat_pairScalar (hu : isLead u) (hv : isTrail v) :
    (pairScalar u v).toNat = 0x10000 + (u.toNat - 0xD800) * 0x400 + (v.toNat - 0xDC00) := by
  simp only [isLead, isTrail, Bool.and_eq_true, decide_eq_true_eq] at hu hv
  apply toNat_ofNat_of_valid
  simp only [Nat.isValidChar]
  omega

/-! ## UTF-16 -/

theorem utf16EncodeChar_unitScalar (h : (isLead u || isTrail u) = false) :
    utf16EncodeChar (unitScalar u) = [u] := by
  have hu := u.toNat_lt
  rw [utf16EncodeChar, toNat_unitScalar h, if_pos (by omega)]
  simp

theorem utf16EncodeChar_pairScalar (hu : isLead u) (hv : isTrail v) :
    utf16EncodeChar (pairScalar u v) = [u, v] := by
  rw [utf16EncodeChar, toNat_pairScalar hu hv, if_neg (by omega)]
  simp only [isLead, isTrail, Bool.and_eq_true, decide_eq_true_eq] at hu hv
  have h1 : 0xD800 + (0x10000 + (u.toNat - 0xD800) * 0x400 + (v.toNat - 0xDC00) - 0x10000) / 0x400
      = u.toNat := by omega
  have h2 : 0xDC00 + (0x10000 + (u.toNat - 0xD800) * 0x400 + (v.toNat - 0xDC00) - 0x10000) % 0x400
      = v.toNat := by omega
  rw [h1, h2]
  simp

/-- A well-formed string is the encoding of its scalar values. -/
theorem utf16Encode_utf16Decode (h : wellFormed s) : utf16Encode (utf16Decode s) = s := by
  induction s using utf16Decode.induct with
  | case1 => rfl
  | case2 u =>
    simp only [wellFormed, Bool.not_eq_true'] at h
    simp [utf16Encode, utf16Decode, utf16EncodeChar_unitScalar h]
  | case3 u v rest hpair ih =>
    rw [wellFormed, if_pos hpair] at h
    obtain ⟨hu, hv⟩ := Bool.and_eq_true_iff.mp hpair
    rw [utf16Decode, if_pos hpair, utf16Encode, flatMap_cons, utf16EncodeChar_pairScalar hu hv]
    exact congrArg ([u, v] ++ ·) (ih h)
  | case4 u v rest hpair ih =>
    rw [wellFormed, if_neg hpair, Bool.and_eq_true, Bool.not_eq_true'] at h
    rw [utf16Decode, if_neg hpair, utf16Encode, flatMap_cons, utf16EncodeChar_unitScalar h.1]
    exact congrArg ([u] ++ ·) (ih h.2)

/-- The one or two code units of a scalar value. -/
theorem utf16EncodeChar_cases (c : Char) :
    (∃ u, utf16EncodeChar c = [u] ∧ (isLead u || isTrail u) = false ∧ unitScalar u = c) ∨
      ∃ u v, utf16EncodeChar c = [u, v] ∧ isLead u ∧ isTrail v ∧ pairScalar u v = c := by
  have hc := char_cases c
  rw [utf16EncodeChar]
  split
  · next hlt =>
    have hval : (UInt16.ofNat c.toNat).toNat = c.toNat := by simp; omega
    have hplain : (isLead (UInt16.ofNat c.toNat) || isTrail (UInt16.ofNat c.toNat)) = false := by
      simp only [isLead, isTrail, hval, Bool.or_eq_false_iff, Bool.and_eq_false_iff,
        decide_eq_false_iff_not]
      omega
    refine Or.inl ⟨_, rfl, hplain, char_eq_of_toNat ?_⟩
    rw [toNat_unitScalar hplain, hval]
  · next hge =>
    have hval1 : (UInt16.ofNat (0xD800 + (c.toNat - 0x10000) / 0x400)).toNat =
        0xD800 + (c.toNat - 0x10000) / 0x400 := by simp; omega
    have hval2 : (UInt16.ofNat (0xDC00 + (c.toNat - 0x10000) % 0x400)).toNat =
        0xDC00 + (c.toNat - 0x10000) % 0x400 := by simp; omega
    have hlead : isLead (UInt16.ofNat (0xD800 + (c.toNat - 0x10000) / 0x400)) := by
      simp only [isLead, hval1, Bool.and_eq_true, decide_eq_true_eq]; omega
    have htrail : isTrail (UInt16.ofNat (0xDC00 + (c.toNat - 0x10000) % 0x400)) := by
      simp only [isTrail, hval2, Bool.and_eq_true, decide_eq_true_eq]; omega
    refine Or.inr ⟨_, _, rfl, hlead, htrail, char_eq_of_toNat ?_⟩
    rw [toNat_pairScalar hlead htrail, hval1, hval2]
    omega

/-- An unpaired code unit in front is read on its own. -/
theorem utf16Decode_cons_of_plain (h : (isLead u || isTrail u) = false) (rest : List UInt16) :
    utf16Decode (u :: rest) = unitScalar u :: utf16Decode rest := by
  have hu : isLead u = false := (Bool.or_eq_false_iff.mp h).1
  cases rest with
  | nil => rfl
  | cons v rest => rw [utf16Decode, if_neg (by simp [hu])]

theorem plain_of_ascii (h : u.toNat ≤ 0x7f) : (isLead u || isTrail u) = false := by
  simp only [isLead, isTrail, Bool.or_eq_false_iff, Bool.and_eq_false_iff, decide_eq_false_iff_not]
  omega

/-- An unpaired code unit is read apart from what is in front of it. -/
theorem utf16Decode_append_of_plain (h : (isLead u || isTrail u) = false)
    (front rest : List UInt16) :
    utf16Decode (front ++ u :: rest) = utf16Decode front ++ utf16Decode (u :: rest) := by
  have htrail : isTrail u = false := (Bool.or_eq_false_iff.mp h).2
  induction front using utf16Decode.induct with
  | case1 => rfl
  | case2 v =>
    have hpair : ¬(isLead v && isTrail u) = true := by simp [htrail]
    exact if_neg hpair
  | case3 v w front hpair ih =>
    rw [cons_append, cons_append, utf16Decode, if_pos hpair, ih, utf16Decode, if_pos hpair,
      cons_append]
  | case4 v w front hpair ih =>
    rw [cons_append, cons_append, utf16Decode, if_neg hpair, ← cons_append, ih, utf16Decode,
      if_neg hpair, cons_append]

theorem wellFormed_cons_of_plain (h : (isLead u || isTrail u) = false) (rest : List UInt16) :
    wellFormed (u :: rest) = wellFormed rest := by
  have hu : isLead u = false := (Bool.or_eq_false_iff.mp h).1
  cases rest with
  | nil => simp [wellFormed, h]
  | cons v rest => rw [wellFormed, if_neg (by simp [hu]), h]; simp

/-- Scalar values are read back from their code units, which are well formed. -/
theorem utf16Decode_utf16Encode (cs : List Char) :
    utf16Decode (utf16Encode cs) = cs ∧ wellFormed (utf16Encode cs) := by
  induction cs with
  | nil => exact ⟨rfl, rfl⟩
  | cons c cs ih =>
    rw [utf16Encode, flatMap_cons, ← utf16Encode]
    rcases utf16EncodeChar_cases c with ⟨u, he, hu, hc⟩ | ⟨u, v, he, hu, hv, hc⟩
    · rw [he, singleton_append, utf16Decode_cons_of_plain hu, wellFormed_cons_of_plain hu,
        ih.1, hc]
      exact ⟨rfl, ih.2⟩
    · rw [he, cons_append, singleton_append, utf16Decode, wellFormed,
        if_pos (by simp [hu, hv]), if_pos (by simp [hu, hv]), ih.1, hc]
      exact ⟨rfl, ih.2⟩

/-! ## UTF-8 -/

/-- Strict decoding of the bytes of scalar values. -/
theorem utf8Decode?_flatMap (cs : List Char) :
    utf8Decode? (cs.flatMap String.utf8EncodeChar) = some (utf16Encode cs) := by
  have h : (cs.flatMap String.utf8EncodeChar).toByteArray = cs.utf8Encode := rfl
  rw [utf8Decode?, h, List.utf8Decode?_utf8Encode]
  rfl

/-- **A well-formed string is read back from its UTF-8 bytes.** -/
theorem utf8Decode?_utf8Encode (h : wellFormed s) : utf8Decode? (utf8Encode s) = some s := by
  rw [utf8Encode, utf8Decode?_flatMap, utf16Encode_utf16Decode h]

/-- **What the strict decoder accepts is the encoding of what it returns**, which is well formed. -/
theorem utf8Encode_of_utf8Decode? {bytes : List UInt8} (h : utf8Decode? bytes = some s) :
    utf8Encode s = bytes ∧ wellFormed s := by
  obtain ⟨cs, hcs, rfl⟩ := Option.map_eq_some_iff.mp h
  have hsome : bytes.toByteArray.utf8Decode?.isSome := by rw [hcs]; rfl
  have hget : bytes.toByteArray.utf8Decode?.get hsome = cs := by simp [hcs]
  have hround := ByteArray.utf8Encode_get_utf8Decode? (b := bytes.toByteArray) (h := hsome)
  rw [hget] at hround
  obtain ⟨hdec, hwf⟩ := utf16Decode_utf16Encode cs.toList
  refine ⟨?_, hwf⟩
  rw [utf8Encode, hdec]
  exact toByteArray_inj.mp hround

/-- A string with the replacement character for every unpaired surrogate. -/
def repair (s : List UInt16) : List UInt16 := utf16Encode (utf16Decode s)

theorem wellFormed_repair (s : List UInt16) : wellFormed (repair s) :=
  (utf16Decode_utf16Encode _).2

/-- The encoder repairs the string. -/
theorem utf8Encode_repair (s : List UInt16) : utf8Encode (repair s) = utf8Encode s := by
  rw [utf8Encode, repair, (utf16Decode_utf16Encode _).1, utf8Encode]

/-- Two encodings that continue from a scalar value each start with the same scalar value when the
bytes agree. -/
theorem eq_of_utf8EncodeChar_append {c d : Char} {xs ys : List UInt8}
    (h : String.utf8EncodeChar c ++ xs = String.utf8EncodeChar d ++ ys) : c = d := by
  have hread (e : Char) (zs : List UInt8) :
      (String.utf8EncodeChar e ++ zs).toByteArray.utf8DecodeChar? 0 = some e := by
    rw [toByteArray_append]
    exact ByteArray.utf8DecodeChar?_utf8EncodeChar_append
  have hc := hread c xs
  rw [h, hread d ys] at hc
  exact (Option.some.inj hc).symm

/-! ## Lengths -/

theorem utf8Size_replacementChar : replacementChar.utf8Size = 3 := by decide

theorem length_utf8EncodeChar_unitScalar (u : UInt16) :
    (String.utf8EncodeChar (unitScalar u)).length = 1 ↔ u.toNat < 0x80 := by
  rw [String.length_utf8EncodeChar]
  by_cases h : (isLead u || isTrail u) = false
  · rw [Char.utf8Size_eq_one_iff, UInt32.le_iff_toNat_le]
    change (unitScalar u).toNat ≤ 127 ↔ _
    rw [toNat_unitScalar h]
    omega
  · rw [unitScalar, if_pos (Bool.not_eq_false _ ▸ h), utf8Size_replacementChar]
    simp only [isLead, isTrail, Bool.not_eq_false, Bool.or_eq_true, Bool.and_eq_true,
      decide_eq_true_eq] at h
    omega

theorem length_utf8EncodeChar_pairScalar (hu : isLead u) (hv : isTrail v) :
    (String.utf8EncodeChar (pairScalar u v)).length = 4 := by
  rw [String.length_utf8EncodeChar, Char.utf8Size_eq_four_iff, UInt32.lt_iff_toNat_lt]
  change 0xffff < (pairScalar u v).toNat
  rw [toNat_pairScalar hu hv]
  omega

/-- A string has at most as many code units as bytes, and as many exactly when it is ASCII. -/
theorem length_utf8Encode (s : List UInt16) :
    s.length ≤ (utf8Encode s).length ∧ ((utf8Encode s).length = s.length ↔ Ascii s) := by
  induction s using utf16Decode.induct with
  | case1 => simp [utf8Encode, utf16Decode, Ascii]
  | case2 u =>
    have hu := length_utf8EncodeChar_unitScalar u
    have hpos : 0 < (String.utf8EncodeChar (unitScalar u)).length := by
      rw [String.length_utf8EncodeChar]; exact Char.utf8Size_pos _
    simp only [utf8Encode, utf16Decode, flatMap_cons, flatMap_nil, append_nil,
      length_singleton, Ascii, mem_singleton, forall_eq]
    omega
  | case3 u v rest hpair ih =>
    obtain ⟨hu, hv⟩ := Bool.and_eq_true_iff.mp hpair
    have h4 := length_utf8EncodeChar_pairScalar hu hv
    have hnot : ¬ Ascii (u :: v :: rest) := by
      intro hall
      have := hall u (by simp)
      simp only [isLead, Bool.and_eq_true, decide_eq_true_eq] at hu
      omega
    have hlen := ih.1
    simp only [utf8Encode] at hlen ⊢
    rw [utf16Decode, if_pos hpair, flatMap_cons, length_append, h4]
    simp only [length_cons, hnot, iff_false]
    omega
  | case4 u v rest hpair ih =>
    have hu := length_utf8EncodeChar_unitScalar u
    have hpos : 0 < (String.utf8EncodeChar (unitScalar u)).length := by
      rw [String.length_utf8EncodeChar]; exact Char.utf8Size_pos _
    have hcons : Ascii (u :: v :: rest) ↔ u.toNat < 0x80 ∧ Ascii (v :: rest) := by
      simp [Ascii]
    obtain ⟨hle, hiff⟩ := ih
    simp only [utf8Encode] at hle hiff ⊢
    rw [utf16Decode, if_neg hpair, flatMap_cons, length_append, hcons, ← hiff, ← hu]
    simp only [length_cons] at hle ⊢
    omega

theorem length_le_length_utf8Encode (s : List UInt16) : s.length ≤ (utf8Encode s).length :=
  (length_utf8Encode s).1

theorem length_utf8Encode_eq_iff (s : List UInt16) : (utf8Encode s).length = s.length ↔ Ascii s :=
  (length_utf8Encode s).2

/-- An ASCII string has no surrogates. -/
theorem wellFormed_of_ascii (h : Ascii s) : wellFormed s := by
  induction s with
  | nil => rfl
  | cons u s ih =>
    have hu : u.toNat < 0x80 := h u (by simp)
    have hplain : (isLead u || isTrail u) = false := by
      simp only [isLead, isTrail, Bool.or_eq_false_iff, Bool.and_eq_false_iff,
        decide_eq_false_iff_not]
      omega
    rw [wellFormed_cons_of_plain hplain]
    exact ih fun v hv => h v (by simp [hv])

end Unicode
