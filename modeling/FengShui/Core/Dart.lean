import FengShui.Lib.Effect
import FengShui.Lib.Unicode

/-!
# The Dart types and library functions the packages use

Byte arrays are lists of bytes, strings are lists of UTF-16 code units, and integers are `ℕ` or `ℤ`
where the code keeps them in the 64-bit range. A function that may throw returns the exception.
-/

namespace FengShui

/-- `Uint8List` of `dart:typed_data`. -/
abbrev Uint8List := List UInt8

/-- `emptyBytes` of `core/constants.dart`. -/
abbrev emptyBytes : Uint8List := []

/-- A Dart `String`: its UTF-16 code units. -/
abbrev DartString := List UInt16

/-- The exceptions and errors that the modelled code raises. -/
inductive DartException where
  /-- An index or a length outside its range. -/
  | rangeError
  /-- Bytes that are not the encoding asked for. -/
  | formatException
  /-- A null or a value of another type where a type is required. -/
  | typeError
  /-- An operation that has no result, such as `double.infinity.ceil()`. -/
  | unsupportedError
  /-- A `late` field read before it is set, or set twice. -/
  | lateInitializationError
  /-- `ArgumentError` with its text. -/
  | argumentError (message : DartString)
  /-- `ReactiveException` of the reactive package. -/
  | reactiveException (code : ℕ) (content : DartString)
  /-- An exception of the application's own. -/
  | application
  deriving DecidableEq, Repr

/-- The code units of a string literal of the source. -/
def literal (s : String) : DartString := Unicode.utf16Encode s.toList

/-- `List.sublist(start, end)`, with the range check of the library. -/
def sublist {α : Type} (list : List α) (start stop : ℤ) : Except DartException (List α) :=
  if 0 ≤ start ∧ start ≤ stop ∧ stop ≤ list.length then
    .ok ((list.drop start.toNat).take (stop - start).toNat)
  else .error .rangeError

/-- `List.setRange(start, stop, values)`, with the range check of the library. -/
def setRange {α : Type} (list : List α) (start stop : ℕ) (values : List α) :
    Except DartException (List α) :=
  if start ≤ stop ∧ stop ≤ list.length ∧ stop - start ≤ values.length then
    .ok (list.take start ++ values.take (stop - start) ++ list.drop stop)
  else .error .rangeError

/-- The bytes of U+FEFF, which `utf8.decode` drops at the start of its input. -/
def byteOrderMark : Uint8List := [0xEF, 0xBB, 0xBF]

/-- The input without a leading byte order mark. -/
def skipBom (codeUnits : Uint8List) : Uint8List :=
  if byteOrderMark <+: codeUnits then codeUnits.drop 3 else codeUnits

/-- `utf8.encode`: an unpaired surrogate is written as U+FFFD. -/
def utf8Encode (string : DartString) : Uint8List := Unicode.utf8Encode string

/-- `utf8.decode`: strict, and without a leading byte order mark. -/
def utf8Decode (codeUnits : Uint8List) : Except DartException DartString :=
  match Unicode.utf8Decode? (skipBom codeUnits) with
  | some string => .ok string
  | none => .error .formatException

variable {α : Type} {s : DartString}

theorem sublist_ok (list : List α) {start stop : ℕ} (h : start ≤ stop) (hlen : stop ≤ list.length) :
    sublist list start stop = .ok ((list.drop start).take (stop - start)) := by
  rw [sublist, if_pos (by omega)]
  congr 2
  omega

theorem sublist_error {list : List α} {start stop : ℤ}
    (h : start < 0 ∨ stop < start ∨ list.length < stop) :
    sublist list start stop = .error .rangeError := by
  rw [sublist, if_neg (by omega)]

theorem length_of_setRange {list list' values : List α} {start stop : ℕ}
    (h : setRange list start stop values = .ok list') : list'.length = list.length := by
  unfold setRange at h
  split at h
  · rename_i hrange
    have hlist := Except.ok.inj h
    rw [← hlist, List.length_append, List.length_append, List.length_take, List.length_take,
      List.length_drop]
    omega
  · cases h

/-- Writing behind what is already there. -/
theorem setRange_append (front : List α) {values back : List α} (h : values.length ≤ back.length) :
    setRange (front ++ back) front.length (front.length + values.length) values =
      .ok (front ++ values ++ back.drop values.length) := by
  have hstop : front.length + values.length ≤ (front ++ back).length := by
    rw [List.length_append]
    omega
  rw [setRange, if_pos ⟨by omega, hstop, by omega⟩, Nat.add_sub_cancel_left, List.take_left,
    List.take_length, List.drop_append]
  simp

/-! ## `utf8.decode` after `utf8.encode` -/

/-- A string without its first code unit when that is U+FEFF. -/
def dropBom : DartString → DartString
  | [] => []
  | u :: rest => if u = 0xFEFF then rest else u :: rest

theorem bom_not_surrogate : (Unicode.isLead 0xFEFF || Unicode.isTrail 0xFEFF) = false := by decide

theorem dropBom_of_ascii (h : Unicode.Ascii s) : dropBom s = s := by
  cases s with
  | nil => rfl
  | cons u s =>
    rw [dropBom, if_neg]
    rintro rfl
    exact absurd (h 0xFEFF (by simp)) (by decide)

theorem utf8Encode_cons_of_ascii {codeUnit : UInt16} (h : codeUnit.toNat ≤ 0x7f)
    (rest : DartString) :
    utf8Encode (codeUnit :: rest) = [UInt8.ofNat codeUnit.toNat] ++ utf8Encode rest := by
  have hplain := Unicode.plain_of_ascii h
  have hscalar : (Unicode.unitScalar codeUnit).val.toNat = codeUnit.toNat :=
    Unicode.toNat_unitScalar hplain
  have hchar : String.utf8EncodeChar (Unicode.unitScalar codeUnit) =
      [UInt8.ofNat codeUnit.toNat] := by
    unfold String.utf8EncodeChar
    dsimp only
    rw [hscalar, if_pos h]
  unfold utf8Encode Unicode.utf8Encode
  rw [Unicode.utf16Decode_cons_of_plain hplain, List.flatMap_cons, hchar]

/-- An ASCII code unit ends what is in front of it. -/
theorem utf8Encode_append_of_ascii {codeUnit : UInt16} (h : codeUnit.toNat ≤ 0x7f)
    (front rest : DartString) :
    utf8Encode (front ++ codeUnit :: rest) = utf8Encode front ++ utf8Encode (codeUnit :: rest) := by
  have hplain := Unicode.plain_of_ascii h
  unfold utf8Encode Unicode.utf8Encode
  rw [Unicode.utf16Decode_append_of_plain hplain, List.flatMap_append]

/-- The byte order mark is the encoding of the one-unit string U+FEFF. -/
theorem utf8Encode_bom (rest : DartString) :
    utf8Encode (0xFEFF :: rest) = byteOrderMark ++ utf8Encode rest := by
  rw [utf8Encode, Unicode.utf8Encode, Unicode.utf16Decode_cons_of_plain bom_not_surrogate,
    List.flatMap_cons]
  rfl

/-- The encoding of a string starts with the byte order mark only when the string starts with
U+FEFF. -/
theorem bom_of_prefix (hs : Unicode.wellFormed s) (h : byteOrderMark <+: utf8Encode s) :
    ∃ rest, s = 0xFEFF :: rest := by
  obtain ⟨ys, hys⟩ := h
  have hs' := Unicode.utf16Encode_utf16Decode hs
  rw [utf8Encode, Unicode.utf8Encode] at hys
  cases hcs : Unicode.utf16Decode s with
  | nil => rw [hcs] at hys; cases hys
  | cons c cs =>
    rw [hcs, List.flatMap_cons] at hys
    have hbom : byteOrderMark = String.utf8EncodeChar (Unicode.unitScalar 0xFEFF) := by decide
    have hc : Unicode.unitScalar 0xFEFF = c := Unicode.eq_of_utf8EncodeChar_append (hbom ▸ hys)
    rw [hcs, Unicode.utf16Encode, List.flatMap_cons, ← hc,
      Unicode.utf16EncodeChar_unitScalar bom_not_surrogate] at hs'
    exact ⟨_, hs'.symm⟩

/-- `utf8.decode` reads a well-formed string back from its bytes, but for a leading U+FEFF. -/
theorem utf8Decode_utf8Encode (hs : Unicode.wellFormed s) :
    utf8Decode (utf8Encode s) = .ok (dropBom s) := by
  have hread {t : DartString} (ht : Unicode.wellFormed t) :
      Unicode.utf8Decode? (utf8Encode t) = some t := Unicode.utf8Decode?_utf8Encode ht
  by_cases hbom : byteOrderMark <+: utf8Encode s
  · obtain ⟨rest, rfl⟩ := bom_of_prefix hs hbom
    rw [Unicode.wellFormed_cons_of_plain bom_not_surrogate] at hs
    have hskip : skipBom (utf8Encode (0xFEFF :: rest)) = utf8Encode rest := by
      rw [skipBom, if_pos hbom, utf8Encode_bom]
      rfl
    rw [utf8Decode, hskip, hread hs]
    rfl
  · have hdrop : dropBom s = s := by
      cases s with
      | nil => rfl
      | cons u rest =>
        rw [dropBom, if_neg]
        rintro rfl
        exact hbom ⟨_, (utf8Encode_bom rest).symm⟩
    rw [utf8Decode, skipBom, if_neg hbom, hread hs, hdrop]

/-- `utf8.decode` accepts the bytes of every string. -/
theorem utf8Decode_utf8Encode_repair (s : DartString) :
    utf8Decode (utf8Encode s) = .ok (dropBom (Unicode.repair s)) := by
  rw [← utf8Decode_utf8Encode (Unicode.wellFormed_repair s), utf8Encode, utf8Encode,
    Unicode.utf8Encode_repair]

/-- What `utf8.decode` accepts is the encoding of what it returns, after an optional byte order
mark. -/
theorem utf8Encode_of_utf8Decode {bytes : Uint8List} (h : utf8Decode bytes = .ok s) :
    utf8Encode s = skipBom bytes := by
  unfold utf8Decode at h
  split at h
  · next t ht =>
    cases h
    exact (Unicode.utf8Encode_of_utf8Decode? ht).1
  · cases h

end FengShui
