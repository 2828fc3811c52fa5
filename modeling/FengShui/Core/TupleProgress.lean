import FengShui.Core.TupleReads
import FengShui.Lib.MessagePack

/-!
# Readers that move forward

A reader that returns hands its caller the offset to go on from. All but those of lists and maps
return one behind the header they were called for, whatever it is (`lt_skip`). These two return a
null the other way round: the offset behind it as the length, and the start of the buffer to go on
from.
-/

namespace FengShui

open ByteString MessagePack

/-- Where the reader returns from the offset, it does so with a greater one. -/
def MovesOn {α : Type} (read : ℕ → Except DartException (α × ℕ)) (offset : ℕ) : Prop :=
  ∀ value stop, read offset = .ok (value, stop) → offset < stop

/-- It also returns this length. -/
def Counts (read : ℕ → Except DartException (ℕ × ℕ)) (offset announced : ℕ) : Prop :=
  ∀ length stop, read offset = .ok (length, stop) → offset < stop ∧ length = announced

/-- Every reader moves on, and the length of a list or a map is the one that its header
announces. -/
structure ReadersMoveOn (buffer : Uint8List) (offset : ℕ) : Prop where
  tupleReadBool : MovesOn (tupleReadBool buffer) offset
  tupleReadInt : MovesOn (tupleReadInt buffer) offset
  tupleReadDouble : MovesOn (tupleReadDouble buffer) offset
  tupleReadString : MovesOn (tupleReadString buffer) offset
  tupleReadBinary : MovesOn (tupleReadBinary buffer) offset
  tupleReadList : Counts (tupleReadList buffer) offset (arrayLength (buffer.drop offset))
  tupleReadMap : Counts (tupleReadMap buffer) offset (mapLength (buffer.drop offset))

section Header

variable {buffer : Uint8List} {offset : ℕ}

/-- A byte that is read is the first one from its offset on. -/
theorem exists_of_getNumber {header : ℕ} (h : getNumber 1 buffer offset = .ok header) :
    ∃ head, header = head.toNat ∧ buffer.drop offset = head :: buffer.drop (offset + 1) := by
  have hnum := getNumber_eq_ok h
  by_cases hlt : offset < buffer.length
  · refine ⟨buffer[offset], ?_, List.drop_eq_getElem_cons hlt⟩
    rw [hnum, numberAt, List.drop_eq_getElem_cons hlt]
    exact ofBytesBE_singleton _
  · unfold getNumber at h
    rw [sublist_error (.inr (.inr (by omega)))] at h
    cases h

/-- There are only zeros behind the end. -/
theorem lt_of_numberAt (h : numberAt 1 buffer offset ≠ 0) : offset < buffer.length := by
  by_contra hle
  apply h
  rw [numberAt, List.drop_of_length_le (by omega)]
  rfl

/-- The headers of a short list and a short map. -/
theorem short_of_list : ∀ header < 256, header &&& 0xF0 = 0x90 →
    header ≠ 0xdc ∧ header ≠ 0xdd ∧ 0x90 ≤ header ∧ header < 0x90 + 16 ∧
      header &&& 0xF = header - 0x90 := by
  decide +kernel

theorem short_of_map : ∀ header < 256, header &&& 0xF0 = 0x80 →
    header ≠ 0xde ∧ header ≠ 0xdf ∧ 0x80 ≤ header ∧ header < 0x80 + 16 ∧
      header &&& 0xF = header - 0x80 := by
  decide +kernel

variable {short medium long : ℕ}

/-- A header that is not a null. -/
theorem counts_tupleReadHeader
    (hshort : ∀ header < 256, header &&& 0xF0 = short → header ≠ medium ∧ header ≠ long ∧
      short ≤ header ∧ header < short + 16 ∧ header &&& 0xF = header - short)
    (hne : medium ≠ long) (hnull : numberAt 1 buffer offset ≠ 0xc0) :
    Counts (tupleReadHeader short medium long buffer) offset
      (containerLength short medium long (buffer.drop offset)) := by
  intro length stop h
  obtain ⟨header, hhdr, h⟩ := except_bind_eq_ok.mp h
  rw [← getNumber_eq_ok hhdr] at hnull
  obtain ⟨head, rfl, hdrop⟩ := exists_of_getNumber hhdr
  rw [hdrop]
  rw [if_neg hnull] at h
  split_ifs at h with h₁ h₂ h₃
  · obtain ⟨hmedium, hlong, hlow, hhigh, hlen⟩ := hshort _ head.toNat_lt h₁
    cases h
    rw [containerLength_short hmedium hlong hlow hhigh]
    exact ⟨by omega, hlen⟩
  · obtain ⟨number, hnum, h⟩ := except_bind_eq_ok.mp h
    cases h
    rw [containerLength_medium h₂]
    exact ⟨by omega, getNumber_eq_ok hnum⟩
  · obtain ⟨number, hnum, h⟩ := except_bind_eq_ok.mp h
    cases h
    rw [containerLength_long hne h₃]
    exact ⟨by omega, getNumber_eq_ok hnum⟩

/-- A null gives the offset for the length, and goes back to the start. -/
theorem tupleReadHeader_null (hshort : short ≠ 0xc0) (h : numberAt 1 buffer offset = 0xc0) :
    tupleReadHeader short medium long buffer offset = .ok (offset + 1, 0) := by
  have hlt : offset + 1 ≤ buffer.length := lt_of_numberAt (h.trans_ne (by decide))
  have hnum := getNumber_eq hlt
  unfold tupleReadHeader
  rw [hnum, h]
  show (if 0xc0 &&& 0xF0 = short then _ else _) = _
  rw [if_neg (show 0xc0 &&& 0xF0 ≠ short from hshort.symm)]
  rfl

theorem tupleReadList_null (h : numberAt 1 buffer offset = 0xc0) :
    tupleReadList buffer offset = .ok (offset + 1, 0) := tupleReadHeader_null (by decide) h

theorem tupleReadMap_null (h : numberAt 1 buffer offset = 0xc0) :
    tupleReadMap buffer offset = .ok (offset + 1, 0) := tupleReadHeader_null (by decide) h

theorem counts_tupleReadList (h : numberAt 1 buffer offset ≠ 0xc0) :
    Counts (tupleReadList buffer) offset (arrayLength (buffer.drop offset)) :=
  counts_tupleReadHeader short_of_list (by decide) h

theorem counts_tupleReadMap (h : numberAt 1 buffer offset ≠ 0xc0) :
    Counts (tupleReadMap buffer) offset (mapLength (buffer.drop offset)) :=
  counts_tupleReadHeader short_of_map (by decide) h

/-- Whatever is at the offset, unless it is a null. -/
theorem readersMoveOn_iff : ReadersMoveOn buffer offset ↔ numberAt 1 buffer offset ≠ 0xc0 := by
  constructor
  · intro h hnull
    obtain ⟨hlt, -⟩ := h.tupleReadList _ _ (tupleReadList_null hnull)
    exact absurd hlt (Nat.not_lt_zero offset)
  · intro h
    have hskip := lt_skip buffer offset
    exact
      { tupleReadBool := fun _ _ hread => tupleReadBool_skip hread ▸ hskip
        tupleReadInt := fun _ _ hread => tupleReadInt_skip hread ▸ hskip
        tupleReadDouble := fun _ _ hread => tupleReadDouble_skip hread ▸ hskip
        tupleReadString := fun _ _ hread => tupleReadString_skip hread ▸ hskip
        tupleReadBinary := fun _ _ hread => tupleReadBinary_skip hread ▸ hskip
        tupleReadList := counts_tupleReadList h
        tupleReadMap := counts_tupleReadMap h }

end Header

end FengShui
