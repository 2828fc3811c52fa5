import FengShui.Core.TupleProgress

/-!
# Reads from a view (`core/tuples.dart`)

`tupleReadString` and `tupleReadBinary` take the bytes of their value from the memory under the view
they are given, from the view's place in it on, and not from the view. `confined_iff` says for which
memories that cannot be told.
-/

namespace FengShui

open ByteString

/-- A view of a memory, with the `ByteData` that is passed with it: it starts at the same place, and
has the length of the view or, as `ByteData.view(buffer.buffer, buffer.offsetInBytes)`, goes on
behind it. -/
structure TupleView where
  memory : Uint8List
  offsetInBytes : ℕ
  length : ℕ
  dataLength : ℕ
  covers : length ≤ dataLength
  within : offsetInBytes + dataLength ≤ memory.length

namespace TupleView

def data (view : TupleView) : Uint8List :=
  (view.memory.drop view.offsetInBytes).take view.dataLength

/-- What the view shows. -/
def bytes (view : TupleView) : Uint8List := (view.memory.drop view.offsetInBytes).take view.length

/-- `innerBuffer.asUint8List(offsetInBytes + offset, length)`, and the offset behind it. -/
def readView (length : ℕ) (view : TupleView) (offset : ℕ) :
    Except DartException (Uint8List × ℕ) := do
  let value ← sublist view.memory (view.offsetInBytes + offset : ℕ)
    (view.offsetInBytes + offset + length : ℕ)
  return (value, offset + length)

def readSized (width : ℕ) (view : TupleView) (offset : ℕ) :
    Except DartException (Uint8List × ℕ) := do
  let length ← getNumber width view.data (offset + 1)
  view.readView length (offset + 1 + width)

def tupleReadString (view : TupleView) (offset : ℕ) :
    Except DartException (Option DartString × ℕ) := do
  let byte ← getNumber 1 view.data offset
  if byte = 0xc0 then return (none, offset + 1)
  else if byte &&& 0xE0 = 0xA0 then convert (view.readView (byte &&& 0x1F) (offset + 1))
  else if byte = 0xd9 then convert (view.readSized 1 offset)
  else if byte = 0xda then convert (view.readSized 2 offset)
  else if byte = 0xdb then convert (view.readSized 4 offset)
  else throw .formatException

def tupleReadBinary (view : TupleView) (offset : ℕ) : Except DartException (Uint8List × ℕ) := do
  let byte ← getNumber 1 view.data offset
  if byte = 0xc4 then view.readSized 1 offset
  else if byte = 0xc0 then view.readView 0 (offset + 1)
  else if byte = 0xc5 then view.readSized 2 offset
  else if byte = 0xc6 then view.readSized 4 offset
  else throw .formatException

end TupleView

/-! ## What a header declares -/

/-- The extent of a value whose length is in this many bytes behind the header. -/
def sizedExtent (width : ℕ) (data : Uint8List) (offset : ℕ) : Option (ℕ × ℕ) :=
  if offset + 1 + width ≤ data.length then
    some (offset + 1 + width, offset + 1 + width + numberAt width data (offset + 1))
  else none

/-- From where to where the header at an offset declares that its value goes. -/
def extent (inline : ℕ → Option ℕ) (short medium long : ℕ) (data : Uint8List) (offset : ℕ) :
    Option (ℕ × ℕ) :=
  if offset < data.length then
    let header := numberAt 1 data offset
    match inline header with
    | some length => some (offset + 1, offset + 1 + length)
    | none =>
      if header = short then sizedExtent 1 data offset
      else if header = medium then sizedExtent 2 data offset
      else if header = long then sizedExtent 4 data offset
      else none
  else none

section Extent

variable {inline : ℕ → Option ℕ} {short medium long : ℕ} {data : Uint8List} {offset start stop : ℕ}

theorem extent_eq_some (hne : medium ≠ short ∧ long ≠ short ∧ long ≠ medium) :
    extent inline short medium long data offset = some (start, stop) ↔
      offset < data.length ∧
        ((∃ length, inline (numberAt 1 data offset) = some length ∧ start = offset + 1 ∧
            stop = offset + 1 + length) ∨
          inline (numberAt 1 data offset) = none ∧
            (numberAt 1 data offset = short ∧ sizedExtent 1 data offset = some (start, stop) ∨
              numberAt 1 data offset = medium ∧ sizedExtent 2 data offset = some (start, stop) ∨
              numberAt 1 data offset = long ∧ sizedExtent 4 data offset = some (start, stop))) := by
  unfold extent
  by_cases hlt : offset < data.length
  · rw [if_pos hlt]
    dsimp only
    cases inline (numberAt 1 data offset) with
    | some length =>
      dsimp only
      constructor
      · rintro ⟨⟩
        exact ⟨hlt, .inl ⟨length, rfl, rfl, rfl⟩⟩
      · rintro ⟨-, ⟨_, ⟨⟩, rfl, rfl⟩ | ⟨⟨⟩, -⟩⟩
        rfl
    | none =>
      dsimp only
      split_ifs with h₁ h₂ h₃
      all_goals grind
  · rw [if_neg hlt]
    constructor
    · rintro ⟨⟩
    · rintro ⟨h, -⟩
      exact absurd h hlt

theorem extent_eq_none (hne : medium ≠ short ∧ long ≠ short ∧ long ≠ medium)
    (h : extent inline short medium long data offset = none) (hlt : offset < data.length) :
    inline (numberAt 1 data offset) = none ∧
      (numberAt 1 data offset = short → sizedExtent 1 data offset = none) ∧
      (numberAt 1 data offset = medium → sizedExtent 2 data offset = none) ∧
      (numberAt 1 data offset = long → sizedExtent 4 data offset = none) := by
  have hsome (extents : ℕ × ℕ) : extent inline short medium long data offset ≠ some extents := by
    rw [h]
    rintro ⟨⟩
  have hinline : inline (numberAt 1 data offset) = none := by
    apply Option.eq_none_iff_forall_ne_some.mpr
    intro length hlen
    exact hsome _ ((extent_eq_some hne).mpr ⟨hlt, .inl ⟨length, hlen, rfl, rfl⟩⟩)
  refine ⟨hinline, ?_, ?_, ?_⟩
  · intro hshort
    apply Option.eq_none_iff_forall_ne_some.mpr
    intro extents hsized
    exact hsome extents ((extent_eq_some hne).mpr ⟨hlt, .inr ⟨hinline, .inl ⟨hshort, hsized⟩⟩⟩)
  · intro hmedium
    apply Option.eq_none_iff_forall_ne_some.mpr
    intro extents hsized
    exact hsome extents
      ((extent_eq_some hne).mpr ⟨hlt, .inr ⟨hinline, .inr (.inl ⟨hmedium, hsized⟩)⟩⟩)
  · intro hlong
    apply Option.eq_none_iff_forall_ne_some.mpr
    intro extents hsized
    exact hsome extents
      ((extent_eq_some hne).mpr ⟨hlt, .inr ⟨hinline, .inr (.inr ⟨hlong, hsized⟩)⟩⟩)

theorem numberAt_take {width count : ℕ} (h : offset + width ≤ count) :
    numberAt width (data.take count) offset = numberAt width data offset := by
  rw [numberAt, numberAt, List.drop_take, List.take_take, Nat.min_eq_left (by omega)]

/-- An extent that ends in a part of the data is told by that part. -/
theorem sizedExtent_take {width count : ℕ} (h : stop ≤ count) :
    sizedExtent width (data.take count) offset = some (start, stop) ↔
      sizedExtent width data offset = some (start, stop) := by
  unfold sizedExtent
  rw [List.length_take]
  by_cases hcount : offset + 1 + width ≤ count
  · rw [numberAt_take hcount]
    by_cases hle : offset + 1 + width ≤ data.length
    · rw [if_pos (le_min hcount hle), if_pos hle]
    · rw [if_neg fun hmin => hle (hmin.trans (min_le_right _ _)), if_neg hle]
  · rw [if_neg fun hmin => hcount (hmin.trans (min_le_left _ _))]
    constructor
    · rintro ⟨⟩
    · intro hsome
      split_ifs at hsome
      cases hsome
      omega

theorem lt_of_extent (hne : medium ≠ short ∧ long ≠ short ∧ long ≠ medium)
    (h : extent inline short medium long data offset = some (start, stop)) : offset < stop := by
  have hsized {width : ℕ} (h : sizedExtent width data offset = some (start, stop)) :
      offset < stop := by
    unfold sizedExtent at h
    split_ifs at h
    cases h
    omega
  obtain ⟨-, ⟨length, -, rfl, rfl⟩ | ⟨-, ⟨-, h⟩ | ⟨-, h⟩ | ⟨-, h⟩⟩⟩ := (extent_eq_some hne).mp h
  · omega
  · exact hsized h
  · exact hsized h
  · exact hsized h

theorem extent_take {count : ℕ} (hne : medium ≠ short ∧ long ≠ short ∧ long ≠ medium)
    (h : stop ≤ count) :
    extent inline short medium long (data.take count) offset = some (start, stop) ↔
      extent inline short medium long data offset = some (start, stop) := by
  by_cases hlt : offset < count
  · have hlen : offset < (data.take count).length ↔ offset < data.length := by
      rw [List.length_take]
      omega
    rw [extent_eq_some hne, extent_eq_some hne, numberAt_take hlt, sizedExtent_take h,
      sizedExtent_take h, sizedExtent_take h, hlen]
  · constructor
    · exact fun hextent => absurd ((lt_of_extent hne hextent).trans_le h) hlt
    · exact fun hextent => absurd ((lt_of_extent hne hextent).trans_le h) hlt

end Extent

/-- A string: short, or a null. -/
def inlineString (header : ℕ) : Option ℕ :=
  if header = 0xc0 then some 0
  else if 0xa0 ≤ header ∧ header < 0xc0 then some (header - 0xa0)
  else none

def stringExtent : Uint8List → ℕ → Option (ℕ × ℕ) := extent inlineString 0xd9 0xda 0xdb

def inlineBinary (header : ℕ) : Option ℕ := if header = 0xc0 then some 0 else none

def binaryExtent : Uint8List → ℕ → Option (ℕ × ℕ) := extent inlineBinary 0xc4 0xc5 0xc6

/-- Two calls return the same, or both throw. -/
def Alike {α : Type} : Except DartException α → Except DartException α → Prop
  | .ok value, .ok other => value = other
  | .error _, .error _ => True
  | .ok _, .error _ | .error _, .ok _ => False

def Throws {α : Type} (result : Except DartException α) : Prop := ∃ e, result = .error e

namespace TupleView

/-- The readers throw for what ends behind the view. -/
structure Refuses (view : TupleView) (offset : ℕ) : Prop where
  string : ∀ start stop, stringExtent view.data offset = some (start, stop) → view.length < stop →
    Throws (view.tupleReadString offset)
  binary : ∀ start stop, binaryExtent view.data offset = some (start, stop) → view.length < stop →
    Throws (view.tupleReadBinary offset)

/-- What is behind the views makes no difference, and is not read. -/
structure Confined (view other : TupleView) (offset : ℕ) : Prop where
  string : Alike (view.tupleReadString offset) (other.tupleReadString offset)
  binary : Alike (view.tupleReadBinary offset) (other.tupleReadBinary offset)
  refuses : view.Refuses offset ∧ other.Refuses offset

/-- What a header in the view declares ends in the view, or behind the memory; or it is no
string. -/
structure Encloses (view : TupleView) (offset : ℕ) : Prop where
  string : ∀ start stop, stringExtent view.data offset = some (start, stop) →
    stop ≤ view.length ∨ view.memory.length < view.offsetInBytes + stop ∨
      Throws (utf8Decode ((view.memory.drop (view.offsetInBytes + start)).take (stop - start)))
  binary : ∀ start stop, binaryExtent view.data offset = some (start, stop) →
    stop ≤ view.length ∨ view.memory.length < view.offsetInBytes + stop

/-! ## The readers by the extent -/

variable {view other : TupleView} {offset start stop : ℕ}

/-- The value of an extent. -/
def value (view : TupleView) (start stop : ℕ) : Uint8List :=
  (view.memory.drop (view.offsetInBytes + start)).take (stop - start)

theorem length_bytes (view : TupleView) : view.bytes.length = view.length := by
  rw [bytes, List.length_take, List.length_drop]
  have hwithin := view.within
  have hcovers := view.covers
  omega

theorem bytes_eq (view : TupleView) : view.bytes = view.data.take view.length := by
  rw [bytes, data, List.take_take, Nat.min_eq_left view.covers]

theorem readView_ok {length : ℕ} (h : view.offsetInBytes + (start + length) ≤ view.memory.length) :
    view.readView length start = .ok (view.value start (start + length), start + length) := by
  unfold readView value
  rw [sublist_ok view.memory
    (by omega) (by omega), Nat.add_sub_cancel_left, Nat.add_sub_cancel_left]
  rfl

theorem readView_error {length : ℕ}
    (h : view.memory.length < view.offsetInBytes + (start + length)) :
    view.readView length start = .error .rangeError := by
  unfold readView
  rw [sublist_error (.inr (.inr (by omega)))]
  rfl

theorem readSized_of_extent {width : ℕ}
    (h : sizedExtent width view.data offset = some (start, stop)) :
    start ≤ stop ∧ view.readSized width offset = view.readView (stop - start) start := by
  unfold sizedExtent at h
  split_ifs at h with hle
  cases h
  constructor
  · omega
  · unfold readSized
    rw [getNumber_eq hle, Nat.add_sub_cancel_left]
    rfl

theorem readSized_of_none {width : ℕ} (h : sizedExtent width view.data offset = none) :
    view.readSized width offset = .error .rangeError := by
  unfold sizedExtent at h
  split_ifs at h with hle
  unfold readSized getNumber
  rw [sublist_error (.inr (.inr (by omega)))]
  rfl

/-- The headers of a short string. -/
theorem short_string : ∀ header < 256, header &&& 0xE0 = 0xA0 ↔ 0xa0 ≤ header ∧ header < 0xc0 := by
  decide +kernel

theorem length_of_short_string : ∀ header < 256, header &&& 0xE0 = 0xA0 →
    header &&& 0x1F = header - 0xa0 := by
  decide +kernel

/-- A string that is not a null goes through the decoder. -/
theorem tupleReadString_of_extent (h : stringExtent view.data offset = some (start, stop)) :
    start ≤ stop ∧ view.tupleReadString offset =
      if numberAt 1 view.data offset = 0xc0 then .ok (none, offset + 1)
      else convert (view.readView (stop - start) start) := by
  obtain ⟨hlt, hcases⟩ := (extent_eq_some (by decide)).mp h
  have hhdr := numberAt_one_lt view.data offset
  unfold tupleReadString
  rw [getNumber_eq hlt]
  show _ ∧ (if numberAt 1 view.data offset = 0xc0 then _ else _) = _
  generalize numberAt 1 view.data offset = header at hcases hhdr
  by_cases hnull : header = 0xc0
  · rw [if_pos hnull, if_pos hnull]
    rcases hcases with ⟨length, -, rfl, rfl⟩ | ⟨hinline, -⟩
    · exact ⟨Nat.le_add_right _ _, rfl⟩
    · rw [hnull] at hinline
      cases hinline
  rw [if_neg hnull, if_neg hnull]
  rcases hcases with ⟨length, hinline, rfl, rfl⟩ | ⟨hinline, hcases⟩
  · unfold inlineString at hinline
    rw [if_neg hnull] at hinline
    split_ifs at hinline with hrange
    obtain rfl := Option.some.inj hinline
    have hshort := (short_string header hhdr).mpr hrange
    rw [if_pos hshort, length_of_short_string header hhdr hshort, Nat.add_sub_cancel_left]
    exact ⟨Nat.le_add_right _ _, rfl⟩
  · rcases hcases with ⟨rfl, hsized⟩ | ⟨rfl, hsized⟩ | ⟨rfl, hsized⟩
    · obtain ⟨hle, hread⟩ := readSized_of_extent hsized
      exact ⟨hle, congrArg convert hread⟩
    · obtain ⟨hle, hread⟩ := readSized_of_extent hsized
      exact ⟨hle, congrArg convert hread⟩
    · obtain ⟨hle, hread⟩ := readSized_of_extent hsized
      exact ⟨hle, congrArg convert hread⟩

theorem tupleReadBinary_of_extent (h : binaryExtent view.data offset = some (start, stop)) :
    start ≤ stop ∧ view.tupleReadBinary offset = view.readView (stop - start) start := by
  obtain ⟨hlt, hcases⟩ := (extent_eq_some (by decide)).mp h
  unfold tupleReadBinary
  rw [getNumber_eq hlt]
  show _ ∧ (if numberAt 1 view.data offset = 0xc4 then _ else _) = _
  generalize numberAt 1 view.data offset = header at hcases
  rcases hcases with ⟨length, hinline, rfl, rfl⟩ | ⟨hinline, hcases⟩
  · unfold inlineBinary at hinline
    split_ifs at hinline with hnull
    cases hinline
    subst hnull
    rw [if_neg (by decide), if_pos rfl, Nat.add_sub_cancel_left]
    exact ⟨Nat.le_refl _, rfl⟩
  · rcases hcases with ⟨rfl, hsized⟩ | ⟨rfl, hsized⟩ | ⟨rfl, hsized⟩
    · exact readSized_of_extent hsized
    · exact readSized_of_extent hsized
    · exact readSized_of_extent hsized

theorem stop_of_null (h : stringExtent view.data offset = some (start, stop))
    (hnull : numberAt 1 view.data offset = 0xc0) : stop = offset + 1 := by
  obtain ⟨-, ⟨length, hinline, -, rfl⟩ | ⟨hinline, -⟩⟩ := (extent_eq_some (by decide)).mp h
  · rw [hnull] at hinline
    cases hinline
    rfl
  · rw [hnull] at hinline
    cases hinline

/-- A header that is not one of a string, or cut off. -/
theorem tupleReadString_of_none (h : stringExtent view.data offset = none) :
    Throws (view.tupleReadString offset) := by
  unfold tupleReadString
  by_cases hlt : offset + 1 ≤ view.data.length
  · obtain ⟨hinline, hcases⟩ := extent_eq_none (by decide) h hlt
    have hhdr := numberAt_one_lt view.data offset
    rw [getNumber_eq hlt]
    show Throws (if numberAt 1 view.data offset = 0xc0 then _ else _)
    generalize numberAt 1 view.data offset = header at hinline hcases hhdr
    unfold inlineString at hinline
    split_ifs at hinline with hnull hrange
    rw [if_neg hnull, if_neg fun hshort => hrange ((short_string header hhdr).mp hshort)]
    obtain ⟨hshort, hmedium, hlong⟩ := hcases
    split_ifs with h₁ h₂ h₃
    · rw [readSized_of_none (hshort h₁)]
      exact ⟨_, rfl⟩
    · rw [readSized_of_none (hmedium h₂)]
      exact ⟨_, rfl⟩
    · rw [readSized_of_none (hlong h₃)]
      exact ⟨_, rfl⟩
    · exact ⟨_, rfl⟩
  · unfold getNumber
    rw [sublist_error (.inr (.inr (by omega)))]
    exact ⟨_, rfl⟩

theorem tupleReadBinary_of_none (h : binaryExtent view.data offset = none) :
    Throws (view.tupleReadBinary offset) := by
  unfold tupleReadBinary
  by_cases hlt : offset + 1 ≤ view.data.length
  · obtain ⟨hinline, hshort, hmedium, hlong⟩ := extent_eq_none (by decide) h hlt
    rw [getNumber_eq hlt]
    show Throws (if numberAt 1 view.data offset = 0xc4 then _ else _)
    generalize numberAt 1 view.data offset = header at hinline hshort hmedium hlong
    unfold inlineBinary at hinline
    split_ifs at hinline with hnull
    rw [if_neg hnull]
    split_ifs with h₁ h₂ h₃
    · rw [readSized_of_none (hshort h₁)]
      exact ⟨_, rfl⟩
    · rw [readSized_of_none (hmedium h₂)]
      exact ⟨_, rfl⟩
    · rw [readSized_of_none (hlong h₃)]
      exact ⟨_, rfl⟩
    · exact ⟨_, rfl⟩
  · unfold getNumber
    rw [sublist_error (.inr (.inr (by omega)))]
    exact ⟨_, rfl⟩

/-! ## Confinement -/

theorem alike_of_throws {α : Type} {result other : Except DartException α} (h : Throws result)
    (h' : Throws other) : Alike result other := by
  obtain ⟨e, rfl⟩ := h
  obtain ⟨e', rfl⟩ := h'
  exact trivial

theorem alike_refl {α : Type} (result : Except DartException α) : Alike result result := by
  cases result with
  | ok value => exact rfl
  | error e => exact trivial

theorem value_eq (h : stop ≤ view.length) :
    view.value start stop = (view.bytes.drop start).take (stop - start) := by
  rw [value, bytes, List.drop_take, List.take_take, List.drop_drop, Nat.min_eq_left (by omega)]

/-- An extent in a view is read alike from every memory. -/
theorem readView_congr (hbytes : view.bytes = other.bytes) (hle : start ≤ stop)
    (h : stop ≤ view.length) :
    view.readView (stop - start) start = other.readView (stop - start) start := by
  have hlen : view.length = other.length := by rw [← length_bytes, hbytes, length_bytes]
  have hstop : start + (stop - start) = stop := by omega
  have hview := view.within
  have hother := other.within
  have hcovers := view.covers
  have hcovers' := other.covers
  rw [readView_ok
    (by omega), readView_ok (by omega), hstop, value_eq h, value_eq (hlen ▸ h), hbytes]

/-- A reader that throws for what ends behind the view, or is no value at all. -/
theorem alike_of_refuses {α : Type} {read : TupleView → Except DartException α}
    {inline : ℕ → Option ℕ} {short medium long : ℕ}
    (hne : medium ≠ short ∧ long ≠ short ∧ long ≠ medium) (hbytes : view.bytes = other.bytes)
    (hinside : ∀ start stop, extent inline short medium long view.data offset = some (start, stop) →
      extent inline short medium long other.data offset = some (start, stop) → stop ≤ view.length →
        Alike (read view) (read other))
    (hnone : ∀ view : TupleView, extent inline short medium long view.data offset = none →
      Throws (read view))
    (hview : ∀ start stop, extent inline short medium long view.data offset = some (start, stop) →
      view.length < stop → Throws (read view))
    (hother : ∀ start stop, extent inline short medium long other.data offset = some (start, stop) →
      other.length < stop → Throws (read other)) : Alike (read view) (read other) := by
  have hlen : view.length = other.length := by rw [← length_bytes, hbytes, length_bytes]
  -- An extent that ends in the one view ends in the other.
  have hiff (start stop : ℕ) (hle : stop ≤ view.length) :
      extent inline short medium long view.data offset = some (start, stop) ↔
        extent inline short medium long other.data offset = some (start, stop) := by
    rw [← extent_take hne hle, ← bytes_eq, hbytes, bytes_eq, extent_take hne (hlen ▸ hle)]
  by_cases hends : ∃ start stop, extent inline short medium long view.data offset =
    some (start, stop) ∧
      stop ≤ view.length
  · obtain ⟨start, stop, hextent, hle⟩ := hends
    exact hinside start stop hextent ((hiff start stop hle).mp hextent) hle
  · apply alike_of_throws
    · cases hextent : extent inline short medium long view.data offset with
      | none => exact hnone view hextent
      | some ends =>
        apply hview ends.1 ends.2 hextent
        by_contra hle
        exact hends ⟨ends.1, ends.2, hextent, not_lt.mp hle⟩
    · cases hextent : extent inline short medium long other.data offset with
      | none => exact hnone other hextent
      | some ends =>
        apply hother ends.1 ends.2 hextent
        by_contra hle
        have hends' : ends.2 ≤ view.length := hlen.symm ▸ not_lt.mp hle
        exact hends ⟨ends.1, ends.2, (hiff ends.1 ends.2 hends').mpr hextent, hends'⟩

theorem throws_readView_iff (hle : start ≤ stop) :
    Throws (view.readView (stop - start) start) ↔
      view.memory.length < view.offsetInBytes + stop := by
  have hstop : start + (stop - start) = stop := by omega
  constructor
  · rintro ⟨e, h⟩
    by_contra hlt
    rw [readView_ok (by omega)] at h
    cases h
  · intro hlt
    rw [readView_error (by omega)]
    exact ⟨_, rfl⟩

theorem throws_convert_iff (hle : start ≤ stop) :
    Throws (convert (view.readView (stop - start) start)) ↔
      view.memory.length < view.offsetInBytes + stop ∨
        Throws (utf8Decode (view.value start stop)) := by
  have hstop : start + (stop - start) = stop := by omega
  by_cases hlt : view.memory.length < view.offsetInBytes + stop
  · rw [readView_error (by omega)]
    exact ⟨fun _ => .inl hlt, fun _ => ⟨_, rfl⟩⟩
  · rw [readView_ok (by omega), hstop, or_iff_right hlt]
    show Throws (utf8Decode (view.value start stop) >>= fun value => pure (some value, stop)) ↔ _
    cases utf8Decode (view.value start stop) with
    | ok value => exact ⟨fun ⟨_, h⟩ => (by cases h), fun ⟨_, h⟩ => (by cases h)⟩
    | error e => exact ⟨fun _ => ⟨e, rfl⟩, fun _ => ⟨e, rfl⟩⟩

/-- The readers refuse just what does not end in the view. -/
theorem refuses_iff (hoff : offset < view.length) : view.Refuses offset ↔ view.Encloses offset := by
  have hstr {start stop : ℕ} (h : stringExtent view.data offset = some (start, stop))
      (hlt : view.length < stop) : Throws (view.tupleReadString offset) ↔
        view.memory.length < view.offsetInBytes + stop ∨
            Throws (utf8Decode (view.value start stop)) := by
    obtain ⟨hle, hread⟩ := tupleReadString_of_extent h
    have hnull : numberAt 1 view.data offset ≠ 0xc0 := by
      intro hnull
      have hstop := stop_of_null h hnull
      omega
    rw [hread, if_neg hnull]
    exact throws_convert_iff hle
  have hbinary {start stop : ℕ} (h : binaryExtent view.data offset = some (start, stop)) :
      Throws (view.tupleReadBinary offset) ↔ view.memory.length < view.offsetInBytes + stop := by
    obtain ⟨hle, hread⟩ := tupleReadBinary_of_extent h
    rw [hread]
    exact throws_readView_iff hle
  constructor
  · intro h
    constructor
    · intro start stop hextent
      by_cases hle : stop ≤ view.length
      · exact .inl hle
      · exact .inr ((hstr hextent (not_le.mp hle)).mp (h.string start stop hextent (not_le.mp hle)))
    · intro start stop hextent
      by_cases hle : stop ≤ view.length
      · exact .inl hle
      · exact .inr ((hbinary hextent).mp (h.binary start stop hextent (not_le.mp hle)))
  · intro h
    constructor
    · intro start stop hextent hlt
      apply (hstr hextent hlt).mpr
      exact (h.string start stop hextent).resolve_left (not_le.mpr hlt)
    · intro start stop hextent hlt
      apply (hbinary hextent).mpr
      exact (h.binary start stop hextent).resolve_left (not_le.mpr hlt)

/-- Two views that show the same: the readers tell what is behind them just where one declares more
than it has, and the memory has that. -/
theorem confined_iff (hbytes : view.bytes = other.bytes) (hoffset : offset < view.length) :
    Confined view other offset ↔ view.Encloses offset ∧ other.Encloses offset := by
  have hlength : view.length = other.length := by rw [← length_bytes, hbytes, length_bytes]
  have hiff : view.Refuses offset ∧ other.Refuses offset ↔
    view.Encloses offset ∧ other.Encloses offset :=
    and_congr (refuses_iff hoffset) (refuses_iff (hlength ▸ hoffset))
  constructor
  · exact fun h => hiff.mp h.refuses
  · intro h
    obtain ⟨hview, hother⟩ := hiff.mpr h
    refine ⟨?_, ?_, hview, hother⟩
    · apply alike_of_refuses
        (by decide) hbytes _ (fun _ => tupleReadString_of_none) hview.string hother.string
      intro start stop hextent hextent' hle
      obtain ⟨horder, hread⟩ := tupleReadString_of_extent hextent
      obtain ⟨-, hread'⟩ := tupleReadString_of_extent hextent'
      have hheader : numberAt 1 view.data offset = numberAt 1 other.data offset := by
        rw [← numberAt_take (show offset + 1 ≤ view.length from hoffset), ← bytes_eq,
          hbytes, bytes_eq, numberAt_take (show offset + 1 ≤ other.length from hlength ▸ hoffset)]
      rw [hread, hread', hheader, readView_congr hbytes horder hle]
      exact alike_refl _
    · apply alike_of_refuses
        (by decide) hbytes _ (fun _ => tupleReadBinary_of_none) hview.binary hother.binary
      intro start stop hextent hextent' hle
      obtain ⟨horder, hread⟩ := tupleReadBinary_of_extent hextent
      obtain ⟨-, hread'⟩ := tupleReadBinary_of_extent hextent'
      rw [hread, hread', readView_congr hbytes horder hle]
      exact alike_refl _

/-- The header of one byte, in a view that ends in front of it. -/
def binaryOf (byte : UInt8) : TupleView := ⟨[0xc4, 1, byte], 0, 2, 2, le_refl 2, Nat.le_succ 2⟩

/-- The readers tell what is behind the headers. -/
theorem confined_iff_binary : Confined (binaryOf 7) (binaryOf 8) 0 ↔
    (binaryOf 7).Encloses 0 ∧ (binaryOf 8).Encloses 0 :=
  confined_iff rfl Nat.two_pos

theorem not_confined : ¬∀ (view other : TupleView) (offset : ℕ), view.bytes = other.bytes →
    offset < view.length → Confined view other offset := by
  intro h
  have hbinary := (h (binaryOf 7) (binaryOf 8) 0 rfl Nat.two_pos).binary
  have hvalue : ([7] : Uint8List) = [8] := congrArg Prod.fst hbinary
  cases hvalue

end TupleView

end FengShui
