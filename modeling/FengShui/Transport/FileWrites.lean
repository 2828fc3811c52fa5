import FengShui.Lib.FileBytes
import FengShui.Transport.Channel

/-!
# Batches of file writes (`transport/file/file.dart`, `transport/transport.c`)

`writeMany` hands one linked write for each list of bytes to the ring, each with its position in the
file. The loop moves the position by the size of a buffer, whatever the buffer holds:
`writeMany_iff` says of every batch that succeeds whether the file has the lists one behind the
other.
-/

namespace FengShui.Transport

open FengShui.FileBytes List

/-! ## The writes of a batch -/

/-- A submission queue entry of `transport_write`: the content of its buffer, the offset and whether
it has `IOSQE_IO_LINK`. -/
structure FileWrite where
  bytes : Uint8List
  offset : ℕ
  linked : Bool
  deriving DecidableEq, Repr

/-- `transport_write`, whose offset is a `uint32_t`. -/
def transportWrite (bytes : Uint8List) (linked : Bool) (offset : ℕ) : FileWrite :=
  ⟨bytes, offset % 2 ^ 32, linked⟩

namespace TransportFileChannel

/-- The loop of `writeMany`, and the write behind it. -/
def writes (size : ℕ) : List Uint8List → ℕ → List FileWrite
  | [], _ => []
  | [last], offset => [transportWrite last false offset]
  | first :: second :: bytes, offset =>
    transportWrite first true offset :: writes size (second :: bytes) (offset + size)

/-- `writeMany`: of no bytes there is no `last`. -/
def submitted (size : ℕ) (bytes : List Uint8List) (offset : ℕ) : Option (List FileWrite) :=
  if bytes.isEmpty then none else some (writes size bytes offset)

end TransportFileChannel

/-! ## What the kernel does -/

/-- `-ECANCELED`. -/
def canceled : ℤ := -125

/-- The results that the kernel may give to a chain: the length of a write, or less, and then what
is linked behind it is cancelled. -/
inductive Answers : List FileWrite → List ℤ → Prop
  | nil : Answers [] []
  | whole (write : FileWrite) {writes : List FileWrite} {results : List ℤ}
    (hrest : Answers writes results) :
      Answers (write :: writes) ((write.bytes.length : ℤ) :: results)
  | short (write : FileWrite) (writes : List FileWrite) {result : ℤ}
    (hshort : result < write.bytes.length) (hlinked : write.linked = true ∨ writes = []) :
    Answers (write :: writes) (result :: writes.map fun _ => canceled)
  | alone (write : FileWrite) {writes : List FileWrite} {result : ℤ} {results : List ℤ}
    (hshort : result < write.bytes.length) (hlinked : write.linked = false)
    (hrest : Answers writes results) : Answers (write :: writes) (result :: results)

/-- The file behind the writes: as many bytes of each are written as its result says. -/
def carriedOut (file : Uint8List) : List FileWrite → List ℤ → Uint8List
  | write :: writes, result :: results =>
    carriedOut (pwrite file write.offset (write.bytes.take result.toNat)) writes results
  | _, _ => file

/-! ## When the file has what was to be written -/

/-- How many bytes of the buffers of these lists are not used. -/
def unused (size : ℕ) (lengths : List ℕ) : ℕ := (lengths.map fun length => size - length).sum

/-- In front of every list that is not empty all buffers are full, but for multiples of what the
offset can say, and the offset can say where the list belongs. -/
def Placed (size offset : ℕ) (lengths : List ℕ) : Prop :=
  ∀ index length, lengths[index]? = some length → 0 < length →
    unused size (lengths.take index) % 2 ^ 32 = 0 ∧ offset + (lengths.take index).sum < 2 ^ 32

theorem unused_add_sum {size : ℕ} {lengths : List ℕ} (h : ∀ length ∈ lengths, length ≤ size) :
    unused size lengths + lengths.sum = lengths.length * size := by
  unfold unused
  induction lengths with
  | nil => simp
  | cons first lengths ih =>
    have hfirst := h first mem_cons_self
    have hrest := ih fun length hlen => h length (mem_cons_of_mem _ hlen)
    rw [map_cons, sum_cons, sum_cons, length_cons, Nat.succ_mul]
    omega

/-- Where the offset that is handed over is the place of the list. -/
theorem offset_eq_iff {size : ℕ} {lengths : List ℕ} (h : ∀ length ∈ lengths, length ≤ size)
    (offset : ℕ) {index : ℕ} (hidx : index < lengths.length) :
    (offset + index * size) % 2 ^ 32 = offset + (lengths.take index).sum ↔
      unused size (lengths.take index) % 2 ^ 32 = 0 ∧
        offset + (lengths.take index).sum < 2 ^ 32 := by
  have hfront : ∀ length ∈ lengths.take index, length ≤ size := fun length hlen =>
    h length (mem_of_mem_take hlen)
  have hsum := unused_add_sum hfront
  rw [length_take, Nat.min_eq_left hidx.le] at hsum
  rw [← hsum]
  omega

section

open TransportFileChannel

variable {size : ℕ}

theorem writes_cons (size : ℕ) (first : Uint8List) (bytes : List Uint8List) (offset : ℕ) :
    writes size (first :: bytes) offset =
      transportWrite first (!bytes.isEmpty) offset :: writes size bytes (offset + size) := by
  cases bytes with
  | nil => rfl
  | cons second bytes => rfl

theorem getElem?_writes (size : ℕ) (bytes : List Uint8List) (offset index : ℕ) :
    (writes size bytes offset)[index]? = bytes[index]?.map fun content =>
      transportWrite content (decide (index + 1 < bytes.length)) (offset + index * size) := by
  induction bytes generalizing offset index with
  | nil => rfl
  | cons first bytes ih =>
    rw [writes_cons]
    cases index with
    | zero =>
      have hlinked : (!bytes.isEmpty) = decide (0 + 1 < (first :: bytes).length) := by
        cases bytes <;> simp
      rw [hlinked]
      simp
    | succ index =>
      rw [getElem?_cons_succ, ih, getElem?_cons_succ, Nat.succ_mul, Nat.add_assoc,
        Nat.add_comm size]
      simp

theorem length_writes (size : ℕ) (bytes : List Uint8List) (offset : ℕ) :
    (writes size bytes offset).length = bytes.length := by
  induction bytes generalizing offset with
  | nil => rfl
  | cons first bytes ih => rw [writes_cons, length_cons, ih, length_cons]

variable {offset index length : ℕ} {results : List ℤ} {lengths : List ℕ}

/-- Writes whose offsets follow the lengths write what is to be written. -/
theorem carriedOut_writes (bytes : List Uint8List) {place : ℕ}
    (hplace : ∀ index content, bytes[index]? = some content → content ≠ [] →
      (offset + index * size) % 2 ^ 32 = place + ((bytes.map List.length).take index).sum)
    (file : Uint8List) :
    carriedOut file (writes size bytes offset) (bytes.map fun content => (content.length : ℤ)) =
      pwrite file place bytes.flatten := by
  induction bytes generalizing offset place file with
  | nil => rfl
  | cons first bytes ih =>
    have hfirst : pwrite file (offset % 2 ^ 32) first = pwrite file place first := by
      by_cases hnil : first = []
      · rw [hnil, pwrite_nil, pwrite_nil]
      · have hat := hplace 0 first rfl hnil
        rw [Nat.zero_mul, Nat.add_zero, take_zero, sum_nil, Nat.add_zero] at hat
        rw [hat]
    have hrest : ∀ index content, bytes[index]? = some content → content ≠ [] →
        (offset + size + index * size) % 2 ^ 32 =
          place + first.length + ((bytes.map List.length).take index).sum := by
      intro index content hcont hne
      have hat := hplace (index + 1) content hcont hne
      rw [map_cons, take_succ_cons, sum_cons, Nat.succ_mul] at hat
      rw [Nat.add_assoc place, ← hat]
      congr 1
      omega
    rw [writes_cons, map_cons, carriedOut, transportWrite]
    dsimp only
    rw [Int.toNat_natCast, take_length, hfirst, ih hrest, pwrite_pwrite, flatten_cons]

theorem length_of_answers {entries : List FileWrite} (h : Answers entries results) :
    results.length = entries.length := by
  induction h with
  | nil => rfl
  | whole write hrest ih => rw [length_cons, length_cons, ih]
  | short write writes hshort hlinked => rw [length_cons, length_cons, length_map]
  | alone write hshort hlinked hrest ih => rw [length_cons, length_cons, ih]

/-- Nothing is written that was not in the buffer. -/
theorem le_of_answers {entries : List FileWrite} (h : Answers entries results) {write : FileWrite}
    {result : ℤ} (hwrite : entries[index]? = some write) (hres : results[index]? = some result) :
    result ≤ write.bytes.length := by
  induction h generalizing index with
  | nil => cases hwrite
  | whole first hrest ih =>
    cases index with
    | zero =>
      cases hwrite
      cases hres
      exact le_rfl
    | succ index => exact ih hwrite hres
  | short first writes hshort hlinked =>
    cases index with
    | zero =>
      cases hwrite
      cases hres
      exact hshort.le
    | succ index =>
      rw [getElem?_cons_succ, getElem?_map] at hres
      obtain ⟨-, -, rfl⟩ := Option.map_eq_some_iff.mp hres
      unfold canceled
      omega
  | alone first hshort hlinked hrest ih =>
    cases index with
    | zero =>
      cases hwrite
      cases hres
      exact hshort.le
    | succ index => exact ih hwrite hres

/-- In a chain that succeeds only the last write may be short. -/
theorem whole_of_answers (bytes : List Uint8List) (h : Answers (writes size bytes offset) results)
    (hdone : ∀ result ∈ results, 0 ≤ result)
    (hlast : results.getLast? = bytes.getLast?.map fun content => (content.length : ℤ)) :
    results = bytes.map fun content => (content.length : ℤ) := by
  induction bytes generalizing offset results with
  | nil =>
    cases h
    rfl
  | cons first bytes ih =>
    rw [writes_cons] at h
    -- A short write at the end is not what the last result says.
    have hnot {result : ℤ} (hshort : result < first.length) : ([result] : List ℤ).getLast? ≠
        ([first] : List Uint8List).getLast?.map fun content => (content.length : ℤ) := by
      intro heq
      have hsame : result = first.length := Option.some.inj heq
      omega
    cases h with
    | whole write hrest =>
      rw [map_cons]
      congr 1
      refine ih hrest (fun result hres => hdone result (mem_cons_of_mem _ hres)) ?_
      cases bytes with
      | nil =>
        cases hrest
        rfl
      | cons second bytes =>
        have hlen := length_of_answers hrest
        rw [writes_cons, length_cons] at hlen
        have hne := ne_nil_of_length_eq_add_one hlen
        rwa [getLast?_cons_of_ne_nil hne, getLast?_cons_of_ne_nil (cons_ne_nil _ _)]
          at hlast
    | short write writes hshort hlinked =>
      cases bytes with
      | nil => exact absurd hlast (hnot hshort)
      | cons second bytes =>
        have hnegative := hdone canceled (mem_cons_of_mem _ (by
          rw [writes_cons, map_cons]
          exact mem_cons_self))
        exact absurd hnegative (by decide)
    | alone write hshort hlinked hrest =>
      cases bytes with
      | nil =>
        cases hrest
        exact absurd hlast (hnot hshort)
      | cons second bytes => cases hlinked

/-- Where the file has something else than before, a write has written it. -/
theorem getD_carriedOut (entries : List FileWrite) (results : List ℤ) (file : Uint8List) (k : ℕ) :
    (carriedOut file entries results).getD k 0 = file.getD k 0 ∨
      ∃ (index : ℕ) (write : FileWrite) (result : ℤ),
        entries[index]? = some write ∧ results[index]? = some result ∧ write.offset ≤ k ∧
          k < write.offset + (write.bytes.take result.toNat).length ∧
          (carriedOut file entries results).getD k 0 =
            (write.bytes.take result.toNat).getD (k - write.offset) 0 := by
  induction entries generalizing results file with
  | nil => exact .inl rfl
  | cons first entries ih =>
    cases results with
    | nil => exact .inl rfl
    | cons result results =>
      rw [carriedOut]
      rcases ih results (pwrite file first.offset (first.bytes.take result.toNat)) with hsame |
        ⟨index, write, other, hwrite, hother, hlow, hhigh, hval⟩
      · rw [hsame, getD_pwrite]
        by_cases hin : first.offset ≤ k ∧ k < first.offset + (first.bytes.take result.toNat).length
        · rw [if_pos hin]
          exact .inr ⟨0, first, result, rfl, rfl, hin.1, hin.2, rfl⟩
        · rw [if_neg hin]
          exact .inl rfl
      · exact .inr ⟨index + 1, write, other, hwrite, hother, hlow, hhigh, hval⟩

/-- Lists of these lengths, with ones in one of them. -/
def marked (lengths : List ℕ) (index : ℕ) : List Uint8List :=
  lengths.mapIdx fun other length => List.replicate length (if other = index then 1 else 0)

theorem map_length_marked (lengths : List ℕ) (index : ℕ) :
    (marked lengths index).map List.length = lengths := by
  refine ext_getElem? fun other => ?_
  rw [getElem?_map, marked, getElem?_mapIdx, Option.map_map]
  simp [Function.comp_def]

theorem getElem?_marked {other : ℕ} (h : lengths[other]? = some length) (index : ℕ) :
    (marked lengths index)[other]? = some
    (List.replicate length (if other = index then 1 else 0)) := by
  rw [marked, getElem?_mapIdx, h]
  rfl

/-- The ones of the marked list are where it belongs. -/
theorem getD_pwrite_marked {k : ℕ} (offset : ℕ) (hlen : lengths[index]? = some length)
    (hk : k < length) :
    (pwrite [] offset (marked lengths index).flatten).getD
    (offset + (lengths.take index).sum + k) 0 = 1 := by
  have hmarked := getElem?_marked hlen index
  rw [if_pos rfl] at hmarked
  have hin : k < (List.replicate length (1 : UInt8)).length := by
    rw [length_replicate]
    exact hk
  have hflat := getD_flatten hmarked hin
  rw [map_length_marked, getD_replicate 1 hk] at hflat
  have hbound : (lengths.take index).sum + k < (marked lengths index).flatten.length := by
    by_contra hle
    rw [getD_eq_default _ _ (by omega)] at hflat
    cases hflat
  rw [getD_pwrite, if_pos (by omega), ← hflat]
  congr 1
  omega

/-- Only the write of the marked list writes a one. -/
theorem covers_of_one {place : ℕ} (hlen : lengths[index]? = some length)
    (hone : (carriedOut [] (writes size (marked lengths index) offset) results).getD place 0 = 1) :
    ∃ result, results[index]? = some result ∧ (offset + index * size) % 2 ^ 32 ≤ place ∧
      place < (offset + index * size) % 2 ^ 32 + min result.toNat length := by
  rcases getD_carriedOut (writes size (marked lengths index) offset) results [] place with hsame |
      ⟨other, write, result, hwrite, hres, hlow, hhigh, hval⟩
  · rw [hone, getD_nil] at hsame
    cases hsame
  · rw [getElem?_writes] at hwrite
    obtain ⟨content, hcont, rfl⟩ := Option.map_eq_some_iff.mp hwrite
    have hother : other = index := by
      by_contra hne
      have hlt : other < lengths.length := by
        have hsome := (List.getElem?_eq_some_iff.mp hcont).1
        rwa [marked, length_mapIdx] at hsome
      rw [getElem?_marked (getElem?_eq_getElem hlt), if_neg hne] at hcont
      cases hcont
      rw [hone] at hval
      dsimp only [transportWrite] at hval
      rw [take_replicate, getD_eq_getElem?_getD,
        getElem?_getD_replicate_default_eq] at hval
      cases hval
    subst hother
    rw [getElem?_marked hlen, if_pos rfl] at hcont
    cases hcont
    dsimp only [transportWrite] at hlow hhigh
    rw [length_take, length_replicate] at hhigh
    exact ⟨result, hres, hlow, hhigh⟩

/-- The ones of the marked list stand where they belong: its offset is its place, and it is written
as a whole. -/
theorem place_of_marked
    (hwritten : carriedOut [] (writes size (marked lengths index) offset) results =
      pwrite [] offset (marked lengths index).flatten) (hlen : lengths[index]? = some length)
    (hpos : 0 < length) :
    (offset + index * size) % 2 ^ 32 = offset + (lengths.take index).sum ∧
      ∃ result, results[index]? = some result ∧ (length : ℤ) ≤ result := by
  have hcovers (k : ℕ) (hk : k < length) := by
    have hone := getD_pwrite_marked offset hlen hk
    rw [← hwritten] at hone
    exact covers_of_one hlen hone
  -- The first of its ones and the last.
  obtain ⟨result, hres, hlow, hhigh⟩ := hcovers 0 hpos
  obtain ⟨other, hother, hlow', hhigh'⟩ := hcovers (length - 1) (by omega)
  obtain rfl := Option.some.inj (hres.symm.trans hother)
  exact ⟨by omega, result, hres, by omega⟩

/-- Every write is whole, if the results are no errors and cover the lists that are not empty. -/
theorem whole_of_covers {bytes : List Uint8List}
    (hanswers : Answers (writes size bytes offset) results)
    (hdone : ∀ result ∈ results, 0 ≤ result)
    (hcovers : ∀ (index : ℕ) (content : Uint8List), bytes[index]? = some content →
      0 < content.length → ∃ result, results[index]? = some result ∧
        (content.length : ℤ) ≤ result) :
    results = bytes.map fun content => (content.length : ℤ) := by
  have hcount := length_of_answers hanswers
  rw [length_writes] at hcount
  refine ext_getElem? fun index => ?_
  rw [getElem?_map]
  cases hcont : bytes[index]? with
  | none => exact getElem?_eq_none (hcount.le.trans (List.getElem?_eq_none_iff.mp hcont))
  | some content =>
    have hidx := (List.getElem?_eq_some_iff.mp hcont).1
    obtain ⟨result, hres⟩ : ∃ result, results[index]? = some result :=
      ⟨_, getElem?_eq_getElem (hcount ▸ hidx)⟩
    have hwrite := getElem?_writes size bytes offset index
    rw [hcont] at hwrite
    have hle : result ≤ content.length := le_of_answers hanswers hwrite hres
    have hge : (content.length : ℤ) ≤ result := by
      rcases Nat.eq_zero_or_pos content.length with hempty | hpos
      · rw [hempty]
        exact hdone result (mem_of_getElem? hres)
      · obtain ⟨other, hother, hbound⟩ := hcovers index content hcont hpos
        obtain rfl := Option.some.inj (hres.symm.trans hother)
        exact hbound
    rw [hres, le_antisymm hle hge]
    rfl

theorem getElem?_map_length {bytes : List Uint8List} {content : Uint8List}
    (h : bytes[index]? = some content) : (bytes.map List.length)[index]? = some content.length := by
  rw [getElem?_map, h]
  rfl

/-- For every batch whose writes all succeed: when the file has the lists at the offset, one behind
the other, and is unchanged elsewhere, whatever is in lists of these lengths and in the file. -/
theorem writeMany_iff {bytes : List Uint8List} {offset : ℕ} {entries : List FileWrite}
    {results : List ℤ} (hfits : ∀ content ∈ bytes, content.length ≤ size)
    (hentries : submitted size bytes offset = some entries) (hanswers : Answers entries results)
    (hdone : ∀ result ∈ results, TransportFileChannel.notify.succeeds result = true) :
    (∀ (others : List Uint8List) (file : Uint8List) (writes : List FileWrite),
        others.map List.length = bytes.map List.length →
          submitted size others offset = some writes →
          carriedOut file writes results = pwrite file offset others.flatten) ↔
      Placed size offset (bytes.map List.length) ∧
        results.getLast? = bytes.getLast?.map fun content => (content.length : ℤ) := by
  have hne : bytes ≠ [] := by
    rintro rfl
    cases hentries
  have hsubmitted {others : List Uint8List} (hlengths : others.map List.length =
    bytes.map List.length) :
      submitted size others offset = some (writes size others offset) := by
    have hothers : others ≠ [] := by
      rintro rfl
      exact hne (List.map_eq_nil_iff.mp hlengths.symm)
    exact if_neg (by simpa using hothers)
  obtain rfl := Option.some.inj ((hsubmitted rfl).symm.trans hentries)
  have hnonneg : ∀ result ∈ results, 0 ≤ result := fun result hresult =>
    of_decide_eq_true (hdone result hresult)
  have hsizes : ∀ length ∈ bytes.map List.length, length ≤ size := fun length hlength => by
    obtain ⟨content, hcontent, rfl⟩ := List.mem_map.mp hlength
    exact hfits content hcontent
  constructor
  · intro h
    have hmarked (index : ℕ) := map_length_marked (bytes.map List.length) index
    have hplace (index length : ℕ) (hlength : (bytes.map List.length)[index]? = some length)
        (hpos : 0 < length) := place_of_marked
      (h (marked _ index) [] _ (hmarked index) (hsubmitted (hmarked index))) hlength hpos
    refine ⟨fun index length hlength hpos => ?_, ?_⟩
    · have hindex := (List.getElem?_eq_some_iff.mp hlength).1
      exact (offset_eq_iff hsizes offset hindex).mp (hplace index length hlength hpos).1
    · rw [whole_of_covers hanswers hnonneg fun index content hcontent hpos =>
        (hplace index _ (getElem?_map_length hcontent) hpos).2, List.getLast?_map]
  · rintro ⟨hplaced, hlast⟩ others file entries hlengths hothers
    obtain rfl := Option.some.inj ((hsubmitted hlengths).symm.trans hothers)
    have hwhole : results = others.map fun content => (content.length : ℤ) := by
      rw [whole_of_answers bytes hanswers hnonneg hlast]
      have hcast := congrArg (List.map fun length : ℕ => (length : ℤ)) hlengths
      rw [List.map_map, List.map_map] at hcast
      exact hcast.symm
    rw [hwhole]
    refine carriedOut_writes others (fun index content hcontent hne => ?_) file
    have hcontentLength := getElem?_map_length hcontent
    rw [hlengths] at hcontentLength ⊢
    have hindex := (List.getElem?_eq_some_iff.mp hcontentLength).1
    exact (offset_eq_iff hsizes offset hindex).mpr
      (hplaced index content.length hcontentLength (List.length_pos_iff.mpr hne))

/-- Two lists, of which the first fills its buffer. -/
theorem writeMany_iff_full :
    carriedOut [] [⟨[1, 2], 0, true⟩, ⟨[3], 2, false⟩] [2, 1] =
      pwrite [] 0 [[1, 2], [3]].flatten := by
  have hanswers : Answers [⟨[1, 2], 0, true⟩, ⟨[3], 2, false⟩] [2, 1] := .whole _ (.whole _ .nil)
  have hentries : submitted 2 [[1, 2], [3]] 0 = some [⟨[1, 2], 0, true⟩, ⟨[3], 2, false⟩] := rfl
  refine (writeMany_iff (by decide) hentries hanswers (by decide)).mpr ⟨?_, rfl⟩ [[1, 2], [3]] []
    [⟨[1, 2], 0, true⟩, ⟨[3], 2, false⟩] rfl rfl
  intro index length hlength hpos
  match index with
  | 0 | 1 => decide
  | _ + 2 => cases hlength

/-- Two lists of one byte, where a buffer has two: there is a gap between them. -/
theorem not_writeMany : ¬∀ (size offset : ℕ) (bytes : List Uint8List) (file : Uint8List)
    (entries : List FileWrite) (results : List ℤ), (∀ content ∈ bytes, content.length ≤ size) →
      submitted size bytes offset = some entries → Answers entries results →
        (∀ result ∈ results, TransportFileChannel.notify.succeeds result = true) →
          carriedOut file entries results = pwrite file offset bytes.flatten := by
  intro h
  have hgap := h 2 0 [[1], [3]] [] [⟨[1], 0, true⟩, ⟨[3], 2, false⟩] [1, 1] (by decide) rfl
    (.whole _ (.whole _ .nil)) (by decide)
  exact absurd hgap (by decide)

end

end FengShui.Transport
