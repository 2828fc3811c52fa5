import FengShui.Core.Dart

/-!
# Vectored copies

`collect` and `collectTo` of `SystemIovecExtensions` in `core/extensions.dart`. Both walk over the
same vectors, the one into a new list and the other into a list of the caller. The position of
`collectTo` advances by the length of the whole output, and the end of a range is the length of its
vector, so that only the first vector can ever be copied. `copies_iff` tells for which vectors that
is no difference.
-/

namespace FengShui

open List

/-- `iovec`: the memory behind `iov_base`, and how much of it belongs to the vector. -/
structure Iovec where
  iov_base : Uint8List
  iov_len : ℕ
  readable : iov_len ≤ iov_base.length
  deriving DecidableEq, Repr

namespace Iovec

/-- `iov_base.asTypedList(iov_len)`. -/
def asTypedList (vector : Iovec) : Uint8List := vector.iov_base.take vector.iov_len

/-- A vector of all the bytes given. -/
def ofBytes (bytes : Uint8List) : Iovec := ⟨bytes, bytes.length, le_rfl⟩

@[simp]
theorem length_asTypedList (vector : Iovec) : vector.asTypedList.length = vector.iov_len := by
  rw [asTypedList, length_take, Nat.min_eq_left vector.readable]

end Iovec

/-- `collect`: the builder takes the bytes of one vector after the other. -/
def collect (vectors : List Iovec) : Uint8List :=
  vectors.foldl (fun builder current => builder ++ current.asTypedList) []

/-- The loop of `collectTo`, with its position in the output. -/
def collectToFrom : List Iovec → ℕ → Uint8List → Except DartException (ℕ × Uint8List)
  | [], written, output => .ok (written, output)
  | current :: rest, written, output => do
    let output ← setRange output written current.iov_len current.asTypedList
    collectToFrom rest (written + output.length) output

/-- `collectTo`: what it returns, and the output behind it. -/
def collectTo (vectors : List Iovec) (output : Uint8List) : Except DartException (ℕ × Uint8List) :=
  collectToFrom vectors 0 output

/-- The sum of the lengths of the vectors. -/
def totalLength (vectors : List Iovec) : ℕ := (vectors.map Iovec.iov_len).sum

/-- The bytes of the vectors stand at the start of the output, nothing behind them is changed, and
their number is returned. -/
def Copies (vectors : List Iovec) (output : Uint8List) : Prop :=
  collectTo vectors output =
    .ok (totalLength vectors, collect vectors ++ output.drop (totalLength vectors))

instance (vectors : List Iovec) (output : Uint8List) : Decidable (Copies vectors output) :=
  inferInstanceAs (Decidable (_ = _))

variable {current : Iovec} {vectors rest : List Iovec} {output : Uint8List} {written : ℕ}

theorem foldl_collect (vectors : List Iovec) (builder : Uint8List) :
    vectors.foldl (fun builder current => builder ++ current.asTypedList) builder =
      builder ++ vectors.flatMap Iovec.asTypedList := by
  induction vectors generalizing builder with
  | nil => rw [foldl_nil, flatMap_nil, append_nil]
  | cons current rest ih => rw [foldl_cons, ih, flatMap_cons, append_assoc]

/-- What is collected is the vectors one behind the other. -/
theorem collect_eq (vectors : List Iovec) : collect vectors = vectors.flatMap Iovec.asTypedList :=
  foldl_collect vectors []

theorem length_collect (vectors : List Iovec) : (collect vectors).length = totalLength vectors := by
  have hlens : vectors.map (List.length ∘ Iovec.asTypedList) = vectors.map Iovec.iov_len :=
    map_congr_left fun vector _ => vector.length_asTypedList
  rw [collect_eq, length_flatMap, totalLength]
  exact congrArg List.sum hlens

theorem totalLength_cons (current : Iovec) (rest : List Iovec) :
    totalLength (current :: rest) = current.iov_len + totalLength rest := by
  rw [totalLength, map_cons, sum_cons]
  rfl

/-! ## The loop -/

/-- The first vector is copied as it should be. -/
theorem setRange_first (hfits : current.iov_len ≤ output.length) :
    setRange output 0 current.iov_len current.asTypedList =
      .ok (current.asTypedList ++ output.drop current.iov_len) := by
  have hlen := current.length_asTypedList
  have hcopy := setRange_append ([] : Uint8List) (hlen ▸ hfits)
  rwa [nil_append, length_nil, Nat.zero_add, hlen, nil_append] at hcopy

theorem length_first (hfits : current.iov_len ≤ output.length) :
    (current.asTypedList ++ output.drop current.iov_len).length = output.length := by
  rw [length_append, length_drop, current.length_asTypedList]
  omega

/-- Behind the first vector the position is the length of the output. -/
theorem collectTo_cons (hfits : current.iov_len ≤ output.length) :
    collectTo (current :: rest) output =
      collectToFrom rest output.length (current.asTypedList ++ output.drop current.iov_len) := by
  show (setRange output 0 current.iov_len current.asTypedList >>= fun output =>
    collectToFrom rest (0 + output.length) output) = _
  rw [setRange_first hfits]
  show collectToFrom rest (0 + (current.asTypedList ++ output.drop current.iov_len).length) _ = _
  rw [length_first hfits, Nat.zero_add]

/-- The position only grows. -/
theorem le_of_collectToFrom {position : ℕ} {output' : Uint8List}
    (h : collectToFrom vectors written output = .ok (position, output')) :
    written + vectors.length * output.length ≤ position := by
  induction vectors generalizing written output with
  | nil =>
    cases h
    rw [length_nil, Nat.zero_mul, Nat.add_zero]
  | cons current rest ih =>
    obtain ⟨middle, hset, hrest⟩ := except_bind_eq_ok.mp h
    have hlen : middle.length = output.length := length_of_setRange hset
    have hpos := ih hrest
    rw [hlen] at hpos
    calc written + (rest.length + 1) * output.length
        = written + output.length + rest.length * output.length := by
          rw [Nat.add_one_mul]
          omega
      _ ≤ position := hpos

/-- An output without room takes vectors without bytes. -/
theorem collectToFrom_nil (hempty : totalLength vectors = 0) :
    collectToFrom vectors 0 [] = .ok (0, []) := by
  induction vectors with
  | nil => rfl
  | cons current rest ih =>
    rw [totalLength_cons] at hempty
    have hcur : current.iov_len = 0 := by omega
    show (setRange [] 0 current.iov_len current.asTypedList >>= _) = _
    rw [setRange_first (by omega), hcur]
    have hbytes : current.asTypedList = [] :=
      length_eq_zero_iff.mp (by rw [current.length_asTypedList, hcur])
    rw [hbytes]
    exact ih (by omega)

/-- `collectTo` copies what `collect` returns exactly of no vector, of a single vector that fills
the output, and into an output without room. -/
theorem copies_iff (vectors : List Iovec) (output : Uint8List)
    (hroom : totalLength vectors ≤ output.length) :
    Copies vectors output ↔
      vectors = [] ∨ (∃ vector, vectors = [vector] ∧ vector.iov_len = output.length) ∨
        output = [] := by
  constructor
  · intro hcopies
    cases vectors with
    | nil => exact .inl rfl
    | cons current rest =>
      rw [totalLength_cons] at hroom
      have hcurrent : current.iov_len ≤ output.length := by omega
      have hloop :
        collectToFrom rest output.length (current.asTypedList ++ output.drop current.iov_len) =
          .ok (totalLength (current :: rest), _) := (collectTo_cons hcurrent).symm.trans hcopies
      -- What is returned is at least the output for each vector, and at most the output.
      have hposition := le_of_collectToFrom hloop
      rw [length_first hcurrent, totalLength_cons] at hposition
      have hfull : current.iov_len + totalLength rest = output.length := by
        have hzero : 0 ≤ rest.length * output.length := Nat.zero_le _
        omega
      have hrest : rest.length * output.length = 0 := by omega
      rcases Nat.mul_eq_zero.mp hrest with hnone | hempty
      · have hnil : rest = [] := List.length_eq_zero_iff.mp hnone
        subst hnil
        exact .inr (.inl ⟨current, rfl, hfull⟩)
      · exact .inr (.inr (List.length_eq_zero_iff.mp hempty))
  · rintro (rfl | ⟨vector, rfl, hfull⟩ | rfl)
    · rfl
    · have hcollect : collect [vector] = vector.asTypedList := by
        rw [collect_eq, List.flatMap_cons, List.flatMap_nil, List.append_nil]
      have htotal : totalLength [vector] = vector.iov_len := by
        rw [totalLength_cons]
        rfl
      show collectTo [vector] output = _
      rw [collectTo_cons (Nat.le_of_eq hfull), hcollect, htotal, hfull]
      rfl
    · have htotal : totalLength vectors = 0 := Nat.le_zero.mp hroom
      have hcollect : collect vectors = [] := by
        apply List.length_eq_zero_iff.mp
        rw [length_collect, htotal]
      show collectTo vectors [] = _
      rw [hcollect, htotal]
      exact collectToFrom_nil htotal

/-- One vector that fills the output. -/
theorem copies_whole : Copies [.ofBytes [1, 2]] [0, 0] :=
  (copies_iff [.ofBytes [1, 2]] [0, 0] (by decide)).mpr (.inr (.inl ⟨.ofBytes [1, 2], rfl, rfl⟩))

/-- The second of two vectors starts behind the whole output. -/
theorem second_vector_throws : ¬∀ vectors output, totalLength vectors ≤ output.length →
    Copies vectors output := by
  intro h
  have htwo : ¬Copies [.ofBytes [1], .ofBytes [2]] [0, 0] := by decide
  exact htwo (h _ _ (by decide))

end FengShui
