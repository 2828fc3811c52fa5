import FengShui.Lib.Transition
import Mathlib.Data.Nat.Bitwise
import Mathlib.Data.List.TakeDrop

/-!
# Arrays of pointers (`core/native/arrays/pointer.h`)

A `size_t` is a natural number, and what the code computes with is taken modulo `2^64`. The memory
of an array is the list of its cells; an access outside of it has no result. The array is compared
with a list, which is what `add`, `get`, `set` and the removals are meant for.
-/

namespace FengShui

open List

/-- `round_up_to_power_of_two` of `numbers.h`. -/
def roundUpToPowerOfTwo (x : ℕ) : ℕ :=
  let x := (x + (2 ^ 64 - 1)) % 2 ^ 64
  let x := x ||| x >>> 1
  let x := x ||| x >>> 2
  let x := x ||| x >>> 4
  let x := x ||| x >>> 8
  let x := x ||| x >>> 16
  let x := x ||| x >>> 32
  (x + 1) % 2 ^ 64

/-- One round of the spreading of the highest bit. -/
theorem spread_bounds {x y bits : ℕ} (shift : ℕ) (hle : x ≤ y) (hlt : y < 2 ^ bits) :
    x ≤ y ||| y >>> shift ∧ y ||| y >>> shift < 2 ^ bits := by
  have hshift : y >>> shift < 2 ^ bits := by
    rw [Nat.shiftRight_eq_div_pow]
    exact (Nat.div_le_self y _).trans_lt hlt
  exact ⟨hle.trans Nat.left_le_or, Nat.or_lt_two_pow hlt hshift⟩

/-- The rounding gives no less than its argument, and stays below a power of two that the argument
does not exceed. -/
theorem roundUpToPowerOfTwo_bounds {x bits : ℕ} (hpos : 0 < x) (hle : x ≤ 2 ^ bits)
    (hbits : bits < 64) : x ≤ roundUpToPowerOfTwo x ∧ roundUpToPowerOfTwo x ≤ 2 ^ bits := by
  have hword : 2 ^ bits < 2 ^ 64 := Nat.pow_lt_pow_right Nat.one_lt_two hbits
  have hdown : (x + (2 ^ 64 - 1)) % 2 ^ 64 = x - 1 := by omega
  have hlt : x - 1 < 2 ^ bits := by omega
  obtain ⟨hle1, hlt1⟩ := spread_bounds 1 (le_refl (x - 1)) hlt
  obtain ⟨hle2, hlt2⟩ := spread_bounds 2 hle1 hlt1
  obtain ⟨hle4, hlt4⟩ := spread_bounds 4 hle2 hlt2
  obtain ⟨hle8, hlt8⟩ := spread_bounds 8 hle4 hlt4
  obtain ⟨hle16, hlt16⟩ := spread_bounds 16 hle8 hlt8
  obtain ⟨hle32, hlt32⟩ := spread_bounds 32 hle16 hlt16
  unfold roundUpToPowerOfTwo
  rw [hdown]
  dsimp only
  omega

/-- A difference of two numbers of type `size_t`. -/
def subtract (x y : ℕ) : ℕ := (x + (2 ^ 64 - y % 2 ^ 64)) % 2 ^ 64

theorem subtract_of_le {x y : ℕ} (hle : y ≤ x) (hlt : x < 2 ^ 64) : subtract x y = x - y := by
  unfold subtract
  omega

/-- A `void*`; `NULL` is 0. -/
abbrev Pointer := UInt64

structure PointerArray where
  capacity : ℕ
  size : ℕ
  resizeFactor : ℕ
  memory : List Pointer
  deriving DecidableEq, Repr

/-- A call of a function of the array. -/
inductive ArrayCall where
  | get (index : ℕ)
  | set (index : ℕ) (value : Pointer)
  | removeRange (start count : ℕ)
  | remove (index : ℕ)
  | removeLast
  /-- What `realloc` leaves in new cells is not determined: here it is `fresh`. -/
  | add (value : Pointer) (fresh : ℕ → Pointer)

namespace PointerArray

/-- `pointer_array_create`; `calloc` gives no memory when the number of bytes does not fit. -/
def create (initialCapacity resizeFactor : ℕ) : PointerArray where
  capacity := initialCapacity
  size := 0
  resizeFactor := resizeFactor
  memory := if initialCapacity * 8 < 2 ^ 64 then List.replicate initialCapacity 0 else []

/-- The cells that `realloc` gives for a number of bytes. -/
def realloc (memory : List Pointer) (bytes : ℕ) (fresh : ℕ → Pointer) : List Pointer :=
  memory.take (bytes / 8) ++ (List.range' memory.length (bytes / 8 - memory.length)).map fresh

/-- `pointer_array_grow`. -/
def grow (fresh : ℕ → Pointer) (array : PointerArray) : PointerArray :=
  let newCapacity := roundUpToPowerOfTwo (array.resizeFactor * array.capacity % 2 ^ 64)
  { array with
    memory := realloc array.memory (newCapacity * 8 % 2 ^ 64) fresh
    capacity := newCapacity }

/-- `array->memory[index]`. -/
def read (array : PointerArray) (index : ℕ) : Option Pointer := array.memory[index]?

/-- `array->memory[index] = value`. -/
def write (index : ℕ) (value : Pointer) (array : PointerArray) : Option PointerArray :=
  if index < array.memory.length then some { array with memory := array.memory.set index value }
  else none

/-- `memmove` of a number of cells, between cells. -/
def memmove (target source cells : ℕ) (memory : List Pointer) : Option (List Pointer) :=
  if cells = 0 then some memory
  else if target + cells ≤ memory.length ∧ source + cells ≤ memory.length then
    some (memory.take target ++ (memory.drop source).take cells ++ memory.drop (target + cells))
  else none

/-- `pointer_array_get`. -/
def get (index : ℕ) (array : PointerArray) : Option (Pointer × PointerArray) :=
  if index ≥ array.size then some (0, array)
  else (array.read index).map fun current => (current, array)

/-- `pointer_array_set`. -/
def set (index : ℕ) (value : Pointer) (array : PointerArray) : Option (Pointer × PointerArray) :=
  if index ≥ array.capacity then some (0, array)
  else do
    let current ← array.read index
    let array ← array.write index value
    return (current, array)

/-- `pointer_array_remove_range`. The offsets are counted in cells of eight bytes, and multiplied by
`sizeof(void*)` on top. -/
def removeRange (start count : ℕ) (array : PointerArray) : Option PointerArray :=
  let stop := (start + count) % 2 ^ 64
  if stop ≥ array.capacity then some array
  else do
    let bytes := subtract (subtract array.size start) count * 8 % 2 ^ 64
    let memory ← memmove (start * 8 % 2 ^ 64) (stop * 8 % 2 ^ 64) (bytes / 8) array.memory
    return { array with memory := memory, size := subtract array.size count }

/-- `pointer_array_remove`. -/
def remove (index : ℕ) (array : PointerArray) : Option (Pointer × PointerArray) :=
  if index ≥ array.capacity then some (0, array)
  else do
    let current ← array.read index
    let array ← array.removeRange index 1
    return (current, array)

/-- `pointer_array_remove_last`. -/
def removeLast (array : PointerArray) : Option (Pointer × PointerArray) :=
  if array.size = 0 then some (0, array)
  else do
    let current ← array.read (array.size - 1)
    let array ← array.write (array.size - 1) 0
    return (current, { array with size := array.size - 1 })

/-- `pointer_array_add`. -/
def add (value : Pointer) (fresh : ℕ → Pointer) (array : PointerArray) : Option PointerArray := do
  let array := if array.size ≥ array.capacity then array.grow fresh else array
  let array ← array.write array.size value
  return { array with size := (array.size + 1) % 2 ^ 64 }

/-- A call, with `NULL` as the result of a void function. -/
def apply (array : PointerArray) : ArrayCall → Option (Pointer × PointerArray)
  | .get index => array.get index
  | .set index value => array.set index value
  | .removeRange start count => (array.removeRange start count).map fun array => (0, array)
  | .remove index => array.remove index
  | .removeLast => array.removeLast
  | .add value fresh => (array.add value fresh).map fun array => (0, array)

/-- One more call, with the results so far. -/
def step (state : PointerArray × List Pointer) (call : ArrayCall) :
    Option (PointerArray × List Pointer) :=
  (state.1.apply call).map fun (result, array) => (array, state.2 ++ [result])

/-- `memory[0..size)`. -/
def elements (array : PointerArray) : List Pointer := array.memory.take array.size

end PointerArray

/-! ## What an array is for -/

/-- The list without a range of it, or as it is if the range is not inside. -/
def withoutRange (start count : ℕ) (list : List Pointer) : List Pointer :=
  if start + count ≤ list.length then list.take start ++ list.drop (start + count) else list

theorem withoutRange_zero (start : ℕ) (list : List Pointer) : withoutRange start 0 list = list := by
  unfold withoutRange
  rw [Nat.add_zero, take_append_drop, ite_self]

namespace ArrayCall

/-- The call on a list, with its result. -/
def onList (list : List Pointer) : ArrayCall → Pointer × List Pointer
  | get index => (list.getD index 0, list)
  | set index value => (list.getD index 0, list.set index value)
  | removeRange start count => (0, withoutRange start count list)
  | remove index => (list.getD index 0, list.eraseIdx index)
  | removeLast => (list.getLastD 0, list.dropLast)
  | add value _ => (0, list ++ [value])

/-- A call on a list, with the results so far. -/
def stepList (state : List Pointer × List Pointer) (call : ArrayCall) :
    List Pointer × List Pointer :=
  ((call.onList state.1).2, state.2 ++ [(call.onList state.1).1])

end ArrayCall

namespace PointerArray

open ArrayCall Transition

/-- The calls on a new array go through, with the elements and the results of a list. -/
def Refines (initialCapacity resizeFactor : ℕ) (calls : List ArrayCall) : Prop :=
  ∃ array results, run step (create initialCapacity resizeFactor, []) calls =
    some (array, results) ∧
    array.size ≤ array.capacity ∧ array.elements.length = array.size ∧
      (array.elements, results) = calls.foldl stepList ([], [])

/-- A call that neither moves cells nor gets behind the elements: an `add` that has a cell or may
grow, a removal of elements at the end that leaves the array below its capacity, or an index that
the check against the capacity refuses. -/
def Tame (state : PointerArray × List Pointer) (call : ArrayCall) : Prop :=
  let array := state.1
  match call with
  | .get _ | .removeLast => True
  | .set index _ =>
    index < array.size ∨ array.capacity ≤ index ∨ array.memory[index]? = some 0
  | .removeRange start count =>
    array.capacity ≤ (start + count) % 2 ^ 64 ∧ (array.size < start + count ∨ count = 0) ∨
      start + count = array.size ∧ array.size < array.capacity ∨
      count = 0 ∧ start < array.size ∧ 8 * start + (array.size - start) ≤ array.memory.length
  | .remove index =>
    array.capacity ≤ index ∨ index + 1 = array.size ∧ array.size < array.capacity ∨
      index + 1 = array.capacity ∧ array.size ≤ index ∧ array.memory[index]? = some 0
  | .add _ _ =>
    array.size < array.memory.length ∨
      0 < array.capacity ∧ array.size = array.capacity ∧
        array.resizeFactor * array.capacity ≤ 2 ^ 60

instance (state : PointerArray × List Pointer) : ∀ call, Decidable (Tame state call)
  | .get _ | .removeLast => inferInstanceAs (Decidable True)
  | .set _ _ | .removeRange _ _ | .remove _ | .add _ _ => inferInstanceAs (Decidable (_ ∨ _))

/-- The array holds the elements of a list, in memory that it has. -/
structure Represents (list : List Pointer) (array : PointerArray) : Prop where
  elements : array.elements = list
  allocated : array.size ≤ array.memory.length
  bounded : array.memory.length ≤ array.capacity
  fits : array.memory.length < 2 ^ 61
  factor : 2 ≤ array.resizeFactor

section Represents

variable {array : PointerArray} {list : List Pointer}

theorem represents_create (initialCapacity : ℕ) {resizeFactor : ℕ} (hfactor : 2 ≤ resizeFactor) :
    Represents [] (create initialCapacity resizeFactor) := by
  unfold create
  refine ⟨take_zero, Nat.zero_le _, ?_, ?_, hfactor⟩
  · dsimp only
    split
    · rw [length_replicate]
    · exact Nat.zero_le _
  · dsimp only
    split
    · rw [length_replicate]
      omega
    · exact Nat.two_pow_pos 61

theorem Represents.length (h : Represents list array) : list.length = array.size := by
  rw [← h.elements, PointerArray.elements, length_take, Nat.min_eq_left h.allocated]

/-- A cell of an element. -/
theorem Represents.getElem? (h : Represents list array) {index : ℕ} (hidx : index < array.size) :
    array.memory[index]? = some (list.getD index 0) := by
  have hlist : index < list.length := by rw [h.length]; exact hidx
  have hcell : list[index]? = array.memory[index]? := by
    rw [← h.elements, PointerArray.elements, getElem?_take_of_lt hidx]
  rw [← hcell, getD_eq_getElem _ _ hlist, getElem?_eq_getElem hlist]

theorem Represents.get (h : Represents list array) (index : ℕ) :
    array.get index = some (list.getD index 0, array) := by
  unfold PointerArray.get
  by_cases hidx : index ≥ array.size
  · have hlist : list.length ≤ index := by rw [h.length]; exact hidx
    rw [if_pos hidx, getD_eq_default _ _ hlist]
  · rw [if_neg hidx, read, h.getElem? (by omega)]
    rfl

theorem Represents.set (h : Represents list array) (index : ℕ) (value : Pointer)
    (htame : index < array.size ∨ array.capacity ≤ index ∨ array.memory[index]? = some 0) :
    ∃ next, array.set index value = some (list.getD index 0, next) ∧
      Represents (list.set index value) next := by
  have hlen := h.length
  have halloc := h.allocated
  have hbounded := h.bounded
  unfold PointerArray.set
  by_cases hcap : index ≥ array.capacity
  · have hlist : list.length ≤ index := by omega
    refine ⟨array, ?_, ?_⟩
    · rw [if_pos hcap, getD_eq_default _ _ hlist]
    · rwa [set_eq_of_length_le hlist]
  rw [if_neg hcap]
  have hcell : array.memory[index]? = some (list.getD index 0) := by
    by_cases hidx : index < array.size
    · exact h.getElem? hidx
    · -- Behind the elements the cell is null, as the result on the list.
      have hlist : list.length ≤ index := by omega
      rw [getD_eq_default _ _ hlist]
      exact (htame.resolve_left hidx).resolve_left hcap
  have hmemory : index < array.memory.length := (List.getElem?_eq_some_iff.mp hcell).1
  refine ⟨{ array with memory := array.memory.set index value }, ?_, ?_⟩
  · unfold read write
    rw [hcell, if_pos hmemory]
    rfl
  · refine ⟨?_, ?_, ?_, ?_, h.factor⟩
    · show (array.memory.set index value).take array.size = _
      rw [take_set, ← h.elements]
      rfl
    all_goals
      dsimp only
      rw [length_set]
    · exact halloc
    · exact hbounded
    · exact h.fits

/-- A removal that moves no cells, or moves them onto themselves. -/
theorem Represents.removeRange (h : Represents list array) (start count : ℕ)
    (htame : array.capacity ≤ (start + count) % 2 ^ 64 ∧ (array.size < start + count ∨ count = 0) ∨
      start + count = array.size ∧ array.size < array.capacity ∨
      count = 0 ∧ start < array.size ∧ 8 * start + (array.size - start) ≤ array.memory.length) :
    ∃ next, array.removeRange start count = some next ∧
      Represents (withoutRange start count list) next := by
  have hlen := h.length
  have halloc := h.allocated
  have hbounded := h.bounded
  have hfits := h.fits
  unfold PointerArray.removeRange
  dsimp only
  by_cases hstop : (start + count) % 2 ^ 64 ≥ array.capacity
  · rw [if_pos hstop]
    refine ⟨array, rfl, ?_⟩
    rcases htame with ⟨-, hbehind | hcount⟩ | ⟨hend, hroom⟩ | ⟨hcount, -, -⟩
    · unfold withoutRange
      rwa [if_neg (by omega)]
    · rwa [hcount, withoutRange_zero]
    · rw [hend] at hstop
      omega
    · rwa [hcount, withoutRange_zero]
  rw [if_neg hstop]
  rcases htame with ⟨hcap, -⟩ | ⟨hend, hroom⟩ | ⟨hcount, hstart, hinside⟩
  · exact absurd hcap hstop
  -- The range ends with the array: nothing is moved.
  · have hstart : subtract array.size start = count := by
      rw [subtract_of_le (by omega) (by omega)]
      omega
    have hsize : subtract array.size count = start := by
      rw [subtract_of_le (by omega) (by omega)]
      omega
    have hzero : subtract count count = 0 := by
      rw [subtract_of_le le_rfl (by omega), Nat.sub_self]
    refine ⟨{ array with size := start }, ?_, ?_⟩
    · rw [hstart, hzero, hsize]
      rfl
    · unfold withoutRange
      rw [if_pos (by omega), drop_of_length_le (by omega), append_nil]
      refine ⟨?_, by dsimp only; omega, hbounded, hfits, h.factor⟩
      show array.memory.take start = _
      rw [← h.elements, PointerArray.elements, take_take, Nat.min_eq_left (by omega)]
  · subst hcount
    rw [withoutRange_zero]
    have hrest : subtract array.size start = array.size - start :=
      subtract_of_le hstart.le (by omega)
    have hcells : subtract (subtract array.size start) 0 = array.size - start := by
      rw [hrest, subtract_of_le (Nat.zero_le _) (by omega), Nat.sub_zero]
    have hsize : subtract array.size 0 = array.size := by
      rw [subtract_of_le (Nat.zero_le _) (by omega), Nat.sub_zero]
    -- An empty range: the cells are moved to where they are.
    have hoff : start * 8 % 2 ^ 64 = 8 * start := by omega
    have hstop' : (start + 0) % 2 ^ 64 = start := by omega
    have hbytes : (array.size - start) * 8 % 2 ^ 64 / 8 = array.size - start := by omega
    refine ⟨array, ?_, h⟩
    rw [hcells, hsize, hstop', hoff, hbytes]
    unfold memmove
    rw [if_neg (by omega), if_pos ⟨hinside, hinside⟩, append_assoc, ← drop_drop,
      take_append_drop, take_append_drop]
    rfl

theorem Represents.remove (h : Represents list array) (index : ℕ)
    (htame : array.capacity ≤ index ∨ index + 1 = array.size ∧ array.size < array.capacity ∨
      index + 1 = array.capacity ∧ array.size ≤ index ∧ array.memory[index]? = some 0) :
    ∃ next, array.remove index = some (list.getD index 0, next) ∧
      Represents (list.eraseIdx index) next := by
  have hlen := h.length
  have halloc := h.allocated
  have hbounded := h.bounded
  unfold PointerArray.remove
  by_cases hcap : index ≥ array.capacity
  · have hlist : list.length ≤ index := by omega
    refine ⟨array, ?_, ?_⟩
    · rw [if_pos hcap, getD_eq_default _ _ hlist]
    · rwa [eraseIdx_of_length_le hlist]
  rw [if_neg hcap]
  rcases htame with hcap' | ⟨hidx, hroom⟩ | ⟨hidx, hbehind, hcell⟩
  · exact absurd hcap' hcap
  · obtain ⟨next, hnext, hrepresents⟩ := h.removeRange index 1 (.inr (.inl ⟨hidx, hroom⟩))
    refine ⟨next, ?_, ?_⟩
    · rw [read, h.getElem? (by omega), hnext]
      rfl
    -- The last element, with room behind it.
    · have herase : withoutRange index 1 list = list.eraseIdx index := by
        unfold withoutRange
        rw [if_pos (by omega), eraseIdx_eq_take_drop_succ]
      rwa [herase] at hrepresents
  · -- The last cell, behind the elements: the range is refused.
    have hlist : list.length ≤ index := by omega
    have hmemory : index < array.memory.length := (List.getElem?_eq_some_iff.mp hcell).1
    have hfits := h.fits
    have hrefused : array.removeRange index 1 = some array := by
      unfold PointerArray.removeRange
      exact if_pos (by omega)
    refine ⟨array, ?_, ?_⟩
    · rw [read, hcell, hrefused, getD_eq_default _ _ hlist]
      rfl
    · rwa [eraseIdx_of_length_le hlist]

theorem Represents.removeLast (h : Represents list array) :
    ∃ next, array.removeLast = some (list.getLastD 0, next) ∧ Represents list.dropLast next := by
  have hlen := h.length
  have halloc := h.allocated
  unfold PointerArray.removeLast
  by_cases hsize : array.size = 0
  · obtain rfl : list = [] := eq_nil_of_length_eq_zero (by omega)
    exact ⟨array, if_pos hsize, h⟩
  rw [if_neg hsize]
  have hmemory : array.size - 1 < array.memory.length := by omega
  have hlast : list.getD (array.size - 1) 0 = list.getLastD 0 := by
    rw [← hlen, getLastD_eq_getLast?, getLast?_eq_getElem?, getD_eq_getElem?_getD]
  refine ⟨{ array with memory := array.memory.set (array.size - 1) 0, size := array.size - 1 }, ?_,
    ?_⟩
  · unfold read write
    rw [h.getElem? (by omega), if_pos hmemory, hlast]
    rfl
  · refine ⟨?_, ?_, ?_, ?_, h.factor⟩
    · show (array.memory.set (array.size - 1) 0).take (array.size - 1) = _
      rw [take_set_of_le le_rfl, dropLast_eq_take, ← h.elements, PointerArray.elements,
        take_take, length_take, Nat.min_eq_left halloc, Nat.min_eq_left (by omega)]
    all_goals
      dsimp only
      rw [length_set]
    · omega
    · exact h.bounded
    · exact h.fits

theorem length_realloc (memory : List Pointer) (cells : ℕ) (fresh : ℕ → Pointer) :
    (realloc memory (cells * 8) fresh).length = cells := by
  unfold realloc
  rw [Nat.mul_div_cancel _ (by decide), length_append, length_take, length_map,
    length_range']
  omega

/-- What `grow` computes, when neither product overflows. -/
theorem grow_eq (array : PointerArray) (fresh : ℕ → Pointer) {bits : ℕ} (hbits : bits < 61)
    (hpos : 0 < array.resizeFactor * array.capacity)
    (hbound : array.resizeFactor * array.capacity ≤ 2 ^ bits) :
    ∃ capacity, array.resizeFactor * array.capacity ≤ capacity ∧ capacity ≤ 2 ^ bits ∧
      array.grow fresh =
        { array with
          memory := realloc array.memory (capacity * 8) fresh, capacity := capacity } := by
  have hword : 2 ^ bits * 8 < 2 ^ 64 := by
    calc 2 ^ bits * 8 = 2 ^ (bits + 3) := by rw [Nat.pow_add]
      _ < 2 ^ 64 := Nat.pow_lt_pow_right Nat.one_lt_two (by omega)
  obtain ⟨hle, hlt⟩ := roundUpToPowerOfTwo_bounds hpos hbound (by omega)
  refine ⟨roundUpToPowerOfTwo (array.resizeFactor * array.capacity), hle, hlt, ?_⟩
  have hproduct : array.resizeFactor * array.capacity % 2 ^ 64 =
    array.resizeFactor * array.capacity :=
    Nat.mod_eq_of_lt (by omega)
  have hbytes : roundUpToPowerOfTwo (array.resizeFactor * array.capacity) * 8 % 2 ^ 64 =
      roundUpToPowerOfTwo (array.resizeFactor * array.capacity) * 8 :=
    Nat.mod_eq_of_lt (by omega)
  unfold grow
  dsimp only
  rw [hproduct, hbytes]

/-- A full array of at least one cell gets more cells. -/
theorem Represents.grow (h : Represents list array) (fresh : ℕ → Pointer)
    (hpos : 0 < array.capacity) (hfull : array.size = array.capacity)
    (hbound : array.resizeFactor * array.capacity ≤ 2 ^ 60) :
    Represents list (array.grow fresh) ∧ (array.grow fresh).size = array.size ∧
      array.size < (array.grow fresh).memory.length := by
  have halloc := h.allocated
  have hbounded := h.bounded
  have hdouble : 2 * array.capacity ≤ array.resizeFactor * array.capacity :=
    Nat.mul_le_mul_right _ h.factor
  obtain ⟨capacity, hle, hlt, hgrow⟩ := grow_eq array fresh (by decide) (by omega) hbound
  have hlen : (realloc array.memory (capacity * 8) fresh).length = capacity :=
    length_realloc _ _ _
  rw [hgrow]
  refine ⟨⟨?_, ?_, hlen.le, ?_, h.factor⟩, rfl, ?_⟩
  · show (realloc array.memory (capacity * 8) fresh).take array.size = list
    have htake : array.memory.take (capacity * 8 / 8) = array.memory := by
      rw [Nat.mul_div_cancel _ (by decide)]
      exact take_of_length_le (by omega)
    unfold realloc
    rw [htake, take_append_of_le_length halloc]
    exact h.elements
  all_goals
    dsimp only
    rw [hlen]
    omega

/-- An addition where there is a cell. -/
theorem Represents.add_of_room (h : Represents list array) (value : Pointer)
    (hroom : array.size < array.memory.length) :
    ∃ next, ((array.write array.size value).bind fun array =>
        some { array with size := (array.size + 1) % 2 ^ 64 }) = some next ∧
      Represents (list ++ [value]) next := by
  have hlen := h.length
  have hfits := h.fits
  have hbounded := h.bounded
  refine ⟨{ array with memory := array.memory.set array.size value, size := array.size + 1 }, ?_,
    ?_⟩
  · unfold write
    rw [if_pos hroom, Option.bind_some]
    dsimp only
    rw [Nat.mod_eq_of_lt (by omega)]
  · refine ⟨?_, ?_, ?_, ?_, h.factor⟩
    · show (array.memory.set array.size value).take (array.size + 1) = _
      rw [take_add_one, take_set_of_le le_rfl, getElem?_set_self hroom,
        ← h.elements]
      rfl
    all_goals
      dsimp only
      rw [length_set]
    · exact hroom
    · exact hbounded
    · exact hfits

theorem Represents.add (h : Represents list array) (value : Pointer) (fresh : ℕ → Pointer)
    (htame : array.size < array.memory.length ∨ 0 < array.capacity ∧ array.size = array.capacity ∧
      array.resizeFactor * array.capacity ≤ 2 ^ 60) :
    ∃ next, array.add value fresh = some next ∧ Represents (list ++ [value]) next := by
  have hbounded := h.bounded
  unfold PointerArray.add
  rcases htame with hroom | ⟨hpos, hfull, hbound⟩
  · rw [if_neg (by omega)]
    exact h.add_of_room value hroom
  · obtain ⟨hgrown, hsize, hroom⟩ := h.grow fresh hpos hfull hbound
    rw [if_pos hfull.ge]
    exact hgrown.add_of_room value (by omega)

/-- A tame call does what it does on the list. -/
theorem Represents.apply (h : Represents list array) {results : List Pointer} {call : ArrayCall}
    (htame : Tame (array, results) call) :
    ∃ next, array.apply call = some ((call.onList list).1, next) ∧
      Represents (call.onList list).2 next := by
  cases call with
  | get index => exact ⟨array, h.get index, h⟩
  | set index value => exact h.set index value htame
  | removeRange start count =>
    obtain ⟨next, hnext, hrepresents⟩ := h.removeRange start count htame
    exact ⟨next, congrArg (Option.map _) hnext, hrepresents⟩
  | remove index => exact h.remove index htame
  | removeLast => exact h.removeLast
  | add value fresh =>
    obtain ⟨next, hnext, hrepresents⟩ := h.add value fresh htame
    exact ⟨next, congrArg (Option.map _) hnext, hrepresents⟩

/-- A run of tame calls goes through, and the array holds what the list holds. -/
theorem Represents.run (h : Represents list array) {results : List Pointer} {calls : List ArrayCall}
    (htame : Along step Tame (array, results) calls) :
    ∃ next results', Transition.run step (array, results) calls = some (next, results') ∧
      Represents (calls.foldl stepList (list, results)).1 next ∧
      results' = (calls.foldl stepList (list, results)).2 := by
  induction calls generalizing array list results with
  | nil => exact ⟨array, results, rfl, h, rfl⟩
  | cons call calls ih =>
    obtain ⟨next, hnext, hrepresents⟩ := h.apply htame.1
    have hstep : step (array, results) call =
        some (next, results ++ [(call.onList list).1]) := by
      unfold step
      rw [hnext]
      rfl
    obtain ⟨last, results', hrun, hlast, hresults⟩ := ih hrepresents (htame.2 _ hstep)
    refine ⟨last, results', ?_, hlast, hresults⟩
    rw [run_cons, hstep]
    exact hrun

end Represents

/-- In a run of tame calls the array refines a list throughout. -/
theorem refines_of_tame (initialCapacity : ℕ) {resizeFactor : ℕ} (hfactor : 2 ≤ resizeFactor)
    {calls : List ArrayCall}
    (htame : Along step Tame (create initialCapacity resizeFactor, []) calls)
    (front back : List ArrayCall) (hfront : calls = front ++ back) :
    Refines initialCapacity resizeFactor front := by
  subst hfront
  obtain ⟨array, results, hrun, hrepresents, hresults⟩ :=
    (represents_create initialCapacity hfactor).run (along_append htame)
  have hallocated := hrepresents.allocated
  refine ⟨array, results, hrun, hallocated.trans hrepresents.bounded, ?_, ?_⟩
  · rw [hrepresents.elements, hrepresents.length]
  · exact Prod.ext hrepresents.elements hresults

/-- An array that grows from two cells to four, gives up its last elements and takes a new one. -/
theorem refines_of_tame_six : Refines 2 2 [.add 5 fun _ => 0, .add 6 fun _ => 0, .add 7 fun _ => 0,
    .remove 2, .removeRange 1 1, .set 0 9] :=
  refines_of_tame 2 le_rfl (by decide +kernel) _ [] (List.append_nil _).symm

/-- Two elements, and the first is removed: the cells that are moved begin eight cells behind the
removed one. -/
theorem not_refines : ¬∀ initialCapacity resizeFactor calls, 2 ≤ resizeFactor →
    Refines initialCapacity resizeFactor calls := by
  intro h
  obtain ⟨array, results, hrun, -, -, hlist⟩ :=
    h 16 2 [.add 5 fun _ => 0, .add 6 fun _ => 0, .remove 0] le_rfl
  have hmoved : run step (create 16 2, []) [.add 5 fun _ => 0, .add 6 fun _ => 0, .remove 0] =
      some (⟨16, 1, 2, List.replicate 1 0 ++ [6] ++ List.replicate 14 0⟩, [0, 0, 5]) := by
    decide +kernel
  obtain ⟨rfl, rfl⟩ := Prod.mk.inj (Option.some.inj (hmoved.symm.trans hrun))
  exact absurd (Prod.mk.inj hlist).1 (by decide)

end PointerArray

end FengShui
