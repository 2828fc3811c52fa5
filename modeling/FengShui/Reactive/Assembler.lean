import FengShui.Core.Dart
import FengShui.Lib.Binary64

/-!
# Cutting a payload into fragments (`reactive/assembler.dart`)

`disassemble` makes a list with a slot for each fragment, counted with a division of doubles, and
fills the slots with sublists of `size` bytes. The end of the last sublist is not limited to the
length of the payload, so the loop throws unless `size` divides that length
(`disassembleLoop_of_not_dvd`); when it does, the loop fills the slots with the pieces of the
payload (`disassembleLoop_of_dvd`), and what matters is that the slots are as many
(`disassembleLoop_of_few_slots`). `fragmentationLaw_iff` puts these together.
-/

namespace FengShui.Reactive

open List

namespace ReactiveAssembler

/-- One fragment after the other goes behind what is assembled. -/
def reassembleLoop : List Uint8List → Uint8List → ℕ → Except DartException Uint8List
  | [], assemble, _ => .ok assemble
  | fragment :: fragments, assemble, offset => do
    let assemble ← setRange assemble offset (offset + fragment.length) fragment
    reassembleLoop fragments assemble (offset + fragment.length)

def reassemble (fragments : List Uint8List) : Except DartException Uint8List :=
  let totalLength := fragments.foldl (fun current list => current + list.length) 0
  reassembleLoop fragments (List.replicate totalLength 0) 0

/-- `(payload.length / size).ceil()`, of doubles. -/
def fragmentSlots (length size : ℕ) : ℕ :=
  ⌈Binary64.div (Binary64.round length) (Binary64.round size)⌉.toNat

/-- The loop of `disassemble`, from `index` on and with the slots that are not yet filled. -/
def disassembleLoop (payload : Uint8List) (size : ℕ) :
    ℕ → List Uint8List → Except DartException (List Uint8List)
  | index, [] =>
    if index < payload.length then do
      let _ ← sublist payload index (index + size : ℕ)
      .error .rangeError
    else .ok []
  | index, slot :: slots =>
    if index < payload.length then do
      let fragment ← sublist payload index (index + size : ℕ)
      return fragment :: (← disassembleLoop payload size (index + size) slots)
    else .ok (slot :: slots)

def disassemble (payload : Uint8List) (size : ℕ) : Except DartException (List Uint8List) :=
  if size = 0 then .error .unsupportedError
  else
    disassembleLoop payload size 0 (List.replicate (fragmentSlots payload.length size) emptyBytes)

end ReactiveAssembler

open ReactiveAssembler

/-- What fragmenting a payload is for: the fewest fragments of at most `size` bytes, none empty,
that put together are the payload. -/
def FragmentationLaw (payload : Uint8List) (size : ℕ) : Prop :=
  ∃ fragments, disassemble payload size = .ok fragments ∧
    fragments.length = ⌈(payload.length : ℚ) / size⌉₊ ∧
    (∀ fragment ∈ fragments, fragment ≠ [] ∧ fragment.length ≤ size) ∧
    reassemble fragments = .ok payload

/-! ## Putting fragments together -/

theorem foldl_length (fragments : List Uint8List) (start : ℕ) :
    fragments.foldl (fun current list => current + list.length) start =
      start + fragments.flatten.length := by
  induction fragments generalizing start with
  | nil => rfl
  | cons fragment fragments ih =>
    rw [foldl_cons, ih, flatten_cons, length_append, Nat.add_assoc]

theorem reassembleLoop_eq (front back : Uint8List) (fragments : List Uint8List)
    (h : back.length = fragments.flatten.length) :
    reassembleLoop fragments (front ++ back) front.length = .ok (front ++ fragments.flatten) := by
  induction fragments generalizing front back with
  | nil =>
    obtain rfl : back = [] := eq_nil_of_length_eq_zero h
    rfl
  | cons fragment fragments ih =>
    rw [flatten_cons, length_append] at h
    have hset := setRange_append front (show fragment.length ≤ back.length by omega)
    have hrest := ih (front ++ fragment) (back.drop fragment.length)
      (by rw [length_drop]; omega)
    rw [length_append] at hrest
    rw [reassembleLoop, hset, flatten_cons, ← append_assoc, ← hrest]
    rfl

/-- Fragments are put together in order. -/
theorem reassemble_eq (fragments : List Uint8List) :
    reassemble fragments = .ok fragments.flatten := by
  have h := reassembleLoop_eq [] (List.replicate fragments.flatten.length 0) fragments (by simp)
  rw [reassemble, foldl_length, Nat.zero_add]
  exact h

/-! ## The loop -/

/-- The first `count` pieces of `size` bytes. -/
def pieces (size : ℕ) : ℕ → Uint8List → List Uint8List
  | 0, _ => []
  | count + 1, payload => payload.take size :: pieces size count (payload.drop size)

@[simp]
theorem length_pieces (size count : ℕ) (payload : Uint8List) :
    (pieces size count payload).length = count := by
  induction count generalizing payload with
  | zero => rfl
  | succ count ih => rw [pieces, length_cons, ih]

variable {size : ℕ} {payload : Uint8List} {fragments : List Uint8List}

/-- The pieces of a payload of their total length put together are that payload. -/
theorem flatten_pieces {count : ℕ} (h : payload.length = count * size) :
    (pieces size count payload).flatten = payload := by
  induction count generalizing payload with
  | zero => exact (eq_nil_of_length_eq_zero (by omega)).symm
  | succ count ih =>
    rw [Nat.succ_mul] at h
    rw [pieces, flatten_cons, ih (by rw [length_drop]; omega), take_append_drop]

/-- Each piece has the full size. -/
theorem length_of_mem_pieces {count : ℕ} {fragment : Uint8List}
    (h : payload.length = count * size) (hmem : fragment ∈ pieces size count payload) :
    fragment.length = size := by
  induction count generalizing payload with
  | zero => cases hmem
  | succ count ih =>
    rw [Nat.succ_mul] at h
    rcases mem_cons.mp hmem with rfl | hmem
    · rw [length_take]
      omega
    · exact ih (by rw [length_drop]; omega) hmem

section Loop

variable {payload : Uint8List} {size : ℕ} (hsize : 0 < size)
include hsize

variable {index count : ℕ}

/-- A payload whose rest is a multiple of the size fills a slot with each piece. -/
theorem disassembleLoop_of_dvd (h : payload.length = index + count * size)
    (slots : List Uint8List) (hslots : count ≤ slots.length) :
    disassembleLoop payload size index slots =
      .ok (pieces size count (payload.drop index) ++ slots.drop count) := by
  induction count generalizing index slots with
  | zero =>
    have hend : ¬index < payload.length := by omega
    cases slots <;> rw [disassembleLoop, if_neg hend] <;> rfl
  | succ count ih =>
    rw [Nat.succ_mul] at h
    cases slots with
    | nil => simp at hslots
    | cons slot slots =>
      have hpiece := sublist_ok payload (show index ≤ index + size by omega) (by omega)
      have hrest := ih (show payload.length = index + size + count * size by omega) slots
        (by simpa using hslots)
      rw [disassembleLoop, if_pos (by omega), hpiece, hrest, Nat.add_sub_cancel_left, pieces,
        drop_drop]
      rfl

/-- Without a slot for each piece the loop throws. -/
theorem disassembleLoop_of_few_slots (h : payload.length = index + count * size)
    (slots : List Uint8List) (hslots : slots.length < count) :
    disassembleLoop payload size index slots = .error .rangeError := by
  induction slots generalizing index count with
  | nil =>
    obtain ⟨count, rfl⟩ : ∃ n, count = n + 1 := ⟨count - 1, by simp at hslots; omega⟩
    rw [Nat.succ_mul] at h
    have hpiece := sublist_ok payload (show index ≤ index + size by omega) (by omega)
    rw [disassembleLoop, if_pos (by omega), hpiece]
    rfl
  | cons slot slots ih =>
    obtain ⟨count, rfl⟩ : ∃ n, count = n + 1 := ⟨count - 1, by simp at hslots; omega⟩
    rw [Nat.succ_mul] at h
    have hpiece := sublist_ok payload (show index ≤ index + size by omega) (by omega)
    have hrest := ih (show payload.length = index + size + count * size by omega)
      (by simpa using hslots)
    rw [disassembleLoop, if_pos (by omega), hpiece, hrest]
    rfl

/-- The last sublist ends behind the payload when the size does not divide the rest. -/
theorem disassembleLoop_of_not_dvd (hidx : index ≤ payload.length)
    (h : ¬size ∣ payload.length - index) (slots : List Uint8List) :
    disassembleLoop payload size index slots = .error .rangeError := by
  have hlt : index < payload.length := by
    refine lt_of_le_of_ne hidx fun heq => h ?_
    rw [heq, Nat.sub_self]
    exact dvd_zero size
  induction slots generalizing index with
  | nil =>
    rw [disassembleLoop, if_pos hlt]
    unfold sublist
    split <;> rfl
  | cons slot slots ih =>
    rw [disassembleLoop, if_pos hlt]
    by_cases hstop : index + size ≤ payload.length
    · have hpiece := sublist_ok payload (show index ≤ index + size by omega) hstop
      have hdvd : ¬size ∣ payload.length - (index + size) := by
        rw [← Nat.sub_sub]
        rwa [Nat.dvd_sub_iff_left (by omega) dvd_rfl]
      have hne : index + size ≠ payload.length := by
        rintro heq
        rw [heq, Nat.sub_self] at hdvd
        exact hdvd (dvd_zero size)
      rw [hpiece, ih hstop hdvd (by omega)]
      rfl
    · rw [sublist_error (by omega)]
      rfl

/-- What `disassemble` gives when the size divides the length and there is a slot for each
piece. -/
theorem disassemble_of_dvd (h : payload.length = count * size)
    (hslots : count ≤ fragmentSlots payload.length size) :
    disassemble payload size =
      .ok (pieces size count payload ++
        List.replicate (fragmentSlots payload.length size - count) emptyBytes) := by
  rw [disassemble, if_neg hsize.ne',
    disassembleLoop_of_dvd hsize (show payload.length = 0 + count * size by omega) _
      (by simpa using hslots), drop_replicate, drop_zero]

end Loop

/-- What `disassemble` gives when it does not throw. -/
theorem disassemble_eq_ok (h : disassemble payload size = .ok fragments) :
    ∃ count, payload.length = count * size ∧ fragments = pieces size count payload ++
      List.replicate (fragmentSlots payload.length size - count) emptyBytes := by
  have hsize : 0 < size := by
    by_contra hzero
    rw [disassemble, if_pos (by omega)] at h
    cases h
  have hloop := h
  rw [disassemble, if_neg hsize.ne'] at hloop
  by_cases hdvd : size ∣ payload.length
  · obtain ⟨count, hcount⟩ := hdvd
    rw [Nat.mul_comm] at hcount
    refine ⟨count, hcount, ?_⟩
    rcases lt_or_ge (fragmentSlots payload.length size) count with hlt | hslots
    · have hcount' : payload.length = 0 + count * size := by omega
      rw [disassembleLoop_of_few_slots hsize hcount' _ (by simpa using hlt)] at hloop
      cases hloop
    · rw [disassemble_of_dvd hsize hcount hslots] at h
      injection h with h
      exact h.symm
  · rw [disassembleLoop_of_not_dvd hsize (Nat.zero_le _) (by simpa using hdvd)] at hloop
    cases hloop

/-- The fragments put together are the payload. -/
theorem flatten_disassemble (h : disassemble payload size = .ok fragments) :
    fragments.flatten = payload := by
  obtain ⟨count, hcount, rfl⟩ := disassemble_eq_ok h
  rw [flatten_append, flatten_pieces hcount, flatten_eq_nil_iff.mpr, append_nil]
  intro fragment hmem
  exact (mem_replicate.mp hmem).2

theorem length_le_of_disassemble (h : disassemble payload size = .ok fragments)
    {fragment : Uint8List} (hmem : fragment ∈ fragments) : fragment.length ≤ size := by
  obtain ⟨count, hcount, rfl⟩ := disassemble_eq_ok h
  rcases mem_append.mp hmem with hmem | hmem
  · exact (length_of_mem_pieces hcount hmem).le
  · rw [(mem_replicate.mp hmem).2]
    exact Nat.zero_le size

theorem disassemble_ne_nil (hpay : payload ≠ [])
    (h : disassemble payload size = .ok fragments) : fragments ≠ [] := by
  rintro rfl
  exact hpay (flatten_disassemble h).symm

/-! ## The fragmentation law -/

/-- Up to `2 ^ 53` bytes, as many slots are made as the size goes into the length. -/
theorem fragmentSlots_of_dvd {length : ℕ} (hsize : 0 < size) (hdvd : size ∣ length)
    (h : length ≤ 2 ^ 53) : fragmentSlots length size = length / size := by
  obtain ⟨count, rfl⟩ := hdvd
  rw [Nat.mul_div_cancel_left count hsize, fragmentSlots]
  rcases Nat.eq_zero_or_pos count with rfl | hcount
  · simp [Binary64.div]
  · have hsize' : size ≤ 2 ^ 53 := le_trans (Nat.le_mul_of_pos_right size hcount) h
    have hcount' : count ≤ 2 ^ 53 := le_trans (Nat.le_mul_of_pos_left count hsize) h
    rw [Binary64.round_natCast h, Binary64.round_natCast hsize',
      Binary64.div_of_mul hsize.ne' (Nat.mul_comm size count) hcount', Int.ceil_natCast,
      Int.toNat_natCast]

/-- The number of fragments when the size divides the length. -/
theorem ceil_div_of_mul (hsize : 0 < size) (count : ℕ) :
    ⌈((count * size : ℕ) : ℚ) / size⌉₊ = count := by
  rw [Nat.cast_mul, mul_div_assoc, div_self (Nat.cast_ne_zero.mpr hsize.ne'), mul_one,
    Nat.ceil_natCast]

/-- The law needs a length that the size divides, and the exact number of slots. -/
theorem dvd_of_fragmentationLaw (hsize : 0 < size) (h : FragmentationLaw payload size) :
    size ∣ payload.length ∧ fragmentSlots payload.length size = payload.length / size := by
  obtain ⟨fragments, hok, -, hfrags, -⟩ := h
  have hloop := hok
  rw [disassemble, if_neg hsize.ne'] at hloop
  by_cases hdvd : size ∣ payload.length
  · obtain ⟨count, hcount⟩ := hdvd
    rw [Nat.mul_comm] at hcount
    rw [hcount, Nat.mul_div_cancel count hsize]
    refine ⟨dvd_mul_left size count, ?_⟩
    rw [← hcount]
    rcases Nat.lt_trichotomy (fragmentSlots payload.length size) count with hlt | heq | hgt
    · have hcount' : payload.length = 0 + count * size := by omega
      rw [disassembleLoop_of_few_slots hsize hcount' _ (by simpa using hlt)] at hloop
      cases hloop
    · exact heq
    · -- A slot that is left over is an empty fragment.
      rw [disassemble_of_dvd hsize hcount hgt.le] at hok
      injection hok with hok
      have hempty : emptyBytes ∈ fragments := by
        rw [← hok, mem_append]
        exact .inr (mem_replicate.mpr ⟨by omega, rfl⟩)
      exact absurd rfl (hfrags _ hempty).1
  · rw [disassembleLoop_of_not_dvd hsize (Nat.zero_le _) (by simpa using hdvd)] at hloop
    cases hloop

theorem fragmentationLaw_of_dvd (hsize : 0 < size) (hdvd : size ∣ payload.length)
    (hslots : fragmentSlots payload.length size = payload.length / size) :
    FragmentationLaw payload size := by
  obtain ⟨count, hcount⟩ := hdvd
  rw [Nat.mul_comm] at hcount
  have hslots' : fragmentSlots payload.length size = count := by
    rw [hslots, hcount, Nat.mul_div_cancel count hsize]
  refine ⟨pieces size count payload, ?_, ?_, fun fragment hmem => ?_, ?_⟩
  · rw [disassemble_of_dvd hsize hcount hslots'.ge, hslots', Nat.sub_self, replicate_zero,
      append_nil]
  · rw [length_pieces, hcount, ceil_div_of_mul hsize]
  · have hlen := length_of_mem_pieces hcount hmem
    exact ⟨fun h => by rw [h] at hlen; simp at hlen; omega, hlen.le⟩
  · rw [reassemble_eq, flatten_pieces hcount]

/-- **Fragmenting a payload is lawful exactly when the size divides its length** and the number of
slots comes out exact, which it does up to `2 ^ 53` bytes; otherwise `disassemble` throws or leaves
an empty slot. -/
theorem fragmentationLaw_iff (payload : Uint8List) (size : ℕ) (hsize : 0 < size) :
    (FragmentationLaw payload size ↔
      size ∣ payload.length ∧ fragmentSlots payload.length size = payload.length / size) ∧
    (payload.length ≤ 2 ^ 53 → (FragmentationLaw payload size ↔ size ∣ payload.length)) := by
  refine ⟨⟨dvd_of_fragmentationLaw hsize, fun h => fragmentationLaw_of_dvd hsize h.1 h.2⟩,
    fun hlen => ⟨fun h => (dvd_of_fragmentationLaw hsize h).1, fun hdvd => ?_⟩⟩
  exact fragmentationLaw_of_dvd hsize hdvd (fragmentSlots_of_dvd hsize hdvd hlen)

/-- Two bytes in fragments of one. -/
theorem disassemble_two (first second : UInt8) :
    disassemble [first, second] 1 = .ok [[first], [second]] := by
  have hslots : fragmentSlots 2 1 = 2 := by
    rw [fragmentSlots_of_dvd] <;> simp
  rw [disassemble_of_dvd Nat.one_pos (show [first, second].length = 2 * 1 from rfl) hslots.ge]
  simp [hslots, pieces]

/-- Four bytes in fragments of two. -/
theorem fragmentationLaw_iff_four : 0 < 2 ∧ FragmentationLaw [1, 2, 3, 4] 2 :=
  ⟨by decide, ((fragmentationLaw_iff [1, 2, 3, 4] 2 (by decide)).2 (by decide)).mpr (by decide)⟩

/-- Three bytes in fragments of two throw. -/
theorem not_fragmentationLaw_three :
    ¬FragmentationLaw [1, 2, 3] 2 ∧ disassemble [1, 2, 3] 2 = .error .rangeError := by
  have h : disassemble [1, 2, 3] 2 = .error .rangeError :=
    disassembleLoop_of_not_dvd (by decide) (by decide) (by decide) _
  refine ⟨?_, h⟩
  rintro ⟨fragments, hok, -⟩
  rw [h] at hok
  cases hok

end FengShui.Reactive
