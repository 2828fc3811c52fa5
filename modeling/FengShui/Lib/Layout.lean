import Mathlib.Data.List.Basic
import Mathlib.Logic.Function.Basic
import Mathlib.Tactic.Ring

/-!
# Structures in a memory of bytes

Numbers lie in the memory with their low byte first. The fields of a structure lie one behind the
other, each at the next address of its alignment, so that no field touches another one
(`fieldOffset_apart`). What is read from a field of a filled structure is what was last written to
it (`readField_fill`), for any memory that is the same at that field.
-/

namespace FengShui.Lib.Layout

/-! ## Numbers -/

/-- The number in some bytes of the memory. -/
def readLE (memory : ℕ → UInt8) : ℕ → ℕ → ℕ
  | _, 0 => 0
  | address, width + 1 => (memory address).toNat + 256 * readLE memory (address + 1) width

/-- The memory with a number in some bytes. -/
def writeLE (memory : ℕ → UInt8) : ℕ → ℕ → ℕ → (ℕ → UInt8)
  | _, 0, _ => memory
  | address, width + 1, value =>
    Function.update (writeLE memory (address + 1) width (value / 256)) address (UInt8.ofNat value)

theorem readLE_congr {memory other : ℕ → UInt8} {address width : ℕ}
    (h : ∀ a, address ≤ a → a < address + width → memory a = other a) :
    readLE memory address width = readLE other address width := by
  induction width generalizing address with
  | zero => rfl
  | succ width ih =>
    rw [readLE, readLE, h address le_rfl (by omega)]
    rw [ih fun a hlow hhigh => h a (by omega) (by omega)]

theorem writeLE_outside (memory : ℕ → UInt8) {address width value a : ℕ}
    (h : a < address ∨ address + width ≤ a) : writeLE memory address width value a = memory a := by
  induction width generalizing address value with
  | zero => rfl
  | succ width ih =>
    rw [writeLE, Function.update_of_ne (by omega), ih (by omega)]

theorem readLE_writeLE (memory : ℕ → UInt8) (address width value : ℕ) :
    readLE (writeLE memory address width value) address width = value % 256 ^ width := by
  induction width generalizing address value with
  | zero => rw [readLE, pow_zero, Nat.mod_one]
  | succ width ih =>
    have hrest : readLE (writeLE memory address (width + 1) value) (address + 1) width =
        value / 256 % 256 ^ width := by
      rw [← ih]
      refine readLE_congr fun a hlow _ => ?_
      rw [writeLE, Function.update_of_ne (by omega)]
    have hbyte : (writeLE memory address (width + 1) value address).toNat = value % 256 := by
      rw [writeLE, Function.update_self, UInt8.toNat_ofNat']
    rw [readLE, hrest, hbyte, pow_succ', Nat.mod_mul]

theorem readLE_writeLE_apart (memory : ℕ → UInt8) {address width value other otherWidth : ℕ}
    (h : other + otherWidth ≤ address ∨ address + width ≤ other) :
    readLE (writeLE memory address width value) other otherWidth = readLE memory other otherWidth :=
  readLE_congr fun _ _ _ => writeLE_outside memory (by omega)

/-! ## Structures -/

/-- The size and the alignment of the type of a field. -/
structure FieldType where
  size : ℕ
  alignment : ℕ

/-- The next address of an alignment. -/
def alignUp (n alignment : ℕ) : ℕ := (n + (alignment - 1)) / alignment * alignment

theorem le_alignUp {n alignment : ℕ} (h : 0 < alignment) : n ≤ alignUp n alignment := by
  have hdiv := Nat.div_add_mod (n + (alignment - 1)) alignment
  have hmod := Nat.mod_lt (n + (alignment - 1)) h
  rw [alignUp, Nat.mul_comm]
  omega

variable {Name : Type} [DecidableEq Name] (type : Name → FieldType)

/-- Where the fields from some offset on end. -/
def endOf : ℕ → List Name → ℕ
  | start, [] => start
  | start, name :: names => endOf (alignUp start (type name).alignment + (type name).size) names

/-- The offset of a field among those from some offset on. -/
def offsetFrom : ℕ → List Name → Name → ℕ
  | start, [], _ => start
  | start, field :: names, name =>
    if field = name then alignUp start (type field).alignment
    else offsetFrom (alignUp start (type field).alignment + (type field).size) names name

/-- The offset of a field. -/
def fieldOffset (names : List Name) (name : Name) : ℕ := offsetFrom type 0 names name

/-- The alignment of a structure is the largest one of its fields. -/
def structureAlignment (names : List Name) : ℕ :=
  (names.map fun name => (type name).alignment).foldr max 1

/-- The size of a structure (`sizeof`). -/
def structureSize (names : List Name) : ℕ :=
  alignUp (endOf type 0 names) (structureAlignment type names)

variable {type} {names : List Name} {name other : Name}

theorem le_offsetFrom (halign : ∀ name, 0 < (type name).alignment) (start : ℕ) :
    start ≤ offsetFrom type start names name := by
  induction names generalizing start with
  | nil => exact le_rfl
  | cons field names ih =>
    rw [offsetFrom]
    have hle := le_alignUp (n := start) (halign field)
    split
    · exact hle
    · exact hle.trans ((Nat.le_add_right _ _).trans (ih _))

theorem offsetFrom_apart (halign : ∀ name, 0 < (type name).alignment) (hname : name ∈ names)
    (hother : other ∈ names) (hne : name ≠ other) (start : ℕ) :
    offsetFrom type start names name + (type name).size ≤ offsetFrom type start names other ∨
      offsetFrom type start names other + (type other).size ≤ offsetFrom type start names name := by
  induction names generalizing start with
  | nil => exact absurd hname List.not_mem_nil
  | cons field names ih =>
    rw [offsetFrom, offsetFrom]
    by_cases hfield : field = name
    · subst hfield
      rw [if_pos rfl, if_neg hne]
      exact .inl (le_offsetFrom halign _)
    · by_cases hfield' : field = other
      · subst hfield'
        rw [if_neg hfield, if_pos rfl]
        exact .inr (le_offsetFrom halign _)
      · rw [if_neg hfield, if_neg hfield']
        have hname' := (List.mem_cons.mp hname).resolve_left (Ne.symm hfield)
        have hother' := (List.mem_cons.mp hother).resolve_left (Ne.symm hfield')
        exact ih hname' hother' _

/-- No two fields of a structure share a byte. -/
theorem fieldOffset_apart (halign : ∀ name, 0 < (type name).alignment) (hname : name ∈ names)
    (hother : other ∈ names) (hne : name ≠ other) :
    fieldOffset type names name + (type name).size ≤ fieldOffset type names other ∨
      fieldOffset type names other + (type other).size ≤ fieldOffset type names name :=
  offsetFrom_apart halign hname hother hne 0

/-! ## Filling a structure -/

variable (type names)

/-- The number in a field of a structure. -/
def readField (memory : ℕ → UInt8) (address : ℕ) (name : Name) : ℕ :=
  readLE memory (address + fieldOffset type names name) (type name).size

/-- The memory with a number in a field of a structure. -/
def writeField (memory : ℕ → UInt8) (address : ℕ) (name : Name) (value : ℤ) : ℕ → UInt8 :=
  writeLE memory (address + fieldOffset type names name) (type name).size
    (value % (256 ^ (type name).size : ℕ)).toNat

/-- The memory with numbers in fields of a structure. -/
def fill (memory : ℕ → UInt8) (address : ℕ) (fields : List (Name × ℤ)) : ℕ → UInt8 :=
  fields.foldl (fun memory field => writeField type names memory address field.1 field.2) memory

variable {type names} (memory : ℕ → UInt8) (address : ℕ)

/-- A field holds as many bytes as its type has. -/
theorem writeField_congr (name : Name) {value other : ℤ}
    (h : value % (256 ^ (type name).size : ℕ) = other % (256 ^ (type name).size : ℕ)) :
    writeField type names memory address name value =
      writeField type names memory address name other := by
  rw [writeField, writeField, h]

theorem readField_writeField (name : Name) (value : ℤ) :
    (readField type names (writeField type names memory address name value) address name : ℤ) =
      value % (256 ^ (type name).size : ℕ) := by
  have hpos : (0 : ℤ) < (256 ^ (type name).size : ℕ) := by exact_mod_cast Nat.pow_pos (by decide)
  have hnonneg := Int.emod_nonneg value hpos.ne'
  have hlt := Int.emod_lt_of_pos value hpos
  rw [readField, writeField, readLE_writeLE,
    Nat.mod_eq_of_lt (by omega), Int.toNat_of_nonneg hnonneg]

theorem readField_writeField_ne (halign : ∀ name, 0 < (type name).alignment) (hname : name ∈ names)
    (hother : other ∈ names) (hne : other ≠ name) (value : ℤ) :
    readField type names (writeField type names memory address name value) address other =
      readField type names memory address other := by
  have hapart := fieldOffset_apart halign hother hname hne
  exact readLE_writeLE_apart memory (by omega)

/-- What is in front of a structure is not touched. -/
theorem fill_front (fields : List (Name × ℤ)) {a : ℕ} (h : a < address) :
    fill type names memory address fields a = memory a := by
  induction fields generalizing memory with
  | nil => rfl
  | cons field fields ih =>
    exact (ih _).trans (writeLE_outside memory (.inl (h.trans_le (Nat.le_add_right _ _))))

theorem readField_fill_of_notMem
    (halign : ∀ name, 0 < (type name).alignment) (hother : other ∈ names)
    (fields : List (Name × ℤ)) (hfields : ∀ field ∈ fields, field.1 ∈ names ∧ field.1 ≠ other) :
    readField type names (fill type names memory address fields) address other =
      readField type names memory address other := by
  induction fields generalizing memory with
  | nil => rfl
  | cons field fields ih =>
    obtain ⟨hmem, hne⟩ := hfields field List.mem_cons_self
    have hrest := ih (writeField type names memory address field.1 field.2)
      fun rest hrest => hfields rest (List.mem_cons_of_mem _ hrest)
    exact hrest.trans (readField_writeField_ne memory address halign hmem hother hne.symm field.2)

/-- A field of a filled structure, when no field is filled twice. -/
theorem readField_fill (halign : ∀ name, 0 < (type name).alignment) {fields : List (Name × ℤ)}
    (hfields : ∀ field ∈ fields, field.1 ∈ names) (hnodup : (fields.map Prod.fst).Nodup) {value : ℤ}
    (hmem : (name, value) ∈ fields) :
    (readField type names (fill type names memory address fields) address name : ℤ) =
      value % (256 ^ (type name).size : ℕ) := by
  induction fields generalizing memory with
  | nil => exact absurd hmem List.not_mem_nil
  | cons field fields ih =>
    rw [List.map_cons, List.nodup_cons] at hnodup
    have hrest : ∀ rest ∈ fields, rest.1 ∈ names := fun rest hrest =>
      hfields rest (List.mem_cons_of_mem _ hrest)
    rcases List.mem_cons.mp hmem with rfl | hmem
    · have hothers : ∀ rest ∈ fields, rest.1 ∈ names ∧ rest.1 ≠ name := by
        intro rest hmem
        have hname : rest.1 ∈ fields.map Prod.fst := List.mem_map.mpr ⟨rest, hmem, rfl⟩
        exact ⟨hrest rest hmem, fun heq => hnodup.1 (heq ▸ hname)⟩
      have hkept :=
        readField_fill_of_notMem (writeField type names memory address name value) address
        halign (hfields _ List.mem_cons_self) fields hothers
      exact (congrArg Int.ofNat hkept).trans (readField_writeField memory address name value)
    · exact ih _ hrest hnodup.2 hmem

end FengShui.Lib.Layout
