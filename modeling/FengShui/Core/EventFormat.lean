import FengShui.Core.Events

/-!
# The text of an event (`event_format` of `core/native/events/event.c`)

The text is printed part by part into a buffer of `EVENT_BUFFER` bytes: a header, the module, and a
line for each field. Every `snprintf` gets the rest of the buffer for its limit, and `size` grows by
what it returns, which is the length of the part and not of what was kept of it. `staysInBuffer_iff`
says for which events the limit is still the rest of the buffer at each call.
-/

namespace FengShui.EventFormat

open Events List

/-- `EVENT_BUFFER`. -/
def eventBuffer : ℕ := 16 * 1024

/-- `INT_MAX`. -/
def intMax : ℕ := 2 ^ 31 - 1

/-! ## The parts of the text -/

/-- The conversions of `printf` that are not written out here. -/
structure Conversions where
  /-- `%lf`, of the bits of a double. -/
  double : UInt64 → Uint8List
  /-- `%p`. -/
  address : UInt64 → Uint8List

/-- `event_field_structure`, of its seven types. A string is the bytes in front of its zero. -/
inductive FieldData where
  | boolean (value : Bool)
  | unsigned (number : UInt64)
  | signed (number : Int64)
  | double (bits : UInt64)
  | string (bytes : Uint8List)
  | address (pointer : UInt64)
  | character (value : UInt8)
  deriving DecidableEq, Repr

structure EventField where
  name : Uint8List
  data : FieldData
  deriving DecidableEq, Repr

/-- What is read of an `event`; `time` is the text of its timestamp. -/
structure FormattedEvent where
  level : UInt8
  time : Uint8List
  function : Uint8List
  file : Uint8List
  line : UInt32
  raisedModuleName : Option Uint8List
  fields : List EventField
  fields_le : fields.length ≤ eventFieldsMaximum

/-- The bytes of an ASCII literal. -/
def ascii (text : String) : Uint8List :=
  text.toList.map fun character => UInt8.ofNat character.toNat

/-- `%d` and `%ld`. -/
def decimal (number : ℤ) : Uint8List := ascii (toString number)

/-- The labels of the levels. -/
def levelLabel (level : UInt8) : Uint8List :=
  match level.toNat with
  | 0 => ascii "(panic)"
  | 1 => ascii "(error)"
  | 2 => ascii "(warning)"
  | 3 => ascii "(information)"
  | 4 => ascii "(trace)"
  | _ => ascii "(unknown)"

/-- `EVENT_FORMAT`: `"[%s] %s: %s(...) %s:%d\n"`. -/
def headerText (event : FormattedEvent) : Uint8List :=
  ascii "[" ++ event.time ++ ascii "] " ++ levelLabel event.level ++ ascii ": " ++ event.function ++
    ascii "(...) " ++ event.file ++ ascii ":" ++ decimal event.line.toInt32.toInt ++ ascii "\n"

/-- `EVENT_MODULE_PART`: `"module = %s\n"`. -/
def moduleText (name : Uint8List) : Uint8List := ascii "module = " ++ name ++ ascii "\n"

/-- The second argument of the format of a field. An unsigned number is printed by `%ld`. -/
def dataText (conversions : Conversions) : FieldData → Uint8List
  | .boolean value => ascii (if value then "true" else "false")
  | .unsigned number => decimal number.toInt64.toInt
  | .signed number => decimal number.toInt
  | .double bits => conversions.double bits
  | .string bytes => bytes
  | .address pointer => conversions.address pointer
  | .character value => [value]

/-- `EVENT_FIELD_STRING_FORMAT` and its siblings. -/
def fieldText (conversions : Conversions) (field : EventField) : Uint8List :=
  field.name ++ ascii " = " ++ dataText conversions field.data ++ ascii "\n"

/-- The parts in the order of their printing. -/
def parts (conversions : Conversions) (event : FormattedEvent) : List Uint8List :=
  headerText event :: (event.raisedModuleName.toList.map moduleText ++
    event.fields.map (fieldText conversions))

/-! ## Printing -/

/-- `snprintf` at a position of the memory that starts at the buffer: what it returns, and the
memory. Of the text it keeps what is below the limit, with a zero behind it. -/
def snprintf (position limit : ℕ) (text : Uint8List) (memory : ℕ → UInt8) : ℤ × (ℕ → UInt8) :=
  let kept := min text.length (limit - 1)
  (if text.length ≤ intMax then text.length else -1,
    if limit = 0 then memory
    else fun index =>
      if position ≤ index ∧ index < position + kept then text.getD (index - position) 0
      else if index = position + kept then 0
      else memory index)

/-- `EVENT_BUFFER - size`, of the type `size_t`. -/
def remaining (size : ℕ) : ℕ := (eventBuffer + (2 ^ 64 - size)) % 2 ^ 64

/-- The variables of `event_format`, and the values of `size` at the calls of `snprintf`. -/
structure Printing where
  size : ℕ
  memory : ℕ → UInt8
  sizes : List ℕ

/-- The calls of `snprintf`, each with `if (written < 0) return buffer` and `size += written` behind
it. -/
def printParts : List Uint8List → Printing → Printing
  | [], printing => printing
  | text :: texts, printing =>
    let (written, memory) := snprintf printing.size (remaining printing.size) text printing.memory
    let printed := { printing with memory, sizes := printing.sizes ++ [printing.size] }
    if written < 0 then printed
    else printParts texts { printed with size := (printed.size + written.toNat) % 2 ^ 64 }

/-- `event_format`, with a buffer at the start of the memory. -/
def eventFormat (conversions : Conversions) (event : FormattedEvent) (memory : ℕ → UInt8) :
    Printing :=
  printParts (parts conversions event)
    ⟨0, fun index => if index < eventBuffer then 0 else memory index, []⟩

/-- `size` is within the buffer at every call, and nothing behind the buffer is written. -/
def StaysInBuffer (conversions : Conversions) (event : FormattedEvent) : Prop :=
  ∀ memory, (∀ size ∈ (eventFormat conversions event memory).sizes, size ≤ eventBuffer) ∧
    ∀ index, eventBuffer ≤ index → (eventFormat conversions event memory).memory index =
      memory index

/-- In front of no part there is more text than the buffer has bytes. A part that is longer than an
`int` can say is the last one. -/
def FitsInFront (texts : List Uint8List) : Prop :=
  ∀ front text back, texts = front ++ text :: back → (∀ before ∈ front, before.length ≤ intMax) →
    (front.map List.length).sum ≤ eventBuffer

/-! ## One call -/

theorem snprintf_of_le {text : Uint8List} (position limit : ℕ) (memory : ℕ → UInt8)
    (h : text.length ≤ intMax) : (snprintf position limit text memory).1 = text.length := by
  unfold snprintf
  rw [if_pos h]

theorem snprintf_of_gt {text : Uint8List} (position limit : ℕ) (memory : ℕ → UInt8)
    (h : ¬text.length ≤ intMax) : (snprintf position limit text memory).1 = -1 := by
  unfold snprintf
  rw [if_neg h]

/-- No byte from `position + limit` on is written. -/
theorem snprintf_kept {position limit index : ℕ} (text : Uint8List) (memory : ℕ → UInt8)
    (h : position + limit ≤ index) :
    (snprintf position limit text memory).2 index = memory index := by
  have hkept : min text.length (limit - 1) ≤ limit - 1 := Nat.min_le_right _ _
  unfold snprintf
  dsimp only
  by_cases hlimit : limit = 0
  · rw [if_pos hlimit]
  · rw [if_neg hlimit, if_neg (by omega), if_neg (by omega)]

theorem remaining_of_le {size : ℕ} (h : size ≤ eventBuffer) :
    remaining size = eventBuffer - size := by
  unfold remaining
  unfold eventBuffer at h ⊢
  omega

/-! ## All calls -/

/-- `FitsInFront` of the parts that follow on so many bytes. -/
def FitsFrom : ℕ → List Uint8List → Prop
  | _, [] => True
  | size, text :: texts =>
    size ≤ eventBuffer ∧ (text.length ≤ intMax → FitsFrom (size + text.length) texts)

theorem fitsFrom_iff (size : ℕ) (texts : List Uint8List) :
    FitsFrom size texts ↔ ∀ front text back, texts = front ++ text :: back →
      (∀ before ∈ front, before.length ≤ intMax) →
        size + (front.map List.length).sum ≤ eventBuffer := by
  induction texts generalizing size with
  | nil =>
    refine iff_of_true trivial fun front text back h => ?_
    exact absurd h.symm (append_ne_nil_of_right_ne_nil front (cons_ne_nil text back))
  | cons text texts ih =>
    rw [FitsFrom]
    constructor
    · rintro ⟨hsize, hrest⟩ front other back h hshort
      cases front with
      | nil => exact hsize
      | cons first front =>
        obtain ⟨rfl, rfl⟩ := List.cons.inj h
        have hfirst := hrest (hshort text mem_cons_self)
        have hsum := (ih (size + text.length)).mp hfirst front other back rfl fun before hmem =>
          hshort before (mem_cons_of_mem text hmem)
        rw [map_cons, sum_cons]
        omega
    · intro h
      refine ⟨h [] text texts rfl nofun, fun hshort => ?_⟩
      rw [ih]
      rintro front other back rfl hfront
      have hsum := h (text :: front) other back rfl (forall_mem_cons.mpr ⟨hshort, hfront⟩)
      rw [map_cons, sum_cons] at hsum
      omega

/-- The sizes at the calls are within the buffer if and only if the parts fit. -/
theorem sizes_printParts {texts : List Uint8List} {printing : Printing}
    (hroom : printing.size + texts.length * intMax < 2 ^ 64) :
    (∀ size ∈ (printParts texts printing).sizes, size ≤ eventBuffer) ↔
      (∀ size ∈ printing.sizes, size ≤ eventBuffer) ∧ FitsFrom printing.size texts := by
  induction texts generalizing printing with
  | nil => exact (and_iff_left trivial).symm
  | cons text texts ih =>
    have hsizes : (∀ size ∈ printing.sizes ++ [printing.size], size ≤ eventBuffer) ↔
        (∀ size ∈ printing.sizes, size ≤ eventBuffer) ∧ printing.size ≤ eventBuffer := by
      rw [forall_mem_append, forall_mem_singleton]
    rw [FitsFrom, ← and_assoc, ← hsizes]
    unfold printParts
    dsimp only
    by_cases hshort : text.length ≤ intMax
    · rw [length_cons, Nat.add_one_mul] at hroom
      have hsum : (printing.size + text.length) % 2 ^ 64 = printing.size + text.length :=
        Nat.mod_eq_of_lt (by omega)
      rw [snprintf_of_le _ _ _ hshort,
        if_neg (by omega), Int.toNat_natCast, hsum, ih (by dsimp only; omega)]
      exact and_congr_right fun _ => ⟨fun h _ => h, fun h => h hshort⟩
    · -- The part ends the printing.
      rw [snprintf_of_gt _ _ _ hshort, if_pos (by decide)]
      exact (and_iff_left fun hle => absurd hle hshort).symm

/-- Where they do, no byte behind the buffer is written. -/
theorem memory_printParts {texts : List Uint8List} {printing : Printing}
    (hroom : printing.size + texts.length * intMax < 2 ^ 64) (h : FitsFrom printing.size texts)
    {index : ℕ} (hidx : eventBuffer ≤ index) :
    (printParts texts printing).memory index = printing.memory index := by
  induction texts generalizing printing with
  | nil => rfl
  | cons text texts ih =>
    obtain ⟨hsize, hrest⟩ := h
    have hcall : (snprintf printing.size (remaining printing.size) text printing.memory).2 index =
        printing.memory index := by
      apply snprintf_kept
      rw [remaining_of_le hsize]
      omega
    unfold printParts
    dsimp only
    by_cases hshort : text.length ≤ intMax
    · rw [length_cons, Nat.add_one_mul] at hroom
      have hsum : (printing.size + text.length) % 2 ^ 64 = printing.size + text.length :=
        Nat.mod_eq_of_lt (by omega)
      rw [snprintf_of_le _ _ _ hshort, if_neg (by omega), Int.toNat_natCast, hsum,
        ih (by dsimp only; omega) (hrest hshort)]
      exact hcall
    · rw [snprintf_of_gt _ _ _ hshort, if_pos (by decide)]
      exact hcall

/-! ## An event -/

theorem length_parts (conversions : Conversions) (event : FormattedEvent) :
    (parts conversions event).length ≤ 22 := by
  have hmodule : (event.raisedModuleName.toList.map moduleText).length ≤ 1 := by
    rw [length_map]
    cases event.raisedModuleName with
    | none => exact Nat.zero_le 1
    | some name => exact le_rfl
  have hfields : (event.fields.map (fieldText conversions)).length ≤ 20 := by
    rw [length_map]
    exact event.fields_le
  rw [parts, length_cons, length_append]
  omega

theorem room_parts (conversions : Conversions) (event : FormattedEvent) :
    0 + (parts conversions event).length * intMax < 2 ^ 64 := by
  have hle : (parts conversions event).length * intMax ≤ 22 * intMax :=
    Nat.mul_le_mul_right _ (length_parts conversions event)
  unfold intMax at hle ⊢
  omega

theorem fitsInFront_iff (texts : List Uint8List) : FitsInFront texts ↔ FitsFrom 0 texts := by
  rw [fitsFrom_iff]
  simp only [Nat.zero_add]
  rfl

theorem fitsInFront_of_stays {conversions : Conversions} {event : FormattedEvent}
    (h : StaysInBuffer conversions event) : FitsInFront (parts conversions event) := by
  obtain ⟨hsizes, -⟩ := h fun _ => 0
  exact (fitsInFront_iff _).mpr ((sizes_printParts (room_parts conversions event)).mp hsizes).2

/-- The text of an event stays in its buffer if and only if the text in front of each part fits into
it. -/
theorem staysInBuffer_iff (conversions : Conversions) (event : FormattedEvent) :
    StaysInBuffer conversions event ↔ FitsInFront (parts conversions event) := by
  refine ⟨fitsInFront_of_stays, fun h memory => ?_⟩
  have hroom := room_parts conversions event
  have hfits : FitsFrom 0 (parts conversions event) := (fitsInFront_iff _).mp h
  refine ⟨(sizes_printParts hroom).mpr ⟨nofun, hfits⟩, fun index hindex => ?_⟩
  unfold eventFormat
  rw [memory_printParts hroom hfits hindex]
  exact if_neg (Nat.not_lt.mpr hindex)

/-- A string of so many bytes, and a field behind it. -/
def longEvent (length : ℕ) : FormattedEvent where
  level := 1
  time := ascii "2024-01-01 00:00:00.000000"
  function := ascii "f"
  file := ascii "f.c"
  line := 1
  raisedModuleName := none
  fields := [⟨ascii "message", .string (List.replicate length 0x61)⟩, ⟨ascii "code", .signed 1⟩]
  fields_le := show 2 ≤ eventFieldsMaximum by decide

/-- The line of the string is longer than the buffer, and the next limit is `2 ^ 64` less what it
has too much. -/
theorem long_string_overflows : ¬∀ conversions event, StaysInBuffer conversions event := by
  intro h
  let conversions : Conversions := ⟨fun _ => [], fun _ => []⟩
  have hfits := fitsInFront_of_stays (h conversions (longEvent eventBuffer))
  have hheader : (headerText (longEvent eventBuffer)).length = 51 := by decide
  have hstring : (fieldText conversions
      ⟨ascii "message", .string (List.replicate eventBuffer 0x61)⟩).length = eventBuffer + 11 := by
    have hname : (ascii "message").length = 7 := by decide
    have hsign : (ascii " = ").length = 3 := by decide
    have hline : (ascii "\n").length = 1 := by decide
    unfold fieldText dataText
    rw [List.length_append, List.length_append, List.length_append, hname, hsign, hline,
      List.length_replicate]
    omega
  have hshort : ∀ before ∈ [headerText (longEvent eventBuffer), fieldText conversions
      ⟨ascii "message", .string (List.replicate eventBuffer 0x61)⟩], before.length ≤ intMax := by
    rw [List.forall_mem_cons, List.forall_mem_singleton, hheader, hstring]
    decide
  have hsum := hfits _ _ [] rfl hshort
  rw [List.map_cons, List.map_singleton, List.sum_cons, List.sum_singleton, hheader,
    hstring] at hsum
  omega

end FengShui.EventFormat
