import FengShui.Core.Dart
import FengShui.Lib.Bytes

/-!
# The read and write buffers (`reactive/buffer.dart`)

`ReactiveReadBuffer` is the growing buffer that the responder parses, and `Reading` is the monad of
its read operations: a read may return null, modelled by `none`, or throw, and keeps the state it
reached in both cases. `cursor pre rest` is the buffer whose reader stands between `pre` and `rest`;
on such buffers a read of available bytes moves the cursor over them (`readBytes_cursor`), and a
read past the end returns null and moves nothing (`readBytes_cursor_short`).

`ReactiveWriteBuffer` is the buffer that the writer fills, and `ReactiveRequesterBuffer` is the
buffer that coalesces frames into chunks.
-/

namespace FengShui.Reactive

open ByteString List

/-! ## `ReactiveReadBuffer` -/

structure ReactiveReadBuffer where
  data : List UInt8
  readerIndex : ℕ
  capacity : ℕ
  checkpointIndex : ℕ
  deriving DecidableEq, Repr

/-- A read operation: it may throw, and the buffer keeps what it did until then. -/
abbrev Reading := EStateM DartException ReactiveReadBuffer

namespace ReactiveReadBuffer

/-- The buffer of a fresh connection. -/
def new : ReactiveReadBuffer := ⟨[], 0, 0, 0⟩

def extend (b : ReactiveReadBuffer) (data : Uint8List) : ReactiveReadBuffer :=
  { b with data := b.data ++ data, capacity := b.capacity + data.length }

/-- `_data.sublist(_readerIndex)`: the reader never stands past the end of the data, so the range
check of `sublist` always succeeds. -/
def shrink (b : ReactiveReadBuffer) : ReactiveReadBuffer :=
  { b with
    data := b.data.drop b.readerIndex
    capacity := (b.data.drop b.readerIndex).length
    readerIndex := 0 }

def reset (_ : ReactiveReadBuffer) : ReactiveReadBuffer := ⟨[], 0, 0, 0⟩

def isReadable (b : ReactiveReadBuffer) : Bool := b.readerIndex < b.capacity

def save (b : ReactiveReadBuffer) : ReactiveReadBuffer :=
  { b with checkpointIndex := b.readerIndex }

def restore (b : ReactiveReadBuffer) : ReactiveReadBuffer :=
  { b with readerIndex := b.checkpointIndex }

def readInt8 : Reading (Option ℕ) := do
  let b ← get
  if b.readerIndex < b.capacity then
    match b.data[b.readerIndex]? with
    | some value =>
      set { b with readerIndex := b.readerIndex + 1 }
      return some value.toNat
    | none => throw .rangeError
  else return none

/-- The length is an `int`: the readers pass differences of untrusted lengths. -/
def readBytes (length : ℤ) : Reading (Option (List UInt8)) := do
  let b ← get
  if b.readerIndex + length ≤ b.capacity then
    match sublist b.data b.readerIndex (b.readerIndex + length) with
    | .ok array =>
      set { b with readerIndex := (b.readerIndex + length).toNat }
      return some array
    | .error e => throw e
  else return none

/-- `_bytesToNumber`. -/
def bytesToNumber (data : List UInt8) : ℕ := ofBytesBE data

def readInt16 : Reading (Option ℕ) := do return (← readBytes 2).map bytesToNumber

def readInt24 : Reading (Option ℕ) := do return (← readBytes 3).map bytesToNumber

def readInt32 : Reading (Option ℕ) := do return (← readBytes 4).map bytesToNumber

def readUint8List (length : ℤ) : Reading (Option Uint8List) := readBytes length

/-- The bytes that the reader has not reached. -/
def unread (b : ReactiveReadBuffer) : Uint8List := b.data.drop b.readerIndex

end ReactiveReadBuffer

open ReactiveReadBuffer

/-! ### Running a read operation -/

section Bind

variable {α β : Type} {m : Reading α} {f : α → Reading β} {b b' : ReactiveReadBuffer}

/-- A read that returned goes on with what it returned. -/
theorem bind_ok {a : α} (h : m b = .ok a b') : (m >>= f) b = f a b' := by
  change EStateM.bind m f b = _
  simp only [EStateM.bind, h]

/-- A read that threw ends the operation. -/
theorem bind_error {e : DartException} (h : m b = .error e b') : (m >>= f) b = .error e b' := by
  change EStateM.bind m f b = _
  simp only [EStateM.bind, h]

/-- An operation that returned had both of its parts return. -/
theorem bind_eq_ok {c : β} (h : (m >>= f) b = .ok c b') :
    ∃ a b₁, m b = .ok a b₁ ∧ f a b₁ = .ok c b' := by
  cases hm : m b with
  | ok a b₁ => exact ⟨a, b₁, rfl, by rwa [bind_ok hm] at h⟩
  | error e b₁ =>
    rw [bind_error hm] at h
    cases h

theorem get_bind {f : ReactiveReadBuffer → Reading β} : (get >>= f) b = f b b := rfl

end Bind

/-! ### Cursors -/

/-- The buffer that holds `pre ++ rest` with the reader between the two. -/
def cursor (pre rest : Uint8List) (checkpoint : ℕ) : ReactiveReadBuffer :=
  ⟨pre ++ rest, pre.length, (pre ++ rest).length, checkpoint⟩

section Cursor

variable (pre rest : Uint8List) (checkpoint : ℕ)

theorem new_eq_cursor : new = cursor [] [] 0 := rfl

@[simp]
theorem unread_cursor : (cursor pre rest checkpoint).unread = rest := by
  simp [unread, cursor]

@[simp]
theorem readerIndex_cursor : (cursor pre rest checkpoint).readerIndex = pre.length := rfl

@[simp]
theorem extend_cursor (data : Uint8List) :
    (cursor pre rest checkpoint).extend data = cursor pre (rest ++ data) checkpoint := by
  simp [extend, cursor, Nat.add_assoc]

@[simp]
theorem shrink_cursor : (cursor pre rest checkpoint).shrink = cursor [] rest checkpoint := by
  simp [shrink, cursor]

@[simp]
theorem reset_cursor : (cursor pre rest checkpoint).reset = cursor [] [] 0 := rfl

@[simp]
theorem isReadable_cursor : (cursor pre rest checkpoint).isReadable = !rest.isEmpty := by
  cases rest <;> simp [isReadable, cursor]

@[simp]
theorem save_cursor : (cursor pre rest checkpoint).save = cursor pre rest pre.length := rfl

/-- Going back to the checkpoint puts the bytes read since then in front of the reader again. -/
@[simp]
theorem restore_cursor (front : Uint8List) :
    (cursor (pre ++ front) rest pre.length).restore = cursor pre (front ++ rest) pre.length := by
  simp [restore, cursor]

variable {length : ℤ}

/-- A read of bytes that are there returns them and moves the reader over them. -/
theorem readBytes_cursor (bytes : Uint8List) (h : length = bytes.length) :
    readBytes length (cursor pre (bytes ++ rest) checkpoint) =
      .ok (some bytes) (cursor (pre ++ bytes) rest checkpoint) := by
  subst h
  have hsub : sublist (pre ++ (bytes ++ rest)) (pre.length : ℤ) (pre.length + bytes.length) =
      .ok bytes := by
    have h : sublist (pre ++ (bytes ++ rest)) (pre.length : ℕ) (pre.length + bytes.length : ℕ) =
        .ok _ := sublist_ok _ (by omega) (by simp)
    push_cast at h
    rw [h]
    simp
  have hle : (pre.length : ℤ) + bytes.length ≤ ((pre ++ (bytes ++ rest)).length : ℕ) := by
    simp only [length_append]; push_cast; omega
  change EStateM.run (readBytes bytes.length) _ = _
  simp only [readBytes, cursor, EStateM.run_bind, EStateM.run_get, if_pos hle, hsub,
    EStateM.run_set, EStateM.run_pure]
  congr 1
  simp only [append_assoc, length_append, ReactiveReadBuffer.mk.injEq, true_and,
    and_true]
  omega

/-- A read past the end returns null and leaves the buffer as it is. -/
theorem readBytes_cursor_short (h : rest.length < length) :
    readBytes length (cursor pre rest checkpoint) = .ok none (cursor pre rest checkpoint) := by
  have hgt : ¬ (pre.length : ℤ) + length ≤ ((pre ++ rest).length : ℕ) := by
    simp only [length_append]; push_cast; omega
  change EStateM.run (readBytes length) _ = _
  simp only [readBytes, cursor, EStateM.run_bind, EStateM.run_get, if_neg hgt, EStateM.run_pure]

/-- A read of a negative length fails the range check of `sublist`. -/
theorem readBytes_cursor_neg (h : length < 0) :
    readBytes length (cursor pre rest checkpoint) =
      .error .rangeError (cursor pre rest checkpoint) := by
  have hle : (pre.length : ℤ) + length ≤ ((pre ++ rest).length : ℕ) := by
    simp only [length_append]; push_cast; omega
  have hsub : sublist (pre ++ rest) (pre.length : ℤ) (pre.length + length) =
      .error .rangeError := sublist_error (by omega)
  change EStateM.run (readBytes length) _ = _
  simp only [readBytes, cursor, EStateM.run_bind, EStateM.run_get, if_pos hle, hsub]
  rfl

theorem readInt8_cursor (value : UInt8) :
    readInt8 (cursor pre (value :: rest) checkpoint) =
      .ok (some value.toNat) (cursor (pre ++ [value]) rest checkpoint) := by
  change EStateM.run readInt8 _ = _
  have hlt : pre.length < (pre ++ value :: rest).length := by simp
  have hget : (pre ++ value :: rest)[pre.length]? = some value := by simp
  simp only [readInt8, cursor, EStateM.run_bind, EStateM.run_get, if_pos hlt, hget,
    EStateM.run_set, EStateM.run_pure]
  simp

theorem readInt8_cursor_nil :
    readInt8 (cursor pre [] checkpoint) = .ok none (cursor pre [] checkpoint) := by
  change EStateM.run readInt8 _ = _
  simp [readInt8, cursor]

theorem readUint8List_cursor (bytes : Uint8List) (h : length = bytes.length) :
    readUint8List length (cursor pre (bytes ++ rest) checkpoint) =
      .ok (some bytes) (cursor (pre ++ bytes) rest checkpoint) :=
  readBytes_cursor pre rest checkpoint bytes h

theorem readUint8List_cursor_short (h : rest.length < length) :
    readUint8List length (cursor pre rest checkpoint) = .ok none (cursor pre rest checkpoint) :=
  readBytes_cursor_short pre rest checkpoint h

section Numbers

variable (bytes : Uint8List)

theorem readInt16_cursor (h : bytes.length = 2) :
    readInt16 (cursor pre (bytes ++ rest) checkpoint) =
      .ok (some (ofBytesBE bytes)) (cursor (pre ++ bytes) rest checkpoint) := by
  rw [readInt16, bind_ok (readBytes_cursor pre rest checkpoint bytes (by omega))]
  rfl

theorem readInt24_cursor (h : bytes.length = 3) :
    readInt24 (cursor pre (bytes ++ rest) checkpoint) =
      .ok (some (ofBytesBE bytes)) (cursor (pre ++ bytes) rest checkpoint) := by
  rw [readInt24, bind_ok (readBytes_cursor pre rest checkpoint bytes (by omega))]
  rfl

theorem readInt32_cursor (h : bytes.length = 4) :
    readInt32 (cursor pre (bytes ++ rest) checkpoint) =
      .ok (some (ofBytesBE bytes)) (cursor (pre ++ bytes) rest checkpoint) := by
  rw [readInt32, bind_ok (readBytes_cursor pre rest checkpoint bytes (by omega))]
  rfl

theorem readInt16_cursor_short (h : rest.length < 2) :
    readInt16 (cursor pre rest checkpoint) = .ok none (cursor pre rest checkpoint) := by
  rw [readInt16, bind_ok (readBytes_cursor_short pre rest checkpoint (by omega))]
  rfl

theorem readInt24_cursor_short (h : rest.length < 3) :
    readInt24 (cursor pre rest checkpoint) = .ok none (cursor pre rest checkpoint) := by
  rw [readInt24, bind_ok (readBytes_cursor_short pre rest checkpoint (by omega))]
  rfl

theorem readInt32_cursor_short (h : rest.length < 4) :
    readInt32 (cursor pre rest checkpoint) = .ok none (cursor pre rest checkpoint) := by
  rw [readInt32, bind_ok (readBytes_cursor_short pre rest checkpoint (by omega))]
  rfl

end Numbers

end Cursor

/-! ### What a read operation takes -/

/-- Whether it returns or throws, the operation only moves the reader forward over the bytes that
are there, and leaves the buffer alone otherwise. -/
def Consumes {α : Type} (m : Reading α) : Prop :=
  ∀ pre rest checkpoint, ∃ taken left, rest = taken ++ left ∧
    ((∃ a, m (cursor pre rest checkpoint) = .ok a (cursor (pre ++ taken) left checkpoint)) ∨
      ∃ e, m (cursor pre rest checkpoint) = .error e (cursor (pre ++ taken) left checkpoint))

section Consumes

variable {α β : Type}

theorem consumes_pure (a : α) : Consumes (pure a : Reading α) := fun pre rest _ =>
  ⟨[], rest, rfl, .inl ⟨a, by rw [append_nil]; rfl⟩⟩

theorem consumes_throw (e : DartException) : Consumes (throw e : Reading α) := fun pre rest _ =>
  ⟨[], rest, rfl, .inr ⟨e, by rw [append_nil]; rfl⟩⟩

theorem consumes_get : Consumes get := fun pre rest checkpoint =>
  ⟨[], rest, rfl, .inl ⟨cursor pre rest checkpoint, by rw [append_nil]; rfl⟩⟩

theorem Consumes.bind {m : Reading α} {f : α → Reading β} (hm : Consumes m)
    (hf : ∀ a, Consumes (f a)) : Consumes (m >>= f) := by
  intro pre rest checkpoint
  obtain ⟨taken, left, rfl, ⟨a, ha⟩ | ⟨e, he⟩⟩ := hm pre rest checkpoint
  · obtain ⟨taken', left', rfl, h⟩ := hf a (pre ++ taken) left checkpoint
    refine ⟨taken ++ taken', left', (append_assoc ..).symm, ?_⟩
    rw [bind_ok ha, ← append_assoc]
    exact h
  · exact ⟨taken, left, rfl, .inr ⟨e, bind_error he⟩⟩

theorem consumes_readBytes (length : ℤ) : Consumes (readBytes length) := by
  intro pre rest checkpoint
  rcases lt_or_ge length 0 with hneg | hpos
  · exact ⟨[], rest, rfl, .inr ⟨_, by
      rw [append_nil]; exact readBytes_cursor_neg pre rest checkpoint hneg⟩⟩
  rcases lt_or_ge (rest.length : ℤ) length with hshort | hlong
  · exact ⟨[], rest, rfl, .inl ⟨_, by
      rw [append_nil]; exact readBytes_cursor_short pre rest checkpoint hshort⟩⟩
  · have hlen : length = (rest.take length.toNat).length := by
      rw [length_take]
      omega
    have h := readBytes_cursor pre (rest.drop length.toNat) checkpoint _ hlen
    rw [take_append_drop] at h
    exact ⟨_, _, (take_append_drop _ _).symm, .inl ⟨_, h⟩⟩

theorem consumes_readInt8 : Consumes readInt8 := by
  intro pre rest checkpoint
  cases rest with
  | nil => exact ⟨[], [], rfl, .inl ⟨_, by rw [append_nil]; exact readInt8_cursor_nil ..⟩⟩
  | cons value rest => exact ⟨[value], rest, rfl, .inl ⟨_, readInt8_cursor ..⟩⟩

theorem consumes_readInt16 : Consumes readInt16 :=
  (consumes_readBytes 2).bind fun _ => consumes_pure _

theorem consumes_readInt24 : Consumes readInt24 :=
  (consumes_readBytes 3).bind fun _ => consumes_pure _

theorem consumes_readInt32 : Consumes readInt32 :=
  (consumes_readBytes 4).bind fun _ => consumes_pure _

theorem consumes_readUint8List (length : ℤ) : Consumes (readUint8List length) :=
  consumes_readBytes length

end Consumes

/-! ## `ReactiveWriteBuffer` -/

/-- The elements of `_data` are `int`s: `writeInt8` stores what it is given, and only
`toUint8Array` reduces it to a byte. -/
structure ReactiveWriteBuffer where
  data : List ℕ
  writerIndex : ℕ
  capacity : ℕ
  deriving DecidableEq, Repr

namespace ReactiveWriteBuffer

def new : ReactiveWriteBuffer := ⟨[], 0, 0⟩

/-- `_updateCapacity`. -/
def updateCapacity (b : ReactiveWriteBuffer) : ReactiveWriteBuffer :=
  if b.capacity < b.data.length then { b with capacity := b.data.length } else b

/-- `_int64ToBytes`, `_int32ToBytes` and `_int16ToBytes` keep the low bits of the number. -/
def int64ToBytes (value : ℤ) : Uint8List := toBytesBE 8 (value % 2 ^ 64).toNat

def int32ToBytes (value : ℤ) : Uint8List := toBytesBE 4 (value % 2 ^ 32).toNat

/-- `_int24ToBytes` drops the first of the four bytes. -/
def int24ToBytes (value : ℤ) : Uint8List := (int32ToBytes value).drop 1

def int16ToBytes (value : ℤ) : Uint8List := toBytesBE 2 (value % 2 ^ 16).toNat

def writeInt8 (b : ReactiveWriteBuffer) (value : ℕ) : ReactiveWriteBuffer :=
  if b.writerIndex = b.data.length then
    let b := { b with data := b.data ++ [value] }.updateCapacity
    { b with writerIndex := b.writerIndex + 1 }
  else { b with data := b.data.set b.writerIndex value, writerIndex := b.writerIndex + 1 }

/-- Appends at the end, and overwrites (`replaceRange`) before it. -/
def writeBytes (b : ReactiveWriteBuffer) (bytes : Uint8List) : ReactiveWriteBuffer :=
  let stop := b.writerIndex + bytes.length
  if b.writerIndex = b.data.length then
    { b with data := b.data ++ bytes.map UInt8.toNat, writerIndex := stop }.updateCapacity
  else
    { b with
      data := b.data.take b.writerIndex ++ bytes.map UInt8.toNat ++ b.data.drop stop
      writerIndex := stop }.updateCapacity

def writeInt16 (b : ReactiveWriteBuffer) (value : ℤ) : ReactiveWriteBuffer :=
  b.writeBytes (int16ToBytes value)

def writeInt24 (b : ReactiveWriteBuffer) (value : ℤ) : ReactiveWriteBuffer :=
  b.writeBytes (int24ToBytes value)

def writeInt32 (b : ReactiveWriteBuffer) (value : ℤ) : ReactiveWriteBuffer :=
  b.writeBytes (int32ToBytes value)

def writeInt64 (b : ReactiveWriteBuffer) (value : ℤ) : ReactiveWriteBuffer :=
  b.writeBytes (int64ToBytes value)

def writeUint8List (b : ReactiveWriteBuffer) (data : Uint8List) : ReactiveWriteBuffer :=
  b.writeBytes data

def resetWriterIndex (b : ReactiveWriteBuffer) : ReactiveWriteBuffer := { b with writerIndex := 0 }

/-- `Uint8List.fromList` keeps the low eight bits of every element. -/
def toUint8Array (b : ReactiveWriteBuffer) : Uint8List := b.data.map UInt8.ofNat

/-- The buffer that was only appended to: its writer stands at the end of its data. -/
def filled (data : List ℕ) : ReactiveWriteBuffer := ⟨data, data.length, data.length⟩

theorem new_eq_filled : new = filled [] := rfl

section Filled

variable (data : List ℕ)

@[simp]
theorem writeInt8_filled (value : ℕ) :
    (filled data).writeInt8 value = filled (data ++ [value]) := by
  simp [writeInt8, filled, updateCapacity]

@[simp]
theorem writeBytes_filled (bytes : Uint8List) :
    (filled data).writeBytes bytes = filled (data ++ bytes.map UInt8.toNat) := by
  cases bytes <;> simp [writeBytes, filled, updateCapacity]

@[simp]
theorem toUint8Array_filled : (filled data).toUint8Array = data.map UInt8.ofNat := rfl

@[simp]
theorem capacity_filled : (filled data).capacity = data.length := rfl

/-- Writing at the front of a filled buffer overwrites as many elements as there are bytes. -/
theorem writeBytes_resetWriterIndex {front : List ℕ} {bytes : Uint8List}
    (h : bytes.length = front.length) :
    ((filled (front ++ data)).resetWriterIndex.writeBytes bytes).toUint8Array =
      bytes ++ data.map UInt8.ofNat := by
  have hround : (bytes.map UInt8.toNat).map UInt8.ofNat = bytes := by
    simp [map_map, Function.comp_def]
  unfold writeBytes
  split
  · next hempty =>
    have hnil : front = [] ∧ data = [] := by
      simpa [filled, resetWriterIndex, eq_comm (a := 0)] using hempty
    obtain ⟨rfl, rfl⟩ := hnil
    obtain rfl : bytes = [] := by simpa using h
    rfl
  · have hdata : (front ++ data).drop bytes.length = data := by rw [h]; simp
    simp only [filled, resetWriterIndex, take_zero, nil_append, Nat.zero_add, hdata]
    unfold toUint8Array updateCapacity
    split <;> simp only [map_append, hround]

end Filled

theorem int32ToBytes_natCast (n : ℕ) : int32ToBytes n = toBytesBE 4 n := by
  have h : ((n : ℤ) % 2 ^ 32).toNat = n % 256 ^ 4 := by norm_cast
  rw [int32ToBytes, h, toBytesBE_mod]

theorem int24ToBytes_natCast (n : ℕ) : int24ToBytes n = toBytesBE 3 n := by
  rw [int24ToBytes, int32ToBytes_natCast]
  rfl

@[simp]
theorem length_int24ToBytes (value : ℤ) : (int24ToBytes value).length = 3 := by
  simp [int24ToBytes, int32ToBytes]

end ReactiveWriteBuffer

/-! ## `ReactiveRequesterBuffer` -/

/-- The frames that are not written yet, put together to chunks. -/
structure ReactiveRequesterBuffer where
  chunkSize : ℤ
  count : ℕ
  chunks : List Uint8List
  last : ℕ
  /-- `_last` is the index of the last chunk. -/
  last_eq : last = chunks.length - 1
  deriving DecidableEq, Repr

namespace ReactiveRequesterBuffer

def new (chunkSize : ℤ) : ReactiveRequesterBuffer := ⟨chunkSize, 0, [], 0, rfl⟩

def clear (buffer : ReactiveRequesterBuffer) : ReactiveRequesterBuffer :=
  { buffer with last := 0, count := 0, chunks := [], last_eq := rfl }

theorem last_lt (buffer : ReactiveRequesterBuffer) (h : buffer.chunks ≠ []) :
    buffer.last < buffer.chunks.length := by
  have hpos := length_pos_iff.mpr h
  rw [buffer.last_eq]
  omega

def add (buffer : ReactiveRequesterBuffer) (frame : Uint8List) : ReactiveRequesterBuffer :=
  if h : buffer.chunks = [] then
    { buffer with count := buffer.count + 1, chunks := [frame], last := 0, last_eq := rfl }
  else
    let lastChunk := buffer.chunks.get ⟨buffer.last, buffer.last_lt h⟩
    if frame.length + lastChunk.length ≤ buffer.chunkSize then
      { buffer with
        count := buffer.count + 1
        chunks := buffer.chunks.set buffer.last (lastChunk ++ frame)
        last_eq := by rw [List.length_set, buffer.last_eq] }
    else
      { buffer with
        count := buffer.count + 1
        chunks := buffer.chunks ++ [frame]
        last := buffer.last + 1
        last_eq := by
          have hlt := buffer.last_lt h
          rw [List.length_append, List.length_singleton, buffer.last_eq] at *
          omega }

variable (buffer : ReactiveRequesterBuffer) (frame : Uint8List)

@[simp]
theorem count_new (chunkSize : ℤ) : (new chunkSize).count = 0 := rfl

@[simp]
theorem chunks_new (chunkSize : ℤ) : (new chunkSize).chunks = [] := rfl

@[simp]
theorem count_clear : buffer.clear.count = 0 := rfl

@[simp]
theorem chunks_clear : buffer.clear.chunks = [] := rfl

@[simp]
theorem count_add : (buffer.add frame).count = buffer.count + 1 := by
  unfold add
  split
  · rfl
  · dsimp only
    split <;> rfl

theorem chunks_add_ne_nil : (buffer.add frame).chunks ≠ [] := by
  unfold add
  split
  · exact cons_ne_nil _ _
  · rename_i h
    dsimp only
    split
    · simpa using h
    · exact append_ne_nil_of_right_ne_nil _ (cons_ne_nil _ _)

@[simp]
theorem clear_add : (buffer.add frame).clear = buffer.clear := by
  unfold add
  split
  · rfl
  · dsimp only
    split <;> rfl

@[simp]
theorem chunkSize_add : (buffer.add frame).chunkSize = buffer.chunkSize := by
  unfold add
  split
  · rfl
  · dsimp only
    split <;> rfl

/-- A chunk is one of before, the frame, or one of before with the frame behind it. -/
theorem mem_chunks_of_add {chunk : Uint8List} (h : chunk ∈ (buffer.add frame).chunks) :
    chunk ∈ buffer.chunks ∨ chunk = frame ∨ ∃ before ∈ buffer.chunks, chunk = before ++ frame ∧
      frame.length + before.length ≤ buffer.chunkSize := by
  unfold add at h
  split at h
  · exact .inr (.inl (mem_singleton.mp h))
  · dsimp only at h
    split at h
    · rename_i hfits
      rcases mem_or_eq_of_mem_set h with hmem | rfl
      · exact .inl hmem
      · exact .inr (.inr ⟨_, get_mem _ _, rfl, hfits⟩)
    · rcases mem_append.mp h with hmem | hmem
      · exact .inl hmem
      · exact .inr (.inl (mem_singleton.mp hmem))

/-- A frame goes behind the bytes that are in the chunks. -/
@[simp]
theorem flatten_add : (buffer.add frame).chunks.flatten = buffer.chunks.flatten ++ frame := by
  unfold add
  split
  · rename_i h
    simp [h]
  · rename_i h
    obtain ⟨front, chunk, hchunks⟩ := (eq_nil_or_concat' buffer.chunks).resolve_left h
    have hlast : buffer.last = front.length := by rw [buffer.last_eq, hchunks]; simp
    dsimp only
    split
    · simp [hlast, hchunks]
    · simp

end ReactiveRequesterBuffer

end FengShui.Reactive
