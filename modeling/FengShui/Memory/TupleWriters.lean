import FengShui.Core.TupleSize
import FengShui.Lib.Transition
import Mathlib.Data.Set.Basic

/-!
# The dynamic tuple writers (`memory/tuples.dart`, `memory/io_buffers.h`)

`MemoryTupleDynamicInputWriter` and `MemoryTupleDynamicOutputWriter` are one text over two native
buffers. A `write*` reserves what `tupleSizeOf*` says, hands its view of the region to the plain
writer and moves on by what that returns; the view has the length of an address
(`asTypedList(_end)`), so that nothing stops a writer at the end of the region.
-/

namespace FengShui.Memory

open FengShui.Transition List

/-- What a `write*` writes: the size that it reserves, its plain writer, and what that writes. -/
structure Tuple where
  tupleSize : ℕ
  serialize : ℕ → Writing ℕ
  bytes : Uint8List
  /-- The plain writer does not throw, given room. -/
  valid : Prop
  written : ℕ
  /-- How far its strings are written past its end. -/
  spill : ℕ
  writes : Writes serialize valid written (written + spill)
  puts : Puts serialize bytes
  pos : 0 < tupleSize

/-- No byte is written behind the size that is reserved. -/
def Tuple.Sized (tuple : Tuple) : Prop :=
  tuple.valid → tuple.written + tuple.spill ≤ tuple.tupleSize

/-- What `ibuf_reserve` or `obuf_reserve` gave: where it is, how much it is, and the memory from
there on. -/
structure Region where
  address : ℕ
  unused : ℕ
  memory : Uint8List
  deriving DecidableEq, Repr

structure MemoryTupleDynamicWriter where
  /-- The contents of the native buffer: what was finalized. -/
  finalized : Uint8List
  /-- The address of `_bufferTyped`. -/
  base : ℕ
  bufferTyped : Uint8List
  buffer : ℕ
  position : ℕ
  stop : ℕ
  currentOffset : ℕ
  /-- A byte outside the region last reserved was written. -/
  outside : Bool
  deriving DecidableEq, Repr

inductive TupleAction where
  /-- A `write*`, with what the native buffer gives if it is asked. -/
  | write (tuple : Tuple) (region : Region)
  | flush

namespace MemoryTupleDynamicWriter

/-! ### The members -/

def writeNull : Tuple where
  tupleSize := tupleSizeOfNull
  serialize := tupleWriteNull
  bytes := numberBytes 1 0xc0
  valid := True
  written := 1
  spill := 0
  writes := writes_setNumber 1 _
  puts := puts_setNumber 1 _
  pos := Nat.one_pos

def writeBool (value : Bool) : Tuple where
  tupleSize := tupleSizeOfBool
  serialize := tupleWriteBool value
  bytes := numberBytes 1 (if value then 0xc3 else 0xc2)
  valid := True
  written := 1
  spill := 0
  writes := writes_setNumber 1 _
  puts := puts_setNumber 1 _
  pos := Nat.one_pos

theorem tupleSizeOfInt_pos (value : ℤ) : 0 < tupleSizeOfInt value := by
  unfold tupleSizeOfInt
  split_ifs <;> decide

/-- The form in which sizes and surpluses are known. -/
theorem writes_of_exists {write : ℕ → Writing ℕ} {valid : Prop} {amount : ℤ} {spill : ℕ}
    (h : WritesAmount write valid amount spill) :
    Writes write valid amount.toNat (amount.toNat + spill) := by
  obtain ⟨written, rfl, hwrites⟩ := h
  exact hwrites

/-- A size without a surplus. -/
theorem writes_of_exact {write : ℕ → Writing ℕ} {valid : Prop} {size spill : ℕ}
    (h : WritesAmount write valid (size + 0) spill) : Writes write valid size (size + spill) :=
  writes_of_exists h

def writeInt (value : Int64) : Tuple where
  tupleSize := tupleSizeOfInt value.toInt
  serialize := tupleWriteInt value.toInt
  bytes := intBytes value.toInt
  valid := True
  written := (tupleSizeOfInt value.toInt + surplusOfInt value.toInt).toNat
  spill := 0
  writes := writes_of_exists (writes_tupleWriteInt value.toInt)
  puts := puts_tupleWriteInt value.toInt
  pos := tupleSizeOfInt_pos _

def writeDouble (bits : UInt64) : Tuple where
  tupleSize := tupleSizeOfDouble
  serialize := tupleWriteDouble bits
  bytes := numberBytes 1 0xcb ++ numberBytes 8 bits.toNat
  valid := True
  written := 9
  spill := 0
  writes := (writes_setNumber 8 _).setNumber 1 _
  puts := (puts_setNumber 8 _).setNumber 1 _
  pos := by decide

theorem tupleSizeOfString_pos (length : ℕ) : 0 < tupleSizeOfString length := by
  unfold tupleSizeOfString
  split_ifs <;> omega

def writeString (value : DartString) : Tuple where
  tupleSize := tupleSizeOfString value.length
  serialize := tupleWriteString value
  bytes := stringBytes value
  valid := value.length ≤ 0xFFFFFFFF ∧ Encodable value
  written := (tupleSizeOfString value.length + surplusOfString value.length).toNat
  spill := encodedLength value - value.length
  writes := writes_of_exists (writes_tupleWriteString value)
  puts := puts_tupleWriteString value
  pos := tupleSizeOfString_pos _

theorem tupleSizeOfBinary_pos (length : ℕ) : 0 < tupleSizeOfBinary length := by
  unfold tupleSizeOfBinary
  split_ifs <;> omega

def writeBinary (value : Uint8List) : Tuple where
  tupleSize := tupleSizeOfBinary value.length
  serialize := tupleWriteBinary value
  bytes := binaryBytes value
  valid := value.length ≤ 0xFFFFFFFF
  written := tupleSizeOfBinary value.length
  spill := 0
  writes := writes_of_exact (writes_tupleWriteBinary value)
  puts := puts_tupleWriteBinary value
  pos := tupleSizeOfBinary_pos _

theorem tupleSizeOfList_pos (length : ℕ) : 0 < tupleSizeOfList length := by
  unfold tupleSizeOfList
  split_ifs <;> decide

def writeList (length : ℕ) : Tuple where
  tupleSize := tupleSizeOfList length
  serialize := tupleWriteList length
  bytes := headerBytes 0x90 0xdc 0xdd length
  valid := length ≤ 0xFFFFFFFF
  written := tupleSizeOfList length
  spill := 0
  writes := writes_of_exact (writes_tupleWriteHeader _ _ _ _ length)
  puts := puts_tupleWriteHeader _ _ _ _ length
  pos := tupleSizeOfList_pos _

def writeMap (length : ℕ) : Tuple where
  tupleSize := tupleSizeOfMap length
  serialize := tupleWriteMap length
  bytes := headerBytes 0x80 0xde 0xdf length
  valid := length ≤ 0xFFFFFFFF
  written := tupleSizeOfMap length
  spill := 0
  writes := writes_of_exact (writes_tupleWriteHeader _ _ _ _ length)
  puts := puts_tupleWriteHeader _ _ _ _ length
  pos := tupleSizeOfList_pos _

/-- Any `Tuple`: its size, and what its `serialize` writes. -/
def writeTuple (tuple : Tuple) : Tuple := tuple

/-! ### The writer -/

/-- A writer of an empty buffer; the offset it is given is that of the first region. -/
def create (offset : ℕ) : MemoryTupleDynamicWriter := ⟨[], 0, [], 0, 0, 0, offset, false⟩

/-- `memory_…_buffer_finalize` of what was written behind `_buffer`, which is in the region. -/
def finalize (writer : MemoryTupleDynamicWriter) : Option Uint8List :=
  if writer.position ≤ writer.stop then
    some (writer.finalized ++
      (writer.bufferTyped.drop (writer.buffer - writer.base)).take
        (writer.position - writer.buffer))
  else none

/-- `memory_…_buffer_reserve`, and what `reserve` makes of it. The native buffer gives at least what
it is asked for. -/
def renew (size : ℕ) (region : Region) (finalized : Uint8List) (writer : MemoryTupleDynamicWriter) :
    Option MemoryTupleDynamicWriter :=
  let stop := region.address + region.unused
  if size ≤ region.unused ∧ region.memory.length = stop then
    some { writer with
      finalized := finalized
      base := region.address
      -- `memset`.
      bufferTyped := List.replicate size 0 ++ region.memory.drop size
      buffer := region.address
      position := region.address
      stop := stop
      currentOffset := 0 }
  else none

def reserve (size : ℕ) (region : Region) (writer : MemoryTupleDynamicWriter) :
    Option MemoryTupleDynamicWriter :=
  if writer.position + size > writer.stop then
    if writer.position ≠ writer.buffer then
      writer.finalize.bind fun finalized => writer.renew size region finalized
    else writer.renew size region writer.finalized
  else some writer

/-- The plain writer at `_currentOffset`, and `advance`. Whether it stays in the region is whether
it would be through with a memory that ends where the region does. -/
def put (tuple : Tuple) (writer : MemoryTupleDynamicWriter) : Option MemoryTupleDynamicWriter :=
  match tuple.serialize writer.currentOffset writer.bufferTyped with
  | .ok nextOffset bufferTyped =>
    some { writer with
      bufferTyped := bufferTyped
      position := writer.position + (nextOffset - writer.currentOffset)
      currentOffset := nextOffset
      outside := writer.outside ||
        match tuple.serialize writer.currentOffset
            (writer.bufferTyped.take (writer.stop - writer.base)) with
        | .ok .. => false
        | .error .. => true }
  | .error .. => none

def flush (writer : MemoryTupleDynamicWriter) : Option MemoryTupleDynamicWriter :=
  if writer.position ≠ writer.buffer then
    writer.finalize.map fun finalized =>
      { writer with finalized := finalized, buffer := writer.position }
  else some { writer with buffer := writer.position }

/-- A `write*` that throws is none. -/
def step (writer : MemoryTupleDynamicWriter) : TupleAction → Option MemoryTupleDynamicWriter
  | .write tuple region => (writer.reserve tuple.tupleSize region).bind (put tuple)
  | .flush => writer.flush

end MemoryTupleDynamicWriter

/-- The plain encoding that an action adds. -/
def TupleAction.bytes : TupleAction → Uint8List
  | write tuple _ => tuple.bytes
  | flush => []

/-- The values written are of a set. -/
def TupleAction.Of (values : Set Tuple) : TupleAction → Prop
  | write tuple _ => tuple ∈ values
  | flush => True

namespace MemoryTupleDynamicWriter

/-- Nothing was written outside a region, and a flush leaves the plain encodings of the values in
their order. -/
structure Refines (actions : List TupleAction) (writer : MemoryTupleDynamicWriter) : Prop where
  inside : writer.outside = false
  finalized : ∀ front, actions = front ++ [.flush] →
    writer.finalized = actions.flatMap TupleAction.bytes

/-- The three cursors, and what is finalized and what is not together. -/
structure Holds (contents : Uint8List) (writer : MemoryTupleDynamicWriter) : Prop where
  inside : writer.outside = false
  base : writer.base ≤ writer.buffer
  buffer : writer.buffer ≤ writer.position
  position : writer.position ≤ writer.stop
  offset : 0 < writer.stop → writer.base + writer.currentOffset = writer.position
  length : writer.bufferTyped.length = writer.stop
  contents : writer.finalized ++ (writer.bufferTyped.drop (writer.buffer - writer.base)).take
    (writer.position - writer.buffer) = contents

theorem holds_create (offset : ℕ) : (create offset).Holds [] where
  inside := rfl
  base := le_rfl
  buffer := le_rfl
  position := le_rfl
  offset h := absurd h (lt_irrefl 0)
  length := rfl
  contents := rfl

variable {contents : Uint8List} {writer next : MemoryTupleDynamicWriter} {tuple : Tuple}

theorem Holds.finalize (h : writer.Holds contents) : writer.finalize = some contents := by
  unfold MemoryTupleDynamicWriter.finalize
  rw [if_pos h.position, h.contents]

/-- Without anything behind `_buffer` the contents are finalized. -/
theorem Holds.finalized_of_eq (h : writer.Holds contents) (heq : writer.position = writer.buffer) :
    writer.finalized = contents := by
  have hcontents := h.contents
  rwa [heq, Nat.sub_self, take_zero, append_nil] at hcontents

theorem Holds.renew (h : writer.Holds contents) {size : ℕ} {region : Region}
    (hrenew : writer.renew size region contents = some next) :
    next.Holds contents ∧ next.position + size ≤ next.stop ∧
      next.base + next.currentOffset = next.position := by
  unfold MemoryTupleDynamicWriter.renew at hrenew
  dsimp only at hrenew
  split at hrenew
  · rename_i hgives
    obtain ⟨hsize, hlen⟩ := hgives
    cases hrenew
    refine ⟨⟨h.inside, le_rfl, le_rfl, ?_, fun _ => rfl, ?_, ?_⟩, ?_, rfl⟩
    · exact Nat.le_add_right _ _
    · dsimp only
      rw [length_append, length_replicate, length_drop]
      omega
    · rw [Nat.sub_self, take_zero, append_nil]
    · exact Nat.add_le_add_left hsize _
  · cases hrenew

theorem Holds.reserve (h : writer.Holds contents) {size : ℕ} {region : Region} (hsize : 0 < size)
    (hreserve : writer.reserve size region = some next) :
    next.Holds contents ∧ next.position + size ≤ next.stop ∧
      next.base + next.currentOffset = next.position := by
  unfold MemoryTupleDynamicWriter.reserve at hreserve
  split at hreserve
  · split at hreserve
    · rw [h.finalize] at hreserve
      exact h.renew hreserve
    · rename_i heq
      rw [h.finalized_of_eq (not_not.mp heq)] at hreserve
      exact h.renew hreserve
  · rename_i hroom
    cases hreserve
    exact ⟨h, not_lt.mp hroom, h.offset (by omega)⟩

/-- Bytes that are put behind a slice make it longer. -/
theorem slice_append {memory rest : Uint8List} {start count : ℕ} (bytes : Uint8List)
    (h : start + count ≤ memory.length) :
    ((memory.take (start + count) ++ bytes ++ rest).drop start).take (count + bytes.length) =
      (memory.drop start).take count ++ bytes := by
  have hslice : (memory.take (start + count)).drop start = (memory.drop start).take count := by
    rw [drop_take, Nat.add_sub_cancel_left]
  have hlen : ((memory.drop start).take count ++ bytes).length = count + bytes.length := by
    rw [length_append, length_take, length_drop]
    omega
  rw [append_assoc, drop_append_of_le_length (by rw [length_take]; omega), hslice,
    ← append_assoc]
  exact take_left' hlen

theorem Holds.put (h : writer.Holds contents) (hsized : tuple.Sized)
    (hroom : writer.position + tuple.tupleSize ≤ writer.stop)
    (hoff : writer.base + writer.currentOffset = writer.position)
    (hput : writer.put tuple = some next) : next.Holds (contents ++ tuple.bytes) := by
  have hbase := h.base
  have hbuf := h.buffer
  have hlen := h.length
  unfold MemoryTupleDynamicWriter.put at hput
  split at hput
  · rename_i nextOffset bufferTyped hok
    have hwithin : writer.currentOffset ≤ writer.bufferTyped.length := by omega
    have hvalid : tuple.valid := by
      by_contra hinvalid
      obtain ⟨e, buffer, herror⟩ := tuple.writes.throws _ _ hwithin fun hboth => hinvalid hboth.1
      cases hok.symm.trans herror
    have hfits := hsized hvalid
    obtain ⟨buffer, hreturns, hsame, -, -⟩ := tuple.writes.returns writer.currentOffset
      writer.bufferTyped hvalid (by omega)
    obtain ⟨hnext, rest, hbytes⟩ := tuple.puts _ _ _ _ hwithin hok
    have hagree := hok.symm.trans hreturns
    injection hagree with hwritten hmemory
    subst hmemory
    -- The same write in a memory that ends with the region.
    obtain ⟨cut, hcut, -⟩ := tuple.writes.returns writer.currentOffset
      (writer.bufferTyped.take (writer.stop - writer.base)) hvalid
      (by rw [length_take]; omega)
    rw [hcut, Bool.or_false] at hput
    cases hput
    have hstart : writer.currentOffset = (writer.buffer - writer.base) +
        (writer.position - writer.buffer) := by omega
    refine ⟨h.inside, hbase, ?_, ?_, fun _ => ?_, hsame.trans hlen, ?_⟩
    · exact hbuf.trans (Nat.le_add_right _ _)
    · dsimp only
      omega
    · dsimp only
      omega
    · dsimp only
      have hcount : writer.position + (nextOffset - writer.currentOffset) - writer.buffer =
          writer.position - writer.buffer + tuple.bytes.length := by omega
      rw [hcount, hbytes, hstart, slice_append _ (by omega), ← append_assoc, h.contents]
  · cases hput

theorem Holds.flush (h : writer.Holds contents) (hflush : writer.flush = some next) :
    next.Holds contents ∧ next.finalized = contents := by
  unfold MemoryTupleDynamicWriter.flush at hflush
  have hself : (writer.bufferTyped.drop (writer.position - writer.base)).take
      (writer.position - writer.position) = [] := by rw [Nat.sub_self, take_zero]
  split at hflush
  · rw [h.finalize] at hflush
    cases hflush
    refine ⟨⟨h.inside, h.base.trans h.buffer, le_rfl, h.position, h.offset, h.length, ?_⟩, rfl⟩
    rw [hself, append_nil]
  · rename_i heq
    have hfinalized := h.finalized_of_eq (not_not.mp heq)
    cases hflush
    refine ⟨⟨h.inside, h.base.trans h.buffer, le_rfl, h.position, h.offset, h.length, ?_⟩,
      hfinalized⟩
    rw [hself, append_nil]
    exact hfinalized

theorem Holds.step {action : TupleAction} (h : writer.Holds contents)
    (hsized : ∀ tuple region, action = .write tuple region → tuple.Sized)
    (hstep : writer.step action = some next) : next.Holds (contents ++ action.bytes) := by
  cases action with
  | write tuple region =>
    obtain ⟨middle, hreserve, hput⟩ := Option.bind_eq_some_iff.mp hstep
    obtain ⟨hmid, hroom, hoff⟩ := h.reserve tuple.pos hreserve
    exact hmid.put (hsized tuple region rfl) hroom hoff hput
  | flush =>
    rw [TupleAction.bytes, append_nil]
    exact (h.flush hstep).1

/-- A run that writes sized values only. -/
theorem holds_of_run {actions : List TupleAction} {offset : ℕ}
    (hsized : ∀ action ∈ actions, ∀ tuple region, action = .write tuple region → tuple.Sized)
    (hrun : run step (create offset) actions = some writer) :
    writer.Holds (actions.flatMap TupleAction.bytes) :=
  run_induction (fun history writer => writer.Holds (history.flatMap TupleAction.bytes))
    (fun history writer action next h hsized hstep => by
      rw [flatMap_append, flatMap_singleton]
      exact Holds.step h hsized hstep)
    (holds_create offset)
    (along_of_forall fun action hmem _ => hsized action hmem) hrun

theorem refines_of_sized {actions : List TupleAction} {offset : ℕ}
    (hsized : ∀ action ∈ actions, ∀ tuple region, action = .write tuple region → tuple.Sized)
    (hrun : run step (create offset) actions = some writer) : writer.Refines actions := by
  refine ⟨(holds_of_run hsized hrun).inside, ?_⟩
  rintro front rfl
  rw [run_append, Option.bind_eq_some_iff] at hrun
  obtain ⟨before, hfront, hlast⟩ := hrun
  obtain ⟨last, hflush, hend⟩ := run_cons_eq_some.mp hlast
  obtain rfl : last = writer := Option.some.inj hend
  have hbefore := holds_of_run (fun action hmem => hsized action (mem_append_left _ hmem)) hfront
  rw [flatMap_append, flatMap_singleton, TupleAction.bytes, append_nil]
  exact (hbefore.flush hflush).2

/-- The first region of an unsized value may end with the size that is reserved. -/
theorem exists_outside (hunsized : ¬tuple.Sized) (offset : ℕ) : ∃ region writer,
    run step (create offset) [.write tuple region] = some writer ∧ writer.outside = true := by
  obtain ⟨hvalid, hspills⟩ := Classical.not_imp.mp hunsized
  have hpos := tuple.pos
  -- A region just as long as what is written, and a buffer that has room for the size only.
  let reach := tuple.written + tuple.spill
  let region : Region := ⟨reach, tuple.tupleSize, List.replicate (reach + tuple.tupleSize) 0⟩
  let memory : Uint8List := List.replicate tuple.tupleSize 0 ++ region.memory.drop tuple.tupleSize
  have hlen : memory.length = reach + tuple.tupleSize := by
    simp only [memory, region, length_append, length_replicate, length_drop]
    omega
  -- The write goes through with the room behind the buffer, and throws without it.
  obtain ⟨after, hok, -⟩ := tuple.writes.returns 0 memory hvalid (by omega)
  obtain ⟨e, cut, herror⟩ := tuple.writes.throws 0 (memory.take (reach + tuple.tupleSize - reach))
    (Nat.zero_le _) fun hboth => by
      have hfits := hboth.2
      rw [length_take] at hfits
      omega
  have hreserve : (create offset).reserve tuple.tupleSize region =
      some ⟨[], reach, memory, reach, reach, reach + tuple.tupleSize, 0, false⟩ := by
    unfold reserve renew create
    dsimp only
    rw [if_pos (by omega), if_neg (by simp), if_pos ⟨le_rfl, by simp [region]⟩]
  have hput :
    ∃ writer, put tuple ⟨[], reach, memory, reach, reach, reach + tuple.tupleSize, 0, false⟩ =
      some writer ∧ writer.outside = true := by
    unfold put
    dsimp only
    rw [hok, herror]
    exact ⟨_, rfl, rfl⟩
  obtain ⟨writer, hwriter, houtside⟩ := hput
  refine ⟨region, writer, ?_, houtside⟩
  rw [run_cons, step, hreserve, Option.bind_some, hwriter]
  rfl

/-- Whatever the native buffers give and wherever the flushes are, the writers refine the plain
encoders on all sequences of certain values if and only if none of these is longer than the size
that is reserved for it. -/
theorem refines_iff (values : Set Tuple) :
    (∀ tuple ∈ values, tuple.Sized) ↔
      ∀ offset actions writer, (∀ action ∈ actions, action.Of values) →
        run step (create offset) actions = some writer → writer.Refines actions := by
  constructor
  · intro hsized offset actions writer hof hrun
    refine refines_of_sized (fun action hmem tuple region haction => ?_) hrun
    have hmember := hof action hmem
    rw [haction] at hmember
    exact hsized tuple hmember
  · intro hrefines tuple hmem
    by_contra hunsized
    obtain ⟨region, writer, hrun, houtside⟩ := exists_outside hunsized 0
    have hof : ∀ action ∈ [TupleAction.write tuple region], action.Of values := by
      intro action haction
      rw [List.mem_singleton.mp haction]
      exact hmem
    have hinside := (hrefines 0 _ writer hof hrun).inside
    rw [houtside] at hinside
    cases hinside

/-- An integer above 127 in a region of one byte. -/
theorem refines_false :
    ¬∀ offset actions writer, run step (create offset) actions = some writer →
      writer.Refines actions := by
  intro h
  have hinside := (h 0 [.write (writeInt 1000) ⟨3, 1, [0, 0, 0, 0]⟩] _ rfl).inside
  cases hinside

/-! ### Which values are sized -/

theorem sized_writeInt_iff (value : Int64) :
    (writeInt value).Sized ↔ surplusOfInt value.toInt ≤ 0 := by
  have hpos := tupleSizeOfInt_pos value.toInt
  unfold Tuple.Sized writeInt
  dsimp only
  constructor
  · intro h
    have hle := h trivial
    omega
  · intro h _
    omega

/-- The strings of at most 255 code units that are ASCII. -/
theorem sized_writeString_iff (value : DartString)
    (hvalid : value.length ≤ 0xFFFFFFFF ∧ Encodable value) :
    (writeString value).Sized ↔ value.length ≤ 0xFF ∧ encodedLength value = value.length := by
  have hle := length_le_encodedLength value
  unfold Tuple.Sized writeString surplusOfString
  dsimp only
  rw [forall_prop_of_true hvalid]
  split_ifs <;> omega

end MemoryTupleDynamicWriter

end FengShui.Memory
