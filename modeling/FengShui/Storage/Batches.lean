import FengShui.Storage.Box
import Mathlib.Data.List.Infix
import Mathlib.Tactic.IntervalCases

/-!
# Batches (`storage_space_*_many`)

A batch is to do what the single operations on its elements do, one after the other, or nothing. The
elements of a batch are MessagePack arrays: tuples, keys or lists of operations.
-/

namespace FengShui.Storage

open ByteString List

/-! ## Values in front of other bytes -/

/-- What the header of the first value leads to, whatever is behind the data. -/
theorem mpNextValues_cons {values : ℕ} {header : UInt8} {data rest : Uint8List}
    (h : mpNextValues (values + 1) (header :: data) = some rest) :
    ∃ next taken, taken ≤ data.length ∧ values ≤ next ∧
      mpNextValues next (data.drop taken) = some rest ∧
      ∀ more, mpNextValues (values + 1) (header :: (data ++ more)) =
        mpNextValues next (data.drop taken ++ more) := by
  rw [mpNextValues] at h
  cases hhint : parserHint header.toNat with
  | skip bytes =>
    rw [hhint] at h
    by_cases hlen : bytes ≤ data.length
    · refine ⟨values, bytes, hlen, le_rfl, ?_, fun more => ?_⟩
      · simpa [hlen] using h
      -- What is skipped is in front of what is added.
      · have hlen' : bytes ≤ (data ++ more).length := by rw [length_append]; omega
        rw [mpNextValues, hhint]
        dsimp only
        rw [if_pos hlen', drop_append_of_le_length hlen]
    · simp [hlen] at h
  | values count =>
    rw [hhint] at h
    refine ⟨values + count, 0, Nat.zero_le _, Nat.le_add_right _ _, h, fun more => ?_⟩
    rw [mpNextValues, hhint]
    rfl
  | sized width extra =>
    rw [hhint] at h
    dsimp only at h
    by_cases hlen : width + extra + ofBytesBE (data.take width) ≤ data.length
    · refine ⟨values, width + extra + ofBytesBE (data.take width), hlen, le_rfl, ?_, fun more => ?_⟩
      · rwa [if_pos hlen] at h
      -- The length is read from the bytes in front.
      · have htake : (data ++ more).take width = data.take width :=
          take_append_of_le_length (by omega)
        have hlen' : width + extra + ofBytesBE (data.take width) ≤ (data ++ more).length := by
          rw [length_append]
          omega
        rw [mpNextValues, hhint]
        dsimp only
        rw [htake, if_pos hlen', drop_append_of_le_length hlen]
    · rw [if_neg hlen] at h
      exact absurd h.symm (Option.some_ne_none rest)
  | counted width factor =>
    rw [hhint] at h
    dsimp only at h
    by_cases hlen : width ≤ data.length
    · refine ⟨values + factor * ofBytesBE (data.take width), width, hlen, Nat.le_add_right _ _, ?_,
        fun more => ?_⟩
      · rwa [if_pos hlen] at h
      · have htake : (data ++ more).take width = data.take width :=
          take_append_of_le_length hlen
        have hlen' : width ≤ (data ++ more).length := by rw [length_append]; omega
        rw [mpNextValues, hhint]
        dsimp only
        rw [htake, if_pos hlen', drop_append_of_le_length hlen]
    · rw [if_neg hlen] at h
      exact absurd h.symm (Option.some_ne_none rest)
  | invalid =>
    rw [hhint] at h
    exact absurd h.symm (Option.some_ne_none rest)

/-- Values in front of other bytes. -/
theorem mpNextValues_append {values : ℕ} {data rest : Uint8List}
    (h : mpNextValues values data = some rest) (more : Uint8List) :
    values + rest.length ≤ data.length ∧ mpNextValues values (data ++ more) =
      some (rest ++ more) := by
  induction hlen : data.length using Nat.strongRecOn generalizing values data with
  | _ length ih =>
    subst hlen
    cases values with
    | zero =>
      rw [mpNextValues] at h
      rw [mpNextValues, Option.some.inj h, Nat.zero_add]
      exact ⟨le_rfl, rfl⟩
    | succ values =>
      cases data with
      | nil =>
        rw [mpNextValues] at h
        exact absurd h.symm (Option.some_ne_none rest)
      | cons header data =>
        obtain ⟨next, taken, htaken, hvals, hnext, happend⟩ := mpNextValues_cons h
        have hshorter : (data.drop taken).length < (header :: data).length := by
          rw [length_drop, length_cons]
          omega
        obtain ⟨hbound, hmore⟩ := ih _ hshorter hnext rfl
        rw [length_drop] at hbound
        refine ⟨by rw [length_cons]; omega, ?_⟩
        rw [cons_append, happend, hmore]

/-- A MessagePack array: its bytes are one value, with the header of an array. -/
structure ArrayValue where
  bytes : Uint8List
  whole : mpNext bytes = some []
  array : ∃ header data, bytes = header :: data ∧
    (0x90 ≤ header.toNat ∧ header.toNat < 0xa0 ∨ header = 0xdc ∨ header = 0xdd)

namespace ArrayValue

theorem mpNext_append (value : ArrayValue) (rest : Uint8List) :
    mpNext (value.bytes ++ rest) = some rest :=
  (mpNextValues_append value.whole rest).2

/-- No array is a piece of the front of another one. -/
theorem take_ne (value other : ArrayValue) {n : ℕ} (h : n < value.bytes.length) :
    value.bytes.take n ≠ other.bytes := by
  intro heq
  have hsplit : other.bytes ++ value.bytes.drop n = value.bytes := by
    rw [← heq, take_append_drop]
  have hrest := other.mpNext_append (value.bytes.drop n)
  rw [hsplit, value.whole] at hrest
  have hlen := congrArg List.length (Option.some.inj hrest)
  rw [length_drop, length_nil] at hlen
  omega

theorem mpNext_fixed {header : UInt8} {data : Uint8List} (hlow : 0x90 ≤ header.toNat)
    (hhigh : header.toNat < 0xa0) :
    mpNext (header :: data) = mpNextValues (header.toNat &&& 0xf) data ∧
      mpDecodeArray (header :: data) = some (header.toNat &&& 0xf, data) := by
  have hhint : parserHint header.toNat = .values (header.toNat &&& 0xf) := by
    unfold parserHint
    rw [if_neg (by omega), if_neg (by omega), if_pos hhigh]
  have hbit : header &&& 0x40 = 0 := by
    rw [← UInt8.toNat_inj, UInt8.toNat_and]
    interval_cases header.toNat <;> rfl
  constructor
  · rw [mpNext, mpNextValues, hhint]
    dsimp only
    rw [Nat.zero_add]
  · rw [mpDecodeArray, if_pos hbit, UInt8.toNat_and]
    rfl

theorem mpNext_wide {header : UInt8} {data : Uint8List} {width : ℕ}
    (hhdr : header = 0xdc ∧ width = 2 ∨ header = 0xdd ∧ width = 4) :
    mpNext (header :: data) =
        (if width ≤ data.length then mpNextValues (ofBytesBE (data.take width)) (data.drop width)
          else none) ∧
      mpDecodeArray (header :: data) =
        if width ≤ data.length then some (ofBytesBE (data.take width), data.drop width)
          else none := by
  have hhint : parserHint header.toNat = .counted width 1 := by
    rcases hhdr with ⟨rfl, rfl⟩ | ⟨rfl, rfl⟩
    · rfl
    · rfl
  constructor
  · rw [mpNext, mpNextValues, hhint]
    dsimp only
    rw [Nat.zero_add, Nat.one_mul]
  · rcases hhdr with ⟨rfl, rfl⟩ | ⟨rfl, rfl⟩
    · rfl
    · rfl

/-- An array has more bytes than elements. -/
theorem size_lt (value : ArrayValue) (rest : Uint8List) :
    ∃ size behind, mpDecodeArray (value.bytes ++ rest) = some (size, behind) ∧
      size < value.bytes.length := by
  obtain ⟨header, data, hbytes, harray⟩ := value.array
  have hwhole := value.whole
  rw [hbytes] at hwhole ⊢
  rw [length_cons, cons_append]
  have hwide : ∀ width, (header = 0xdc ∧ width = 2 ∨ header = 0xdd ∧ width = 4) →
      ∃ size behind, mpDecodeArray (header :: (data ++ rest)) = some (size, behind) ∧
        size < data.length + 1 := by
    intro width hhdr
    rw [(mpNext_wide hhdr).1] at hwhole
    by_cases hlen : width ≤ data.length
    · rw [if_pos hlen] at hwhole
      have hbound := (mpNextValues_append hwhole []).1
      rw [length_drop, length_nil] at hbound
      have hlen' : width ≤ (data ++ rest).length := by rw [length_append]; omega
      refine ⟨_, _, (mpNext_wide hhdr).2.trans (if_pos hlen'), ?_⟩
      rw [take_append_of_le_length hlen]
      omega
    · rw [if_neg hlen] at hwhole
      exact absurd hwhole nofun
  rcases harray with ⟨hlow, hhigh⟩ | hhdr | hhdr
  · rw [(mpNext_fixed hlow hhigh).1] at hwhole
    have hbound := (mpNextValues_append hwhole []).1
    rw [length_nil] at hbound
    exact ⟨_, _, (mpNext_fixed hlow hhigh).2, by omega⟩
  · exact hwide 2 (.inl ⟨hhdr, rfl⟩)
  · exact hwide 4 (.inr ⟨hhdr, rfl⟩)

/-- Where the client takes the address of some arrays, the memory holds the array of them. -/
def IsBatch (data : Uint8List) (elements : List ArrayValue) : Prop :=
  ∃ rest, mpDecodeArray data = some (elements.length, (elements.map bytes).flatten ++ rest)

end ArrayValue

open ArrayValue (IsBatch)

/-! ## Batches and their elements -/

/-- A request for many elements, with the elements. -/
inductive BatchRequest where
  | put (request : SpaceRequest) (tuples : List ArrayValue)
  | insert (request : SpaceRequest) (tuples : List ArrayValue)
  | delete (request : SpaceRequest) (keys : List ArrayValue)
  | update (request : SpaceUpdateRequest) (keys operations : List ArrayValue)
  | indexUpdate (request : IndexUpdateRequest) (keys operations : List ArrayValue)

namespace BatchRequest

/-- The memory holds the elements, at the addresses of the request. -/
def WellFormed (memory : ℕ → Uint8List) : BatchRequest → Prop
  | put request elements | insert request elements | delete request elements =>
    IsBatch (memory request.tuple) elements
  | update request keys operations =>
    IsBatch (memory request.key) keys ∧ IsBatch (memory request.operations) operations
  | indexUpdate request keys operations =>
    IsBatch (memory request.key) keys ∧ IsBatch (memory request.operations) operations

variable {Database Tuple : Type} [DecidableEq Tuple]

/-- The handler of a request. -/
def handler (box : Box Database Tuple) (memory : ℕ → Uint8List) :
    BatchRequest → Handler Database Tuple
  | put request _ => storageSpacePutMany box memory request
  | insert request _ => storageSpaceInsertMany box memory request
  | delete request _ => storageSpaceDeleteMany box memory request
  | update request _ _ => storageSpaceUpdateMany box memory request
  | indexUpdate request _ _ => storageIndexUpdateMany box memory request

/-- The calls on the keys with their operations. A key without operations is no call, and neither
are operations without a key. -/
def pairCalls (call : Uint8List → Uint8List → BoxCall) :
    List ArrayValue → List ArrayValue → List (Option BoxCall)
  | [], [] => []
  | key :: keys, operation :: operations =>
    some (call key.bytes operation.bytes) :: pairCalls call keys operations
  | _, _ => [none]

/-- The calls of the single operations on the elements. -/
def calls : BatchRequest → List (Option BoxCall)
  | put request tuples => tuples.map fun tuple => some (.replace request.spaceId tuple.bytes)
  | insert request tuples => tuples.map fun tuple => some (.insert request.spaceId tuple.bytes)
  | delete request keys =>
    keys.map fun key => some (.delete request.spaceId primaryIndexId key.bytes)
  | update request keys operations =>
    pairCalls (.update request.spaceId primaryIndexId) keys operations
  | indexUpdate request keys operations =>
    pairCalls (.update request.spaceId request.indexId) keys operations

end BatchRequest

variable {Database Tuple : Type} [DecidableEq Tuple]

/-- The single operations one after the other: the tuples of those that give one, and the last
database, unless one of them fails. -/
def singles (box : Box Database Tuple) :
    List (Option BoxCall) → Database → Option (List Tuple × Database)
  | [], database => some ([], database)
  | call :: calls, database => do
    let (reply, native) ← single box call ⟨database, fun _ => 0⟩
    match reply with
    | .unchanged => singles box calls native.database
    | .tuple tuple =>
      let (tuples, last) ← singles box calls native.database
      return (tuple :: tuples, last)
    | _ => none

/-- The transaction cannot be committed, or the port has no memory for one of its entries. -/
def CannotFinish (box : Box Database Tuple) (tuples : List Tuple) (last : Database) : Prop :=
  box.commitFails last = true ∨ ∃ entries, entries <+: tuples ∧ box.portAddFails entries = true

/-- A batch does what the single operations do and gives their tuples, or it changes nothing and
gives an error. -/
def BatchEquals (box : Box Database Tuple) (batch : Handler Database Tuple)
    (calls : List (Option BoxCall)) (native : Native Database Tuple) : Prop :=
  ∃ reply after, batch native = some (reply, after) ∧
    ((∃ tuples, singles box calls native.database = some (tuples, after.database) ∧
        reply = .port tuples) ∨
      reply = .error ∧ after.database = native.database ∧
        ∀ tuples last, singles box calls native.database = some (tuples, last) →
          CannotFinish box tuples last)

/-- An insertion that does not fail gives the inserted tuple. -/
def InsertGivesTuple (box : Box Database Tuple) : Prop :=
  ∀ space tuple database, (box.call (.insert space tuple) database).1 ≠ .null

variable {memory : ℕ → Uint8List} {address : ℕ} {box : Box Database Tuple} {Cursor : Type}
  {calls : List (Option BoxCall)} {call : Cursor → Option BoxCall} {next : Cursor → Option Cursor}
  {native : Native Unit Unit}

/-- The single operations on elements are those of the handlers for one element. -/
theorem singleTuple_of_range (box : Box Database Tuple) (call : Uint8List → BoxCall) {size : ℕ}
    {element : Uint8List} (h : range memory address size = some element) :
    singleTuple box memory call address size = single box (some (call element)) := by
  rw [singleTuple, h]
  rfl

theorem singlePair_of_range (box : Box Database Tuple) (call : Uint8List → Uint8List → BoxCall)
    {size operations operationsSize : ℕ} {key operation : Uint8List}
    (hkey : range memory address size = some key)
    (hop : range memory operations operationsSize = some operation) :
    singlePair box memory call address size operations operationsSize =
      single box (some (call key operation)) := by
  rw [singlePair, hkey, hop]
  rfl

/-! ## One call -/

section Step

variable {Cursor : Type} {box : Box Database Tuple} {before : Database}
variable {call : Cursor → Option BoxCall} {next : Cursor → Option Cursor} {count : ℕ}
variable {cursor : Cursor} {entries : List Tuple} {native : Native Database Tuple}
variable {boxCall : BoxCall} {tuple : Tuple} {database : Database}

/-- The failed call ends the loop. -/
theorem batchLoop_error (hcursor : call cursor = some boxCall)
    (hcall : box.call boxCall native.database = (.error, database)) :
    batchLoop box before call next (count + 1) cursor entries native =
      some (rollback before entries native) := by
  rw [batchLoop, hcursor, Option.bind_eq_bind, Option.bind_some, hcall]

/-- The port has no memory for the tuple. -/
theorem batchLoop_full (hcursor : call cursor = some boxCall)
    (hcall : box.call boxCall native.database = (.tuple tuple, database))
    (hport : box.portAddFails entries = true) :
    batchLoop box before call next (count + 1) cursor entries native =
      some (rollback before entries ({ native with database := database }.ref [tuple])) := by
  rw [batchLoop, hcursor, Option.bind_eq_bind, Option.bind_some, hcall]
  exact if_pos hport

/-- The tuple is an entry of the port, and the loop goes on. -/
theorem batchLoop_tuple (hcursor : call cursor = some boxCall)
    (hcall : box.call boxCall native.database = (.tuple tuple, database))
    (hport : ¬box.portAddFails entries = true) :
    batchLoop box before call next (count + 1) cursor entries native =
      (next cursor).bind fun behind => batchLoop box before call next count behind
        (entries ++ [tuple]) (({ native with database := database }.ref [tuple]).ref [tuple]) := by
  rw [batchLoop, hcursor, Option.bind_eq_bind, Option.bind_some, hcall]
  exact if_neg hport

theorem single_error (hcall : box.call boxCall native.database = (.error, database)) :
    single box (some boxCall) native = some (.error, { native with database := database }) := by
  rw [single, Option.bind_eq_bind, Option.bind_some, hcall]

theorem single_null (hcall : box.call boxCall native.database = (.null, database)) :
    single box (some boxCall) native = some (.unchanged, { native with database := database }) := by
  rw [single, Option.bind_eq_bind, Option.bind_some, hcall]

theorem single_tuple (hcall : box.call boxCall native.database = (.tuple tuple, database)) :
    single box (some boxCall) native =
      some (.tuple tuple, { native with database := database }.ref [tuple]) := by
  rw [single, Option.bind_eq_bind, Option.bind_some, hcall]

variable {calls : List (Option BoxCall)}

theorem singles_error {after : Database} (hcall : box.call boxCall database = (.error, after)) :
    singles box (some boxCall :: calls) database = none := by
  rw [singles, single_error hcall]
  rfl

theorem singles_tuple {after : Database}
    (hcall : box.call boxCall database = (.tuple tuple, after)) :
    singles box (some boxCall :: calls) database =
      (singles box calls after).map (Prod.map (tuple :: ·) id) := by
  rw [singles, single_tuple hcall, Option.bind_eq_bind, Option.bind_some]
  cases hrest : singles box calls after with
  | none => simp [Native.ref, hrest]
  | some result => simp [Native.ref, hrest, Prod.map]

end Step

/-! ## Insertions -/

/-- What the loop leaves behind the entries of the port. -/
def LoopEquals (box : Box Database Tuple) (before : Database) (entries : List Tuple)
    (result : Option (List Tuple × Database)) (reply : Reply Tuple) (after : Database) : Prop :=
  (∃ tuples, result = some (tuples, after) ∧ reply = .port (entries ++ tuples)) ∨
    reply = .error ∧ after = before ∧
      ∀ tuples last, result = some (tuples, last) → CannotFinish box (entries ++ tuples) last

omit [DecidableEq Tuple] in
/-- One more tuple: behind the entries, or in front of what the other calls give. -/
theorem LoopEquals.cons {before after : Database} {entries : List Tuple} {tuple : Tuple}
    {result : Option (List Tuple × Database)} {reply : Reply Tuple}
    (h : LoopEquals box before (entries ++ [tuple]) result reply after) :
    LoopEquals box before entries (result.map (Prod.map (tuple :: ·) id)) reply after := by
  rcases h with ⟨tuples, hres, hreply⟩ | ⟨hreply, hafter, hfinish⟩
  · refine .inl ⟨tuple :: tuples, ?_, ?_⟩
    · rw [hres]
      rfl
    · rw [hreply, append_assoc, singleton_append]
  · refine .inr ⟨hreply, hafter, fun tuples last hres => ?_⟩
    obtain ⟨⟨others, database⟩, hothers, hpair⟩ := Option.map_eq_some_iff.mp hres
    have htuples : tuple :: others = tuples := congrArg Prod.fst hpair
    have hlast : database = last := congrArg Prod.snd hpair
    have hcannot := hfinish others database hothers
    rwa [append_assoc, singleton_append, htuples, hlast] at hcannot

theorem nextElement_append (call : Uint8List → BoxCall) (element : ArrayValue) (rest : Uint8List) :
    nextElement call (element.bytes ++ rest) = some (call element.bytes) := by
  have hlen : (element.bytes ++ rest).length - rest.length = element.bytes.length := by
    rw [length_append]
    omega
  rw [nextElement, element.mpNext_append rest]
  show some (call ((element.bytes ++ rest).take ((element.bytes ++ rest).length - rest.length))) = _
  rw [hlen, take_left]

/-- The loop on the elements, by induction on them. -/
theorem batchLoop_insert (hbox : InsertGivesTuple box) (space : ℕ) (before : Database)
    (rest : Uint8List) (elements : List ArrayValue) :
    ∀ entries native, ∃ reply after,
      batchLoop box before (nextElement (.insert space)) mpNext elements.length
          ((elements.map ArrayValue.bytes).flatten ++ rest) entries native = some (reply, after) ∧
        LoopEquals box before entries
          (singles box (elements.map fun element => some (.insert space element.bytes))
            native.database)
          reply after.database := by
  induction elements with
  | nil =>
    intro entries native
    rw [length_nil, batchLoop]
    by_cases hcommit : box.commitFails native.database = true
    · refine ⟨_, _, if_pos hcommit, .inr ⟨rfl, rfl, ?_⟩⟩
      intro tuples last hsingles
      have hlast : native.database = last := congrArg Prod.snd (Option.some.inj hsingles)
      exact .inl (hlast ▸ hcommit)
    · exact ⟨_, _, if_neg hcommit, .inl ⟨[], rfl, by rw [append_nil]⟩⟩
  | cons element elements ih =>
    intro entries native
    rw [map_cons, flatten_cons, append_assoc, length_cons, map_cons]
    have hcursor := nextElement_append (.insert space) element
      ((elements.map ArrayValue.bytes).flatten ++ rest)
    rcases hcall : box.call (.insert space element.bytes) native.database with ⟨result, database⟩
    cases result with
    | error =>
      refine ⟨_, _, batchLoop_error hcursor hcall, .inr ⟨rfl, rfl, fun tuples last hsingles => ?_⟩⟩
      -- The single request fails as well, and gives nothing to compare.
      rw [singles_error hcall] at hsingles
      exact absurd hsingles nofun
    | null => exact absurd (congrArg Prod.fst hcall) (hbox space element.bytes native.database)
    | tuple tuple =>
      rw [singles_tuple hcall]
      by_cases hport : box.portAddFails entries = true
      · refine ⟨_, _, batchLoop_full hcursor hcall hport, .inr ⟨rfl, rfl, fun tuples last _ => ?_⟩⟩
        exact .inr ⟨entries, prefix_append _ _, hport⟩
      · obtain ⟨reply, after, hloop, hequals⟩ := ih (entries ++ [tuple])
          -- Each tuple is referenced twice, for the entries and for the port.
          (({ native with database := database }.ref [tuple]).ref [tuple])
        refine ⟨reply, after, ?_, hequals.cons⟩
        rw [batchLoop_tuple hcursor hcall hport, element.mpNext_append, Option.bind_some, hloop]

theorem insert_equals (hbox : InsertGivesTuple box) {request : SpaceRequest}
    {tuples : List ArrayValue} (h : IsBatch (memory request.tuple) tuples)
    (native : Native Database Tuple) :
    BatchEquals box (storageSpaceInsertMany box memory request)
      (BatchRequest.insert request tuples).calls native := by
  obtain ⟨rest, hbatch⟩ := h
  obtain ⟨reply, after, hloop, hequals⟩ :=
    batchLoop_insert hbox request.spaceId native.database rest tuples [] native
  refine ⟨reply, after, ?_, hequals⟩
  rw [storageSpaceInsertMany, hbatch]
  exact hloop

/-! ## Batches without elements -/

/-- Without a call the transaction is committed. -/
theorem batchLoop_zero (box : Box Database Tuple) (call : Cursor → Option BoxCall)
    (next : Cursor → Option Cursor) (cursor : Cursor) (native : Native Database Tuple) :
    BatchEquals box (batchLoop box native.database call next 0 cursor []) [] native := by
  by_cases hcommit : box.commitFails native.database = true
  · refine ⟨_, _, if_pos hcommit, .inr ⟨rfl, rfl, fun tuples last hsingles => ?_⟩⟩
    have hlast : native.database = last := congrArg Prod.snd (Option.some.inj hsingles)
    exact .inl (hlast ▸ hcommit)
  · exact ⟨_, _, if_neg hcommit, .inl ⟨[], rfl, rfl⟩⟩

/-! ## Elements that are taken for too few bytes -/

/-- A database where one call fails, or none, and all the others give the same tuple. -/
def failsOn (failing : Option BoxCall) : Box Unit Unit where
  call := fun call database => if failing = some call then (.error, database)
    else (.tuple (), database)
  query := fun _ _ => 0
  select := fun _ _ => some []
  lua := fun _ database => (some [], database)
  truncate := fun _ database => database
  iteratorFree := fun _ database => database
  portAddFails := fun _ => false
  commitFails := fun _ => false

theorem failsOn_insertGivesTuple (failing : Option BoxCall) :
    InsertGivesTuple (failsOn failing) := by
  intro space tuple database
  show (if failing = some (.insert space tuple) then _ else _ : BoxResult Unit × Unit).1 ≠ .null
  split
  · exact nofun
  · exact nofun

theorem failsOn_finishes (failing : Option BoxCall) (tuples : List Unit) (last : Unit) :
    ¬CannotFinish (failsOn failing) tuples last := by
  rintro (hcommit | ⟨entries, -, hport⟩)
  · exact Bool.false_ne_true hcommit
  · exact Bool.false_ne_true hport

/-- The single operations succeed when the failing call is none of them. -/
theorem singles_failsOn {failing : Option BoxCall} (database : Unit) (calls : List (Option BoxCall))
    (h : ∀ call ∈ calls, ∃ boxCall, call = some boxCall ∧ failing ≠ some boxCall) :
    ∃ result, singles (failsOn failing) calls database = some result := by
  induction calls generalizing database with
  | nil => exact ⟨_, rfl⟩
  | cons call calls ih =>
    obtain ⟨boxCall, rfl, hne⟩ := h call mem_cons_self
    have hcall : (failsOn failing).call boxCall database = (.tuple (), database) := if_neg hne
    obtain ⟨result, hres⟩ := ih database fun call hmem => h call (mem_cons_of_mem _ hmem)
    rw [singles_tuple hcall, hres]
    exact ⟨_, rfl⟩

/-- A key without operations fails, whatever the database does before. -/
theorem singles_of_none_mem (box : Box Database Tuple) (h : none ∈ calls) (database : Database) :
    singles box calls database = none := by
  induction calls generalizing database with
  | nil => exact absurd h not_mem_nil
  | cons call calls ih =>
    cases call with
    | none => rfl
    | some boxCall =>
      have hrest : none ∈ calls := (mem_cons.mp h).resolve_left nofun
      rcases hcall : box.call boxCall database with ⟨result, after⟩
      cases result with
      | error => exact singles_error hcall
      | null =>
        rw [singles, single_null hcall]
        exact ih hrest after
      | tuple tuple =>
        rw [singles_tuple hcall, ih hrest after]
        rfl

/-- A loop whose calls all succeed gives no error. -/
theorem batchLoop_failsOn_none {count : ℕ} {cursor : Cursor} {entries : List Unit}
    {after : Native Unit Unit} {reply : Reply Unit}
    (h : batchLoop (failsOn none) () call next count cursor entries native = some (reply, after)) :
    reply ≠ .error := by
  induction count generalizing cursor entries native with
  | zero =>
    have hcommit : ¬(failsOn none).commitFails native.database = true := Bool.false_ne_true
    rw [batchLoop, if_neg hcommit] at h
    have hreply : Reply.port entries = reply := congrArg Prod.fst (Option.some.inj h)
    rw [← hreply]
    exact nofun
  | succ count ih =>
    cases hcursor : call cursor with
    | none =>
      rw [batchLoop, hcursor] at h
      exact absurd h nofun
    | some boxCall =>
      have hcall : (failsOn none).call boxCall native.database = (.tuple (), native.database) := rfl
      have hport : ¬(failsOn none).portAddFails entries = true := Bool.false_ne_true
      rw [batchLoop_tuple hcursor hcall hport] at h
      obtain ⟨behind, -, hloop⟩ := Option.bind_eq_some_iff.mp h
      exact ih hloop

/-- The bytes of an element are cut: as many as it has elements. -/
theorem countedElement_cuts (call : Uint8List → BoxCall) (element : ArrayValue) (rest : Uint8List) :
    ∃ size, size < element.bytes.length ∧
      countedElement call (element.bytes ++ rest) = some (call (element.bytes.take size)) := by
  obtain ⟨size, behind, hdecode, hsize⟩ := element.size_lt rest
  have hlen : size ≤ (element.bytes ++ rest).length := by
    rw [length_append]
    omega
  have htake : (element.bytes ++ rest).take size = element.bytes.take size :=
    take_append_of_le_length hsize.le
  refine ⟨size, hsize, ?_⟩
  rw [countedElement, hdecode, ← htake]
  exact if_pos hlen

/-- A first call that fails is no batch of calls that succeed. -/
theorem not_equals_of_first {count : ℕ} {cursor : Cursor} {failing : BoxCall}
    {batch : Handler Unit Unit}
    (hbatch : batch native =
      batchLoop (failsOn (some failing)) native.database call next (count + 1) cursor [] native)
    (hcursor : call cursor = some failing)
    (hcalls : ∀ call ∈ calls, ∃ boxCall, call = some boxCall ∧ failing ≠ boxCall) :
    ¬BatchEquals (failsOn (some failing)) batch calls native := by
  rintro ⟨reply, after, hreply, hequals⟩
  have hsucceed : ∀ call ∈ calls, ∃ boxCall, call = some boxCall ∧ some failing ≠ some boxCall := by
    intro call hmem
    obtain ⟨boxCall, hcall, hne⟩ := hcalls call hmem
    exact ⟨boxCall, hcall, fun heq => hne (Option.some.inj heq)⟩
  obtain ⟨⟨tuples, last⟩, hsingles⟩ := singles_failsOn native.database calls hsucceed
  rw [hbatch, batchLoop_error hcursor (if_pos rfl)] at hreply
  have herror : Reply.error = reply := congrArg Prod.fst (Option.some.inj hreply)
  rcases hequals with ⟨tuples', -, hport⟩ | ⟨-, -, hfinish⟩
  · rw [← herror] at hport
    exact absurd hport nofun
  · exact failsOn_finishes _ tuples last (hfinish tuples last hsingles)

/-- A batch of one array with elements does not always do what the single operations do: the
database can refuse the piece of the first element. -/
theorem not_equals_counted {call : Uint8List → BoxCall} (hcall : Function.Injective call)
    {element : ArrayValue} {elements : List ArrayValue}
    (h : IsBatch (memory address) (element :: elements)) :
    ∃ failing, ∀ native, ¬BatchEquals (failsOn (some failing))
      (manyCounted (failsOn (some failing)) memory call address)
      ((element :: elements).map fun element => some (call element.bytes)) native := by
  obtain ⟨rest, hbatch⟩ := h
  rw [map_cons, flatten_cons, append_assoc] at hbatch
  obtain ⟨size, hsize, hcursor⟩ :=
    countedElement_cuts call element ((elements.map ArrayValue.bytes).flatten ++ rest)
  refine ⟨call (element.bytes.take size), fun native => ?_⟩
  have hloop :
    manyCounted (failsOn (some (call (element.bytes.take size)))) memory call address native =
      batchLoop (failsOn (some (call (element.bytes.take size)))) native.database
        (countedElement call) mpNext (elements.length + 1)
        (element.bytes ++ ((elements.map ArrayValue.bytes).flatten ++ rest)) [] native := by
    rw [manyCounted, hbatch]
    rfl
  refine not_equals_of_first hloop hcursor fun other hmem => ?_
  obtain ⟨value, -, rfl⟩ := mem_map.mp hmem
  exact ⟨_, rfl, fun heq => element.take_ne value hsize (hcall heq)⟩

theorem pairCalls_of_length_ne (call : Uint8List → Uint8List → BoxCall) :
    ∀ keys operations : List ArrayValue, keys.length ≠ operations.length →
      none ∈ BatchRequest.pairCalls call keys operations
  | [], [], h => absurd rfl h
  | [], _ :: _, _ | _ :: _, [], _ => mem_singleton_self _
  | _ :: keys, _ :: operations, h =>
    mem_cons_of_mem _ (pairCalls_of_length_ne call keys operations fun heq =>
      h (congrArg (· + 1) heq))

theorem pairCalls_of_length_eq (call : Uint8List → Uint8List → BoxCall) :
    ∀ keys operations : List ArrayValue, keys.length = operations.length →
      ∀ other ∈ BatchRequest.pairCalls call keys operations, ∃ key operation : ArrayValue,
        other = some (call key.bytes operation.bytes)
  | [], [], _, _, hmem => absurd hmem not_mem_nil
  | [], _ :: _, h, _, _ | _ :: _, [], h, _, _ => absurd h nofun
  | key :: keys, operation :: operations, h, other, hmem => by
    rcases mem_cons.mp hmem with rfl | hmem
    · exact ⟨key, operation, rfl⟩
    · exact pairCalls_of_length_eq call keys operations (Nat.succ.inj h) other hmem

/-- The same for keys with operations. Where the lengths differ, the calls of the loop can all
succeed. -/
theorem not_equals_pairs {call : Uint8List → Uint8List → BoxCall}
    (hcall : ∀ key other operation operation', call key operation = call other operation' → key =
    other) {operationsAddress : ℕ} {keys operations : List ArrayValue}
    (hkeys : IsBatch (memory address) keys) (hops : IsBatch (memory operationsAddress) operations)
    (hne : ¬(keys = [] ∧ operations = [])) :
    ∃ failing, ∀ native, ¬BatchEquals (failsOn failing)
      (manyPairs (failsOn failing) memory call address operationsAddress)
      (BatchRequest.pairCalls call keys operations) native := by
  obtain ⟨rest, hbatch⟩ := hkeys
  obtain ⟨rest', hbatch'⟩ := hops
  have hcursors : pairCursors memory address operationsAddress = some (keys.length,
      (keys.map ArrayValue.bytes).flatten ++ rest,
      (operations.map ArrayValue.bytes).flatten ++ rest') := by
    rw [pairCursors, hbatch, hbatch']
    rfl
  by_cases hlens : keys.length = operations.length
  · cases keys with
    | nil => exact absurd ⟨rfl, eq_nil_of_length_eq_zero hlens.symm⟩ hne
    | cons key keys =>
      cases operations with
      | nil => exact absurd hlens nofun
      | cons operation operations =>
        rw [map_cons, flatten_cons, append_assoc, map_cons, flatten_cons,
          append_assoc] at hcursors
        set keyRest := (keys.map ArrayValue.bytes).flatten ++ rest
        set operationRest := (operations.map ArrayValue.bytes).flatten ++ rest'
        obtain ⟨size, behind, hdecode, hsize⟩ := key.size_lt keyRest
        obtain ⟨size', behind', hdecode', hsize'⟩ := operation.size_lt operationRest
        have htake : (key.bytes ++ keyRest).take size = key.bytes.take size :=
          take_append_of_le_length hsize.le
        have hcursor : countedPair call (key.bytes ++ keyRest, operation.bytes ++ operationRest) =
            some (call (key.bytes.take size) ((operation.bytes ++ operationRest).take size')) := by
          rw [countedPair, hdecode, hdecode', ← htake]
          refine if_pos ⟨?_, ?_⟩
          · rw [length_append]
            omega
          · rw [length_append]
            omega
        -- The box fails for the first pair, which is cut in the middle.
        set failing := call (key.bytes.take size) ((operation.bytes ++ operationRest).take size')
        refine ⟨some failing, fun native => ?_⟩
        have hloop :
          manyPairs (failsOn (some failing)) memory call address operationsAddress native =
            batchLoop (failsOn (some failing)) native.database (countedPair call) nextPair
              (keys.length + 1) (key.bytes ++ keyRest, operation.bytes ++ operationRest)
                  [] native := by
          rw [manyPairs, hcursors]
          rfl
        refine not_equals_of_first hloop hcursor fun other hmem => ?_
        obtain ⟨otherKey, otherOperation, rfl⟩ := pairCalls_of_length_eq call _ _ hlens other hmem
        exact ⟨_, rfl, fun heq => key.take_ne otherKey hsize (hcall _ _ _ _ heq)⟩
  · refine ⟨none, fun native => ?_⟩
    rintro ⟨reply, after, hreply, hequals⟩
    -- Of two lengths the single requests have no pair for the longer one.
    have hsingles := singles_of_none_mem (failsOn none)
      (pairCalls_of_length_ne call keys operations hlens) native.database
    rw [manyPairs, hcursors] at hreply
    rcases hequals with ⟨tuples, hsome, -⟩ | ⟨herror, -, -⟩
    · rw [hsingles] at hsome
      exact absurd hsome nofun
    · exact batchLoop_failsOn_none hreply herror

/-! ## Which batches equal their sequence -/

namespace BatchRequest

/-- The loop on the elements takes their bytes, or has nothing to take. -/
def Exact : BatchRequest → Prop
  | insert _ _ => True
  | put _ elements | delete _ elements => elements = []
  | update _ keys operations | indexUpdate _ keys operations => keys = [] ∧ operations = []

/-- The batch does what the single operations do, whatever the database is. -/
def EqualsSequence (memory : ℕ → Uint8List) (request : BatchRequest) : Prop :=
  ∀ (Database Tuple : Type) [DecidableEq Tuple] (box : Box Database Tuple), InsertGivesTuple box →
    ∀ native, BatchEquals box (request.handler box memory) request.calls native

theorem counted_iff {memory : ℕ → Uint8List} {call : Uint8List → BoxCall}
    (hcall : Function.Injective call) {address : ℕ} {elements : List ArrayValue}
    (h : IsBatch (memory address) elements) :
    (∀ (Database Tuple : Type) [DecidableEq Tuple] (box : Box Database Tuple),
      InsertGivesTuple box →
      ∀ native, BatchEquals box (manyCounted box memory call address)
        (elements.map fun element => some (call element.bytes)) native) ↔ elements = [] := by
  constructor
  · intro hequals
    cases elements with
    | nil => rfl
    | cons element elements =>
      obtain ⟨failing, hne⟩ := not_equals_counted hcall h
      have hbox := failsOn_insertGivesTuple (some failing)
      exact absurd (hequals Unit Unit _ hbox ⟨(), fun _ => 0⟩) (hne _)
  · rintro rfl Database Tuple _ box - native
    obtain ⟨rest, hbatch⟩ := h
    have hloop : manyCounted box memory call address native =
        batchLoop box native.database (countedElement call) mpNext 0 rest [] native := by
      rw [manyCounted, hbatch]
      rfl
    obtain ⟨reply, after, hreply, hequals⟩ :=
      batchLoop_zero box (countedElement call) mpNext rest native
    exact ⟨reply, after, hloop.trans hreply, hequals⟩

theorem pairs_iff {memory : ℕ → Uint8List} {call : Uint8List → Uint8List → BoxCall}
    (hcall : ∀ key other operation operation', call key operation = call other operation' →
      key = other) {address operationsAddress : ℕ} {keys operations : List ArrayValue}
    (hkeys : IsBatch (memory address) keys) (hops : IsBatch (memory operationsAddress) operations) :
    (∀ (Database Tuple : Type) [DecidableEq Tuple] (box : Box Database Tuple),
      InsertGivesTuple box →
      ∀ native, BatchEquals box (manyPairs box memory call address operationsAddress)
        (pairCalls call keys operations) native) ↔ keys = [] ∧ operations = [] := by
  constructor
  · intro hequals
    by_contra hempty
    obtain ⟨failing, hne⟩ := not_equals_pairs hcall hkeys hops hempty
    exact hne _ (hequals Unit Unit _ (failsOn_insertGivesTuple failing) ⟨(), fun _ => 0⟩)
  · rintro ⟨rfl, rfl⟩ Database Tuple _ box - native
    obtain ⟨rest, hbatch⟩ := hkeys
    obtain ⟨rest', hbatch'⟩ := hops
    have hloop : manyPairs box memory call address operationsAddress native =
        batchLoop box native.database (countedPair call) nextPair 0 (rest, rest') [] native := by
      rw [manyPairs, pairCursors, hbatch, hbatch']
      rfl
    obtain ⟨reply, after, hreply, hequals⟩ :=
      batchLoop_zero box (countedPair call) nextPair (rest, rest') native
    exact ⟨reply, after, hloop.trans hreply, hequals⟩

/-- Insertions equal their sequence, and so do batches without elements; no other batch does. -/
theorem equalsSequence_iff {memory : ℕ → Uint8List} {request : BatchRequest}
    (h : request.WellFormed memory) : request.EqualsSequence memory ↔ request.Exact := by
  cases request with
  | insert request tuples =>
    refine iff_of_true (fun Database Tuple _ box hbox native => ?_) trivial
    exact insert_equals hbox h native
  | put request tuples =>
    exact counted_iff (fun tuple tuple' heq => (BoxCall.replace.inj heq).2) h
  | delete request keys =>
    exact counted_iff (fun key key' heq => (BoxCall.delete.inj heq).2.2) h
  | update request keys operations =>
    exact pairs_iff (fun _ _ _ _ heq => (BoxCall.update.inj heq).2.2.1) h.1 h.2
  | indexUpdate request keys operations =>
    exact pairs_iff (fun _ _ _ _ heq => (BoxCall.update.inj heq).2.2.1) h.1 h.2

/-- A tuple with the number 7, and one with 8. -/
def seven : ArrayValue where
  bytes := [0x91, 7]
  whole := by simp [mpNext, mpNextValues, parserHint]
  array := ⟨0x91, [7], rfl, .inl ⟨by decide, by decide⟩⟩

def eight : ArrayValue where
  bytes := [0x91, 8]
  whole := by simp [mpNext, mpNextValues, parserHint]
  array := ⟨0x91, [8], rfl, .inl ⟨by decide, by decide⟩⟩

/-- A batch of both at address 0. -/
theorem equalsSequence_iff_two :
    (insert ⟨3, 0, 512⟩ [seven, eight]).EqualsSequence fun _ => [0x92, 0x91, 7, 0x91, 8] := by
  have hbatch : (insert ⟨3, 0, 512⟩ [seven, eight]).WellFormed fun _ => [0x92, 0x91, 7, 0x91, 8] :=
    ⟨[], rfl⟩
  exact (equalsSequence_iff hbatch).mpr trivial

/-- The database gets the first byte of the tuple only. -/
theorem not_equalsSequence :
    ¬∀ memory request, WellFormed memory request → EqualsSequence memory request := by
  intro h
  have hwhole : (put ⟨3, 0, 512⟩ [seven]).WellFormed fun _ => [0x91, 0x91, 7] := ⟨[], rfl⟩
  have hequals := h _ (put ⟨3, 0, 512⟩ [seven]) hwhole Unit Unit
    (failsOn (some (.replace 512 [0x91]))) (failsOn_insertGivesTuple _) ⟨(), fun _ => 0⟩
  obtain ⟨reply, after, hreply, hequals⟩ := hequals
  have herror : Reply.error = reply := congrArg (fun result => result.elim reply Prod.fst) hreply
  subst herror
  rcases hequals with ⟨tuples, -, hport⟩ | ⟨-, -, hfinish⟩
  · exact absurd hport nofun
  · exact failsOn_finishes _ [()] () (hfinish [()] () rfl)

end BatchRequest

end FengShui.Storage
