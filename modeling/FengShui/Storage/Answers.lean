import FengShui.Storage.Marshalling
import FengShui.Storage.Ports

/-!
# What the client reads in a task (`storage/box.c`, `storage/factory.dart`, `memory/objects.dart`)

A structure with a task is taken from a pool, filled, sent, and given back behind an answer without
an error; nothing clears it. The functions of the factory leave out some fields of a request that
its handler reads, and a handler writes the output, and little else: what they leave is what the
structure had before. `independent_iff` says when the client cannot tell.
-/

namespace FengShui.Storage

open Transition

/-- What the output of a task points to, or the number that it is. -/
inductive TaskOutput (Tuple : Type) where
  | null
  | tuple (tuple : Tuple)
  | port (entries : List Tuple)
  | number (number : ℕ)
  | buffer (bytes : Uint8List)
  | event
  deriving DecidableEq

/-- The fields of a task that the client reads: `output`, `output_size`, and
`EXECUTOR_TASK_OUTPUT_EVENT` of `flags`. -/
structure TaskAnswer (Tuple : Type) where
  output : TaskOutput Tuple
  outputSize : ℕ
  outputEvent : Bool
  deriving DecidableEq

variable {Database Tuple : Type}

/-- What a handler writes into its task. -/
def Reply.write (task : TaskAnswer Tuple) : Reply Tuple → TaskAnswer Tuple
  -- `sizeof(task->output)`, and the only place where the flags are written.
  | .error => ⟨.event, 8, true⟩
  | .unchanged => task
  | .tuple result => { task with output := .tuple result }
  | .port entries => { task with output := .port entries }
  | .number value => { task with output := .number value }
  | .buffer bytes => { task with output := .buffer bytes, outputSize := bytes.length }

variable [DecidableEq Tuple]

/-- What handlers read in a structure though no function of the factory writes it. -/
structure Unwritten where
  /-- Of a `storage_index_update_request`. -/
  operations : ℕ
  operationsSize : ℕ
  /-- What is at the input of the task of a `storage_index_id_request`, which lies in front of
  it. -/
  ids : IndexIdRequest

/-- A request as the factory makes it. -/
inductive FactoryRequest where
  /-- All that its handler reads is written. -/
  | whole (request : Request)
  | indexLength (spaceId indexId : ℕ)
  | indexUpdateSingle (spaceId indexId key keySize operations operationsSize : ℕ)
  | indexUpdateMany (spaceId indexId key keySize operations operationsSize : ℕ)

/-- The request that the handler reads. -/
def FactoryRequest.read (unwritten : Unwritten) : FactoryRequest → Request
  | whole request => request
  | indexLength _ _ => .indexLength unwritten.ids
  | indexUpdateSingle spaceId indexId key keySize _ _ => .indexUpdateSingle
      ⟨key, keySize, unwritten.operations, unwritten.operationsSize, spaceId, indexId⟩
  | indexUpdateMany spaceId indexId key keySize _ _ => .indexUpdateMany
      ⟨key, keySize, unwritten.operations, unwritten.operationsSize, spaceId, indexId⟩

/-- The storage, and a structure of the pool. -/
structure PooledTask (Database Tuple : Type) where
  native : Native Database Tuple
  unwritten : Unwritten
  task : TaskAnswer Tuple
  /-- The structure is in the pool. -/
  released : Bool
  /-- It is a `storage_index_id_request`. -/
  identifies : Bool

/-- What happens in between: a request with this structure, or with another one, or that the memory
in front of the structure, where a pair of ids has its task, is written. -/
inductive Use (Tuple : Type) where
  | own (request : FactoryRequest) (memory : ℕ → Uint8List)
  | other (request : Request) (memory : ℕ → Uint8List)
  | front (ids : IndexIdRequest) (task : TaskAnswer Tuple)

namespace PooledTask

variable (box : Box Database Tuple)

/-- A structure that the pool got from the allocator, with what its memory had. -/
def fresh (database : Database) (unwritten : Unwritten) (task : TaskAnswer Tuple)
    (identifies : Bool) :
    PooledTask Database Tuple :=
  ⟨⟨database, fun _ => 0⟩, unwritten, task, true, identifies⟩

/-- The structure goes back to the pool behind an answer that is no error. -/
def step (pooled : PooledTask Database Tuple) : Use Tuple → Option (PooledTask Database Tuple)
  | .own request memory =>
    if pooled.released then do
      let (reply, native) ← (request.read pooled.unwritten).handler box memory pooled.native
      let task := reply.write pooled.task
      return { pooled with native := native, task := task, released := !task.outputEvent }
    else none
  | .other request memory => do
    let (_, native) ← request.handler box memory pooled.native
    return { pooled with native := native }
  | .front ids task =>
    if pooled.identifies then
      some { pooled with unwritten := { pooled.unwritten with ids := ids }, task := task }
    else none

/-- What the client reads behind some uses of the structure and a request with it. -/
def answerBehind (pooled : PooledTask Database Tuple) (uses : List (Use Tuple))
    (request : FactoryRequest) (memory : ℕ → Uint8List) : Option (TaskAnswer Tuple) :=
  (run (step box) pooled (uses ++ [.own request memory])).map PooledTask.task

end PooledTask

section Structures

open Lib.Layout

variable {spaceId indexId key keySize : ℕ} (operations operationsSize : ℤ) {heap delivered : Heap}
  {address : ℕ}

/-- What a handler finds in the bytes that the factory has made for an update by index. -/
theorem readIndexUpdateRequest_createIndexUpdate (haddr : address < 2 ^ 64)
    (hspaceId : spaceId < 2 ^ 32) (hidxId : indexId < 2 ^ 32) (hkey : key < 2 ^ 64)
    (hkeySize : keySize < 2 ^ 64)
    (h : Delivered
      (createIndexUpdate spaceId indexId key keySize operations operationsSize heap address)
      delivered) :
    readIndexUpdateRequest delivered (inputOf delivered
        (createIndexUpdate spaceId indexId key keySize operations operationsSize heap
          address).task) =
      ⟨key, keySize,
        readField RequestField.fieldType indexUpdateRequestLayout heap address .operations,
        readField RequestField.fieldType indexUpdateRequestLayout heap address .operationsSize,
          spaceId,
        indexId⟩ := by
  have hlayout : HasTask indexUpdateRequestLayout := by decide
  let fields : List (RequestField × ℤ) :=
    [(.spaceId, spaceId), (.indexId, indexId), (.key, key), (.keySize, keySize)]
  have hfills : Fills indexUpdateRequestLayout (fields.map Prod.fst) := of_decide_eq_true rfl
  have hwritten (field : RequestField) {n : ℕ} (hmem : (field, (n : ℤ)) ∈ fields) :=
    readField_createRequest hlayout hfills h hmem
  have hkept {field : RequestField} (hfield : field ∈ indexUpdateRequestLayout)
    (hne : field ≠ .task) (hnot : field ∉ fields.map Prod.fst) :=
    readField_createRequest_of_notMem hlayout hfills hfield hne hnot h
  unfold createIndexUpdate
  rw [inputOf_createRequest hlayout haddr h, readIndexUpdateRequest,
    hwritten .spaceId (by simp [fields]) hspaceId, hwritten .indexId (by simp [fields]) hidxId,
    hwritten .key (by simp [fields]) hkey, hwritten .keySize (by simp [fields]) hkeySize,
    hkept
      (by decide) (by decide) (by simp [fields]), hkept (by decide) (by decide) (by simp [fields])]

end Structures

/-! ## What a request leaves in its task -/

section Conditions

variable (box : Box Database Tuple) (memory : ℕ → Uint8List) (database : Database)

/-- The call of the database for a single tuple gives `NULL`. -/
def Request.FindsNothing (request : Request) : Prop :=
  ∃ boxCall, request.firstCall memory = .single (some boxCall) ∧
    (box.call boxCall database).1 = .null

def LuaFails (evaluates : Bool) (request : LuaRequest) : Prop :=
  ∀ text input, range memory request.text request.textLength = some text →
    range memory request.input request.inputSize = some input →
      (box.lua ⟨evaluates, text, input⟩ database).1 = none

/-- The call that decides fails, or cannot be made. -/
def FirstCall.Fails : FirstCall → Prop
  | .single call => ∀ boxCall, call = some boxCall → (box.call boxCall database).1 = .error
  | .batch _ => False
  | .other readable => readable = false

/-- A call of the database fails, or the iterator is at its end. -/
def Request.Fails (request : Request) : Prop :=
  match request with
  | .evaluate lua => LuaFails box memory database true lua
  | .call lua => LuaFails box memory database false lua
  | .iteratorNextSingle iterator =>
    ∀ tuple, (box.call (.iteratorNext iterator) database).1 ≠ .tuple tuple
  | .iteratorNextMany .. | .spaceInsertMany _ | .spacePutMany _ | .spaceDeleteMany _
  | .spaceUpdateMany _ | .spaceSelect _ | .indexUpdateMany _ | .indexSelect _ =>
    ¬Pooled.Succeeds box memory database request
  | _ => (request.firstCall memory).Fails box database

/-- The handler does not touch its task. -/
def Request.WritesNothing (request : Request) : Prop :=
  match request with
  | .iteratorDestroy _ | .spaceTruncate _ => True
  | _ => request.FindsNothing box memory database

end Conditions

/-- The answer is a buffer, with its size. -/
def Request.isLua : Request → Bool
  | .evaluate _ | .call _ => true
  | _ => false

/-- A reply that writes the output alone. -/
def Reply.IsOutput : Reply Tuple → Prop
  | .tuple _ | .port _ | .number _ => True
  | .error | .unchanged | .buffer _ => False

/-- What a handler replies where its calls do not fail. -/
def Request.Writes (box : Box Database Tuple) (memory : ℕ → Uint8List) (database : Database)
    (request : Request) (reply : Reply Tuple) : Prop :=
  (request.WritesNothing box memory database ∧ reply = .unchanged) ∨
    ¬request.WritesNothing box memory database ∧
      (request.isLua = true ∧ (∃ bytes, reply = .buffer bytes) ∨ request.isLua = false ∧
        reply.IsOutput)

/-- A handler fails, or writes what it does. -/
def Request.Replies (box : Box Database Tuple) (memory : ℕ → Uint8List)
    (native : Native Database Tuple) (request : Request) : Prop :=
  request.Fails box memory native.database ∧
      (∀ reply after, request.handler box memory native = some (reply, after) → reply = .error) ∨
    ¬request.Fails box memory native.database ∧
      ∃ reply after, request.handler box memory native = some (reply, after) ∧
        request.Writes box memory native.database reply

section Handlers

variable {box : Box Database Tuple} {memory : ℕ → Uint8List} {native : Native Database Tuple}

variable {request : Request} {entries : List Tuple} {database : Database}

/-- A handler with one call for a tuple. -/
theorem replies_single (call : Option BoxCall)
    (hhandler : request.handler box memory = single box call)
    (hfirst : request.firstCall memory = .single call) (hlua : request.isLua = false)
    (hfails : request.Fails box memory native.database ↔
      (request.firstCall memory).Fails box native.database)
    (hwrites : request.WritesNothing box memory native.database ↔
      request.FindsNothing box memory native.database) : request.Replies box memory native := by
  unfold Request.Replies Request.Writes
  rw [hfails, hwrites, hhandler, hfirst]
  unfold Request.FindsNothing FirstCall.Fails
  rw [hfirst]
  cases call with
  | none =>
    apply Or.inl
    exact ⟨fun _ h => absurd h.symm (Option.some_ne_none _), nofun⟩
  | some boxCall =>
    rcases hres : box.call boxCall native.database with ⟨result, database⟩
    have hfirst' (h : ∃ other, FirstCall.single (some boxCall) = .single (some other) ∧
        (box.call other native.database).1 = .null) : result = .null := by
      obtain ⟨other, hother, hnull⟩ := h
      cases hother
      rwa [hres] at hnull
    cases result with
    | error =>
      apply Or.inl
      constructor
      · intro other hother
        cases hother
        rw [hres]
      · intro reply after h
        unfold single at h
        rw [Option.bind_eq_bind, Option.bind_some, hres] at h
        exact (Prod.mk.inj (Option.some.inj h)).1.symm
    | null =>
      apply Or.inr
      refine ⟨fun h => ?_, .unchanged, { native with database := database }, ?_, .inl ⟨?_, rfl⟩⟩
      · have herror := h boxCall rfl
        rw [hres] at herror
        cases herror
      · unfold single
        rw [Option.bind_eq_bind, Option.bind_some, hres]
      · exact ⟨boxCall, rfl, by rw [hres]⟩
    | tuple tuple =>
      apply Or.inr
      refine ⟨fun h => ?_, .tuple tuple, { native with database := database }.ref [tuple], ?_,
        .inr ⟨fun h => ?_, .inr ⟨hlua, trivial⟩⟩⟩
      · have herror := h boxCall rfl
        rw [hres] at herror
        cases herror
      · unfold single
        rw [Option.bind_eq_bind, Option.bind_some, hres]
      · cases hfirst' h

/-- The calls of a batch succeed, by induction on the elements. -/
theorem batchLoop_of_succeeds {Cursor : Type} {before : Database} {call : Cursor → Option BoxCall}
    {next : Cursor → Option Cursor} {count : ℕ} {cursor : Cursor}
    (h : Pooled.BatchSucceeds box call next count cursor entries native.database) :
    ∃ result, batchLoop box before call next count cursor entries native = some result := by
  induction count generalizing cursor entries native with
  | zero =>
    unfold batchLoop
    rw [if_neg (show ¬box.commitFails native.database = true from Bool.eq_false_iff.mp h)]
    exact ⟨_, rfl⟩
  | succ count ih =>
    obtain ⟨boxCall, tuple, after, rest, hcall, hres, hfits, hnext, hrest⟩ := h
    unfold batchLoop
    rw [hcall, Option.bind_eq_bind, Option.bind_some, hres]
    dsimp only
    rw [if_neg (Bool.eq_false_iff.mp hfits), hnext]
    exact ih hrest

theorem nextLoop_of_succeeds {iterator found : ℕ}
    (h : Pooled.NextSucceeds box iterator found entries native.database) :
    ∃ result, nextLoop box iterator found entries native = some result := by
  induction found generalizing entries native with
  | zero => exact ⟨_, rfl⟩
  | succ found ih =>
    obtain ⟨tuple, after, hres, hfits, hrest⟩ := h
    unfold nextLoop
    rw [hres]
    dsimp only
    rw [if_neg (Bool.eq_false_iff.mp hfits)]
    exact ih hrest

/-- The handlers with a port are over where their calls succeed. -/
theorem handler_of_succeeds (htakes : request.takesPort = true)
    (h : Pooled.Succeeds box memory native.database request) :
    ∃ result, request.handler box memory native = some result := by
  have hstart {Cursor : Type} {call : Cursor → Option BoxCall} {next : Cursor → Option Cursor}
      {start : Option (ℕ × Cursor)} (h : Pooled.StartSucceeds box call next start native.database) :
      ∃ result, (start.bind fun first =>
        batchLoop box native.database call next first.1 first.2 [] native) = some result := by
    obtain ⟨count, cursor, rfl, hsucc⟩ := h
    exact batchLoop_of_succeeds hsucc
  have hselect {selection : Uint8List → Selection} {key keySize : ℕ}
      (h : Pooled.SelectSucceeds box memory selection key keySize native.database) :
      ∃ result, selectPort box memory selection key keySize native = some result := by
    obtain ⟨read, tuples, hread, htuples⟩ := h
    unfold selectPort
    rw [hread, Option.bind_eq_bind, Option.bind_some, htuples]
    exact ⟨_, rfl⟩
  cases request with
  | spacePutMany request | spaceDeleteMany request | spaceInsertMany request => exact hstart h
  | spaceUpdateMany request | indexUpdateMany request => exact hstart h
  | spaceSelect request | indexSelect request => exact hselect h
  | iteratorNextMany iterator inputSize => exact nextLoop_of_succeeds h
  | _ => cases htakes

/-- A handler that answers with a port. -/
theorem replies_port (htakes : request.takesPort = true)
    (hfails : request.Fails box memory native.database ↔
      ¬Pooled.Succeeds box memory native.database request)
    (hwrites : ¬request.WritesNothing box memory native.database) (hlua : request.isLua = false) :
    request.Replies box memory native := by
  unfold Request.Replies
  rw [hfails]
  by_cases hsucc : Pooled.Succeeds box memory native.database request
  · apply Or.inr
    obtain ⟨⟨reply, after⟩, hhandler⟩ := handler_of_succeeds htakes hsucc
    refine ⟨fun h => h hsucc, reply, after, hhandler, .inr ⟨hwrites, .inr ⟨hlua, ?_⟩⟩⟩
    rcases Pooled.answers_handler htakes hhandler with ⟨-, entries, rfl⟩ | ⟨hnot, -⟩
    · trivial
    · exact absurd hsucc hnot
  · apply Or.inl
    refine ⟨hsucc, fun reply after hhandler => ?_⟩
    rcases Pooled.answers_handler htakes hhandler with ⟨h, -⟩ | ⟨-, hreply⟩
    · exact absurd h hsucc
    · exact hreply

theorem replies_lua {evaluates : Bool} {lua : LuaRequest}
    (hhandler : request.handler box memory = storageLua box memory evaluates lua)
    (hfails : request.Fails box memory native.database ↔
    LuaFails box memory native.database evaluates lua)
    (hwrites : ¬request.WritesNothing box memory native.database) (hlua : request.isLua = true) :
    request.Replies box memory native := by
  unfold Request.Replies
  rw [hfails, hhandler]
  unfold LuaFails storageLua
  cases htext : range memory lua.text lua.textLength with
  | none =>
    apply Or.inl
    refine ⟨?_, ?_⟩
    · intro _ _ h
      cases h
    · intro _ _ h
      cases h
  | some text =>
    cases hinput : range memory lua.input lua.inputSize with
    | none =>
      apply Or.inl
      refine ⟨?_, ?_⟩
      · intro _ _ _ h
        cases h
      · intro _ _ h
        cases h
    | some input =>
      rcases hres : box.lua ⟨evaluates, text, input⟩ native.database with ⟨result, database⟩
      cases result with
      | none =>
        apply Or.inl
        constructor
        · intro _ _ htext hinput
          cases htext
          cases hinput
          rw [hres]
        · intro reply after h
          rw [Option.bind_eq_bind, Option.bind_some, Option.bind_some, hres] at h
          exact (Prod.mk.inj (Option.some.inj h)).1.symm
      | some bytes =>
        apply Or.inr
        refine ⟨fun h => ?_, .buffer bytes, { native with database := database }, ?_, ?_⟩
        · have hnone := h text input rfl rfl
          rw [hres] at hnone
          cases hnone
        · rw [Option.bind_eq_bind, Option.bind_some, Option.bind_some, hres]
        · exact .inr ⟨hwrites, .inl ⟨hlua, bytes, rfl⟩⟩

/-- A handler that answers with a number, if it can read its request. -/
theorem replies_number (query : Option BoxQuery)
    (hhandler : request.handler box memory = answerNumber box query)
    (hfails : request.Fails box memory native.database ↔ query = none)
    (hwrites : ¬request.WritesNothing box memory native.database) (hlua : request.isLua = false) :
    request.Replies box memory native := by
  unfold Request.Replies
  rw [hfails, hhandler]
  cases query with
  | none =>
    apply Or.inl
    refine ⟨rfl, ?_⟩
    intro _ _ h
    cases h
  | some query =>
    apply Or.inr
    refine ⟨Option.some_ne_none query, _, _, rfl, .inr ⟨hwrites, .inr ⟨hlua, trivial⟩⟩⟩

theorem replies_nextSingle (iterator : ℕ) :
    (Request.iteratorNextSingle iterator).Replies box memory native := by
  have hwrites :
      ¬(Request.iteratorNextSingle iterator).WritesNothing box memory native.database := by
    rintro ⟨_, hfirst, -⟩
    cases hfirst
  unfold Request.Replies
  show (∀ tuple, (box.call (.iteratorNext iterator) native.database).1 ≠ .tuple tuple) ∧ _ ∨
    ¬(∀ tuple, (box.call (.iteratorNext iterator) native.database).1 ≠ .tuple tuple) ∧ _
  show _ ∧ (∀ _ _, storageIteratorNextSingle box iterator native = _ → _) ∨
    _ ∧ ∃ _ _, storageIteratorNextSingle box iterator native = _ ∧ _
  unfold storageIteratorNextSingle
  rcases hres : box.call (.iteratorNext iterator) native.database with ⟨result, database⟩
  cases result with
  | error | null =>
    apply Or.inl
    constructor
    · intro _ h
      cases h
    · intro _ _ h
      exact (Prod.mk.inj (Option.some.inj h)).1.symm
  | tuple tuple =>
    apply Or.inr
    exact ⟨fun h => h tuple rfl, _, _, rfl, .inr ⟨hwrites, .inr ⟨rfl, trivial⟩⟩⟩

/-- What every handler replies. -/
theorem Request.replies (box : Box Database Tuple) (memory : ℕ → Uint8List)
    (native : Native Database Tuple) (request : Request) : request.Replies box memory native := by
  have hnone (h : ∀ boxCall, request.firstCall memory ≠ .single (some boxCall)) :
      ¬request.FindsNothing box memory native.database := fun ⟨boxCall, hfirst, _⟩ =>
        h boxCall hfirst
  have hreadable {query : Uint8List → BoxQuery} {address size : ℕ} :
      readable memory address size = false ↔ (range memory address size).map query = none := by
    unfold readable
    cases range memory address size <;> simp
  cases request with
  | evaluate lua | call lua => exact replies_lua rfl Iff.rfl (hnone nofun) rfl
  | iteratorNextSingle iterator => exact replies_nextSingle iterator
  | iteratorDestroy iterator | spaceTruncate input =>
    apply Or.inr
    refine ⟨?_, _, _, rfl, .inl ⟨trivial, rfl⟩⟩
    intro h
    cases h
  | spaceLength input | indexLength request =>
    refine replies_number (some _) rfl ?_ (hnone nofun) rfl
    exact iff_of_false nofun (Option.some_ne_none _)
  | spaceIdByName input inputSize | spaceCount request | spaceIterator request | indexCount request
  | indexIterator request | indexIdByName request =>
    exact replies_number _ rfl hreadable (hnone nofun) rfl
  | spaceInsertMany request | spacePutMany request | spaceDeleteMany request
  | spaceUpdateMany request
  | spaceSelect request | indexUpdateMany request | indexSelect request
  | iteratorNextMany iterator inputSize => exact replies_port rfl Iff.rfl (hnone nofun) rfl
  | spaceInsertSingle request | spacePutSingle request | spaceDeleteSingle request
  | spaceUpdateSingle request | spaceGet request | spaceMin request | spaceMax request
  | spaceUpsert request | indexGet request | indexMin request | indexMax request
  | indexUpdateSingle request => exact replies_single _ rfl rfl rfl Iff.rfl Iff.rfl

/-! ## Replies are a matter of the database -/

/-- The reply of a handler does not depend on the references. -/
def OfDatabase (handler : Handler Database Tuple) : Prop :=
  ∀ native other : Native Database Tuple, native.database = other.database →
    (handler native).map Prod.fst = (handler other).map Prod.fst

theorem ofDatabase_single (call : Option BoxCall) : OfDatabase (single box call) := by
  rintro ⟨database, references⟩ ⟨_, others⟩ rfl
  cases call with
  | none => rfl
  | some boxCall =>
    unfold single
    simp only [Option.bind_eq_bind, Option.bind_some]
    rcases box.call boxCall database with ⟨result, after⟩
    cases result <;> rfl

/-- The loop of a batch, by induction on the elements. -/
theorem ofDatabase_batchLoop {Cursor : Type} {before : Database} {call : Cursor → Option BoxCall}
    {next : Cursor → Option Cursor} {count : ℕ} {cursor : Cursor} :
    OfDatabase (batchLoop box before call next count cursor entries) := by
  induction count generalizing cursor entries with
  | zero =>
    rintro ⟨database, references⟩ ⟨_, others⟩ rfl
    unfold batchLoop
    dsimp only
    split <;> rfl
  | succ count ih =>
    rintro ⟨database, references⟩ ⟨_, others⟩ rfl
    unfold batchLoop
    cases call cursor with
    | none => rfl
    | some boxCall =>
      simp only [Option.bind_eq_bind, Option.bind_some]
      rcases box.call boxCall database with ⟨result, after⟩
      cases result with
      | error | null => rfl
      | tuple tuple =>
        dsimp only
        split
        · rfl
        · cases next cursor with
          | none => rfl
          | some rest => exact ih _ _ rfl

theorem ofDatabase_nextLoop {iterator found : ℕ} :
    OfDatabase (nextLoop box iterator found entries) := by
  induction found generalizing entries with
  | zero => exact fun _ _ _ => rfl
  | succ found ih =>
    rintro ⟨database, references⟩ ⟨_, others⟩ rfl
    unfold nextLoop
    dsimp only
    rcases box.call (.iteratorNext iterator) database with ⟨result, after⟩
    cases result with
    | error | null => rfl
    | tuple tuple =>
      dsimp only
      split
      · rfl
      · exact ih _ _ rfl

omit [DecidableEq Tuple] in
theorem ofDatabase_lua (evaluates : Bool) (lua : LuaRequest) :
    OfDatabase (storageLua box memory evaluates lua) := by
  rintro ⟨database, references⟩ ⟨_, others⟩ rfl
  unfold storageLua
  cases range memory lua.text lua.textLength with
  | none => rfl
  | some text =>
    cases range memory lua.input lua.inputSize with
    | none => rfl
    | some input =>
      simp only [Option.bind_eq_bind, Option.bind_some]
      rcases box.lua ⟨evaluates, text, input⟩ database with ⟨result, after⟩
      cases result <;> rfl

theorem ofDatabase_selectPort (selection : Uint8List → Selection) (key keySize : ℕ) :
    OfDatabase (selectPort box memory selection key keySize) := by
  rintro ⟨database, references⟩ ⟨_, others⟩ rfl
  unfold selectPort
  cases range memory key keySize with
  | none => rfl
  | some read =>
    simp only [Option.bind_eq_bind, Option.bind_some]
    cases box.select (selection read) database <;> rfl

omit [DecidableEq Tuple] in
theorem ofDatabase_answerNumber (query : Option BoxQuery) :
    OfDatabase (answerNumber box query) := by
  rintro ⟨database, references⟩ ⟨_, others⟩ rfl
  cases query <;> rfl

/-- The reply of every handler. -/
theorem Request.ofDatabase (box : Box Database Tuple) (memory : ℕ → Uint8List) (request : Request) :
    OfDatabase (request.handler box memory) := by
  have hstart {Cursor : Type} {call : Cursor → Option BoxCall} {next : Cursor → Option Cursor}
      (start : Option (ℕ × Cursor)) : OfDatabase fun native : Native Database Tuple =>
        start.bind fun first =>
        batchLoop box native.database call next first.1 first.2 [] native := by
    rintro ⟨database, references⟩ ⟨_, others⟩ rfl
    cases start with
    | none => rfl
    | some first => exact ofDatabase_batchLoop _ _ rfl
  cases request with
  | evaluate lua => exact ofDatabase_lua true lua
  | call lua => exact ofDatabase_lua false lua
  | iteratorNextSingle iterator =>
    rintro ⟨database, references⟩ ⟨_, others⟩ rfl
    unfold Request.handler storageIteratorNextSingle
    dsimp only
    rcases box.call (.iteratorNext iterator) database with ⟨result, after⟩
    cases result <;> rfl
  | iteratorNextMany iterator inputSize => exact ofDatabase_nextLoop
  | iteratorDestroy iterator | spaceTruncate input => exact fun _ _ _ => rfl
  | spaceLength input | indexLength request => exact ofDatabase_answerNumber _
  | spaceIdByName input inputSize | spaceCount request | spaceIterator request | indexCount request
  | indexIterator request | indexIdByName request => exact ofDatabase_answerNumber _
  | spaceInsertMany request | spacePutMany request | spaceDeleteMany request =>
    exact hstart (mpDecodeArray (memory request.tuple))
  | spaceUpdateMany request | indexUpdateMany request =>
    exact hstart (pairCursors memory request.key request.operations)
  | spaceSelect request | indexSelect request => exact ofDatabase_selectPort _ _ _
  | spaceInsertSingle request | spacePutSingle request | spaceDeleteSingle request
  | spaceUpdateSingle request | spaceGet request | spaceMin request | spaceMax request
  | spaceUpsert request | indexGet request | indexMin request | indexMax request
  | indexUpdateSingle request => exact ofDatabase_single _

omit [DecidableEq Tuple] in
/-- A request that finds nothing does not fail, and writes nothing. -/
theorem Request.FindsNothing.writesNothing (h : request.FindsNothing box memory database) :
    request.WritesNothing box memory database ∧ ¬request.Fails box memory database := by
  obtain ⟨boxCall, hfirst, hnull⟩ := h
  have hcall : ¬(request.firstCall memory).Fails box database := by
    rw [hfirst]
    intro hfails
    rw [hfails boxCall rfl] at hnull
    cases hnull
  cases request with
  | spaceInsertSingle | spacePutSingle | spaceDeleteSingle | spaceUpdateSingle | spaceGet | spaceMin
  | spaceMax | spaceUpsert | indexGet | indexMin | indexMax | indexUpdateSingle =>
    exact ⟨⟨boxCall, hfirst, hnull⟩, hcall⟩
  | _ => cases hfirst

omit [DecidableEq Tuple] in
theorem Request.WritesNothing.isLua (h : request.WritesNothing box memory database) :
    request.isLua = false := by
  cases request with
  | evaluate lua | call lua =>
    obtain ⟨_, hfirst, -⟩ := h
    cases hfirst
  | _ => rfl

omit [DecidableEq Tuple] in
theorem Request.Writes.unchanged {reply : Reply Tuple}
    (h : request.Writes box memory database reply)
    (hnothing : request.WritesNothing box memory database) : reply = .unchanged := by
  rcases h with ⟨-, hreply⟩ | ⟨hnot, -⟩
  · exact hreply
  · exact absurd hnothing hnot

end Handlers

/-! ## Two histories -/

namespace PooledTask

variable (box : Box Database Tuple)

/-- A request that finds nothing behind a history leaves a null pointer. -/
def NullBehind (start : PooledTask Database Tuple)
    (uses : List (Use Tuple)) (request : FactoryRequest) (memory : ℕ → Uint8List) : Prop :=
  ∀ pooled, run (step box) start uses = some pooled →
    (request.read pooled.unwritten).FindsNothing box memory pooled.native.database →
      ∀ answer, answerBehind box start uses request memory = some answer → answer.output = .null

/-- What the client reads behind the one history is what it reads behind the other, and a null
pointer where nothing is found. -/
def Independent (start start' : PooledTask Database Tuple) (uses uses' : List (Use Tuple))
    (request : FactoryRequest) (memory : ℕ → Uint8List) : Prop :=
  answerBehind box start uses request memory = answerBehind box start' uses' request memory ∧
    NullBehind box start uses request memory ∧ NullBehind box start' uses' request memory

/-- What the database gives to the calls of a batch: the tuples, or none where it fails. -/
def batchGiven {Cursor : Type} (call : Cursor → Option BoxCall) (next : Cursor → Option Cursor) :
    ℕ → Cursor → List Tuple → Database → Option (Option (List Tuple))
  | 0, _, entries, database => some (if box.commitFails database then none else some entries)
  | count + 1, cursor, entries, database => do
    let boxCall ← call cursor
    match box.call boxCall database with
    | (.error, _) => some none
    | (.null, _) => none
    | (.tuple tuple, after) =>
      if box.portAddFails entries then some none
      else do
        let cursor ← next cursor
        batchGiven call next count cursor (entries ++ [tuple]) after

/-- What the factory has not written makes no difference to the database: it has the same length,
the same result of an update, or the same tuples of a batch of updates. -/
def Alike (memory : ℕ → Uint8List) (database : Database) (unwritten unwritten' : Unwritten) :
    FactoryRequest → Prop
  | .whole _ => True
  | .indexLength _ _ =>
    box.query (.length unwritten.ids.spaceId unwritten.ids.indexId) database =
      box.query (.length unwritten'.ids.spaceId unwritten'.ids.indexId) database
  | .indexUpdateSingle spaceId indexId key keySize _ _ =>
    let given (unwritten : Unwritten) := (callOnPair memory (.update spaceId indexId) key keySize
      unwritten.operations unwritten.operationsSize).map fun call => (box.call call database).1
    given unwritten = given unwritten'
  | .indexUpdateMany spaceId indexId key _ _ _ =>
    let given (unwritten : Unwritten) :=
      (pairCursors memory key unwritten.operations).bind fun start =>
      batchGiven box (countedPair (.update spaceId indexId)) nextPair start.1 start.2 [] database
    given unwritten = given unwritten'

/-- What the handler leaves is the same in both structures, and null where nothing is found. -/
def SameLeft (request : FactoryRequest) (memory : ℕ → Uint8List) (database : Database)
    (unwritten unwritten' : Unwritten) (task task' : TaskAnswer Tuple) : Prop :=
  Alike box memory database unwritten unwritten' request ∧
  (¬(request.read unwritten).Fails box memory database →
    task.outputEvent = task'.outputEvent ∧
    ((request.read unwritten).isLua = false → task.outputSize = task'.outputSize) ∧
    ((request.read unwritten).WritesNothing box memory database → task.output = task'.output)) ∧
  ((request.read unwritten).FindsNothing box memory database → task.output = .null)

variable {box} {start start' pooled pooled' : PooledTask Database Tuple}
  {uses uses' : List (Use Tuple)} {request : Request} {memory : ℕ → Uint8List}

/-- The answer behind a history is what the handler writes into what the history leaves. -/
theorem answerBehind_eq (request : FactoryRequest) (hrun : run (step box) start uses = some pooled)
    (hrel : pooled.released = true) :
    answerBehind box start uses request memory =
      (((request.read pooled.unwritten).handler box memory pooled.native).map Prod.fst).map
        fun reply => reply.write pooled.task := by
  unfold answerBehind
  rw [run_append_of_run hrun, run_cons]
  unfold step
  dsimp only
  rw [if_pos hrel]
  rcases (request.read pooled.unwritten).handler box memory pooled.native with - | ⟨reply, native⟩
  · rfl
  · rfl

/-- The loop of a batch replies what the database gives. -/
theorem batchLoop_reply {Cursor : Type} {before : Database} {call : Cursor → Option BoxCall}
    {next : Cursor → Option Cursor} {count : ℕ} {cursor : Cursor} {entries : List Tuple}
    {native : Native Database Tuple} :
    (batchLoop box before call next count cursor entries native).map Prod.fst =
      (batchGiven box call next count cursor entries native.database).map
        fun given => given.elim .error .port := by
  induction count generalizing cursor entries native with
  | zero =>
    unfold batchLoop batchGiven
    split <;> rfl
  | succ count ih =>
    unfold batchLoop batchGiven
    cases call cursor with
    | none => rfl
    | some boxCall =>
      simp only [Option.bind_eq_bind, Option.bind_some]
      rcases box.call boxCall native.database with ⟨result, after⟩
      cases result with
      | error | null => rfl
      | tuple tuple =>
        dsimp only
        split
        · rfl
        · cases next cursor with
          | none => rfl
          | some rest => exact ih

theorem single_reply (call : Option BoxCall) (native : Native Database Tuple) :
    (single box call native).map Prod.fst =
      (call.map fun call => (box.call call native.database).1).map fun
        | .error => .error
        | .null => .unchanged
        | .tuple tuple => .tuple tuple := by
  cases call with
  | none => rfl
  | some boxCall =>
    unfold single
    simp only [Option.bind_eq_bind, Option.bind_some, Option.map_some]
    rcases box.call boxCall native.database with ⟨result, after⟩
    cases result <;> rfl

/-- The handler replies the same to both requests just when they are alike to the database. -/
theorem reply_eq_iff (request : FactoryRequest) (unwritten unwritten' : Unwritten)
    (native : Native Database Tuple) :
    ((request.read unwritten).handler box memory native).map Prod.fst =
        ((request.read unwritten').handler box memory native).map Prod.fst ↔
      Alike box memory native.database unwritten unwritten' request := by
  have hres : Function.Injective fun result : BoxResult Tuple => match result with
      | .error => Reply.error
      | .null => .unchanged
      | .tuple tuple => .tuple tuple := by
    rintro (_ | _ | _) (_ | _ | _) h <;> cases h <;> rfl
  have hgiven : Function.Injective fun given : Option (List Tuple) =>
      given.elim Reply.error .port := by
    rintro (_ | _) (_ | _) h <;> cases h <;> rfl
  cases request with
  | whole request => exact iff_of_true rfl trivial
  | indexLength spaceId indexId =>
    exact ⟨fun h => Reply.number.inj (Option.some.inj h),
      fun h => congrArg (fun number => some (Reply.number number)) h⟩
  | indexUpdateSingle spaceId indexId key keySize operations operationsSize =>
    have hreply (unwritten : Unwritten) := @single_reply _ _ _ box (callOnPair memory
      (.update spaceId indexId) key keySize unwritten.operations unwritten.operationsSize) native
    exact (Eq.congr (hreply unwritten) (hreply unwritten')).trans (Option.map_injective hres).eq_iff
  | indexUpdateMany spaceId indexId key keySize operations operationsSize =>
    have hreply (unwritten : Unwritten) : (storageIndexUpdateMany box memory ⟨key, keySize,
        unwritten.operations, unwritten.operationsSize, spaceId, indexId⟩ native).map Prod.fst =
          ((pairCursors memory key unwritten.operations).bind fun start => batchGiven box
            (countedPair (.update spaceId indexId)) nextPair start.1 start.2 [] native.database).map
              fun given => given.elim .error .port := by
      unfold storageIndexUpdateMany manyPairs
      cases pairCursors memory key unwritten.operations with
      | none => rfl
      | some start => exact batchLoop_reply
    exact (Eq.congr (hreply unwritten) (hreply unwritten')).trans
      (Option.map_injective hgiven).eq_iff

omit [DecidableEq Tuple] in
/-- Answers agree where what the handler leaves does. -/
theorem write_eq_iff {database : Database} {reply : Reply Tuple} {task task' : TaskAnswer Tuple}
    (hwrites : request.Writes box memory database reply) :
    reply.write task = reply.write task' ↔
      task.outputEvent = task'.outputEvent ∧
        (request.isLua = false → task.outputSize = task'.outputSize) ∧
        (request.WritesNothing box memory database → task.output = task'.output) := by
  obtain ⟨output, outputSize, outputEvent⟩ := task
  obtain ⟨output', outputSize', outputEvent'⟩ := task'
  dsimp only
  rcases hwrites with ⟨hnothing, rfl⟩ | ⟨hwrites, ⟨hlua, bytes, rfl⟩ | ⟨hlua, hreply⟩⟩
  · have hlua := hnothing.isLua
    unfold Reply.write
    rw [TaskAnswer.mk.injEq]
    constructor
    · rintro ⟨rfl, rfl, rfl⟩
      exact ⟨rfl, fun _ => rfl, fun _ => rfl⟩
    · rintro ⟨rfl, hsize, houtput⟩
      exact ⟨houtput hnothing, hsize hlua, rfl⟩
  · unfold Reply.write
    dsimp only
    rw [TaskAnswer.mk.injEq]
    constructor
    · rintro ⟨-, -, rfl⟩
      exact ⟨rfl, fun h => absurd (h.symm.trans hlua) Bool.false_ne_true,
        fun hnothing => absurd hnothing hwrites⟩
    · rintro ⟨rfl, -⟩
      exact ⟨rfl, rfl, rfl⟩
  · have hiff : reply.write ⟨output, outputSize, outputEvent⟩ =
        reply.write ⟨output', outputSize', outputEvent'⟩ ↔
          outputSize = outputSize' ∧ outputEvent = outputEvent' := by
      cases reply with
      | error | unchanged | buffer => exact hreply.elim
      | tuple | port | number =>
        unfold Reply.write
        dsimp only
        rw [TaskAnswer.mk.injEq]
        exact and_iff_right rfl
    rw [hiff]
    constructor
    · rintro ⟨rfl, rfl⟩
      exact ⟨rfl, fun _ => rfl, fun hnothing => absurd hnothing hwrites⟩
    · rintro ⟨rfl, hsize, -⟩
      exact ⟨hsize hlua, rfl⟩

omit [DecidableEq Tuple] in
/-- Of replies to which a handler that leaves its task finds it empty, no two write the same. -/
theorem write_injective {reply reply' : Reply Tuple} {task task' : TaskAnswer Tuple}
    (h : reply.write task = reply'.write task') (hnull : reply = .unchanged → task.output = .null)
    (hnull' : reply' = .unchanged → task'.output = .null) : reply = reply' := by
  have houtput := congrArg TaskAnswer.output h
  cases reply with
  | unchanged =>
    have hempty : (Reply.unchanged.write task).output = .null := hnull rfl
    rw [hempty] at houtput
    cases reply' with
    | unchanged => rfl
    | _ => cases houtput
  | _ =>
    cases reply' with
    | unchanged =>
      have hempty : (Reply.unchanged.write task').output = .null := hnull' rfl
      rw [hempty] at houtput
      cases houtput
    | _ =>
      cases houtput <;> rfl

/-- A request that finds nothing leaves its task. -/
theorem reply_of_findsNothing {native : Native Database Tuple}
    (h : request.FindsNothing box memory native.database) :
    (request.handler box memory native).map Prod.fst = some .unchanged := by
  rcases request.replies box memory native with ⟨hfails, -⟩ | ⟨-, reply, after, hhandler, hwrites⟩
  · exact absurd hfails h.writesNothing.2
  · rw [hhandler, hwrites.unchanged h.writesNothing.1]
    rfl

/-- Of the requests with fields that are not written, no other does. -/
theorem findsNothing_of_reply (request : FactoryRequest) (unwritten : Unwritten)
    {native : Native Database Tuple}
    (h : ((request.read unwritten).handler box memory native).map Prod.fst = some .unchanged) :
    (∃ whole, request = .whole whole) ∨
      (request.read unwritten).FindsNothing box memory native.database := by
  rcases (request.read unwritten).replies box memory native with
    ⟨-, herror⟩ | ⟨-, reply, after, hhandler, hwrites⟩
  · obtain ⟨⟨reply, after⟩, hhandler, rfl⟩ := Option.map_eq_some_iff.mp h
    cases herror _ after hhandler
  · rw [hhandler] at h
    cases h
    rcases hwrites with ⟨hnothing, -⟩ | ⟨-, ⟨-, _, hbuf⟩ | ⟨-, houtput⟩⟩
    · cases request with
      | whole whole => exact .inl ⟨whole, rfl⟩
      | _ => exact .inr hnothing
    · cases hbuf
    · exact houtput.elim

/-- What a request that finds nothing leaves is what the history has left. -/
theorem nullBehind_iff (request : FactoryRequest) (hrun : run (step box) start uses = some pooled)
    (hrel : pooled.released = true) :
    NullBehind box start uses request memory ↔
      ((request.read pooled.unwritten).FindsNothing box memory pooled.native.database →
        pooled.task.output = .null) := by
  unfold NullBehind
  rw [answerBehind_eq request hrun hrel]
  constructor
  · intro h hnothing
    exact h pooled hrun hnothing _ (by rw [reply_of_findsNothing hnothing]; rfl)
  · intro h other hother hnothing answer hans
    obtain rfl := Option.some.inj (hrun.symm.trans hother)
    rw [reply_of_findsNothing hnothing] at hans
    cases hans
    exact h hnothing

/-- Behind two histories that leave the same database a request has the same answer, and a null
pointer where it finds nothing, if and only if what its factory has not written makes no difference
to the database and the histories left the same of what its handler does not write. -/
theorem independent_iff (box : Box Database Tuple) (start start' : PooledTask Database Tuple)
    (uses uses' : List (Use Tuple)) (hrun : run (step box) start uses = some pooled)
    (hrun' : run (step box) start' uses' = some pooled') (hreleased : pooled.released = true)
    (hreleased' : pooled'.released = true)
    (hdatabase : pooled.native.database = pooled'.native.database)
    (request : FactoryRequest) (memory : ℕ → Uint8List) :
    Independent box start start' uses uses' request memory ↔
      SameLeft box request memory pooled.native.database pooled.unwritten pooled'.unwritten
        pooled.task pooled'.task := by
  unfold Independent SameLeft
  rw [nullBehind_iff request hrun hreleased, nullBehind_iff request hrun' hreleased',
    answerBehind_eq request hrun hreleased, answerBehind_eq request hrun' hreleased', ← hdatabase,
    ← (request.read pooled'.unwritten).ofDatabase box memory pooled.native pooled'.native hdatabase,
    ← reply_eq_iff]
  have hunchanged (unwritten : Unwritten) :=
    @findsNothing_of_reply _ _ _ box memory request unwritten pooled.native
  have hnothing' :=
    @reply_of_findsNothing _ _ _ box (request.read pooled'.unwritten) memory pooled.native
  generalize hreply' :
    ((request.read pooled'.unwritten).handler box memory pooled.native).map Prod.fst =
    reply' at hnothing'
  constructor
  · rintro ⟨hanswer, hnull, hnull'⟩
    have hsame : ((request.read pooled.unwritten).handler box memory pooled.native).map Prod.fst =
        reply' := by
      generalize hreply : ((request.read pooled.unwritten).handler box memory pooled.native).map
        Prod.fst = reply at hanswer
      by_cases hwhole : ∃ whole, request = .whole whole
      · obtain ⟨whole, rfl⟩ := hwhole
        exact hreply.symm.trans hreply'
      · cases reply with
        | none => exact (Option.map_eq_none_iff.mp hanswer.symm).symm
        | some reply =>
          obtain ⟨other, rfl, hwrite⟩ := Option.map_eq_some_iff.mp hanswer.symm
          refine congrArg some (write_injective hwrite.symm ?_ ?_)
          · rintro rfl
            exact hnull ((hunchanged _ hreply).resolve_left hwhole)
          · rintro rfl
            exact hnull' ((hunchanged _ hreply').resolve_left hwhole)
    refine ⟨hsame, fun hfine => ?_, hnull⟩
    rcases (request.read pooled.unwritten).replies box memory pooled.native with
      ⟨hfails, -⟩ | ⟨-, reply, after, hhandler, hwrites⟩
    · exact absurd hfails hfine
    · rw [← hsame, hhandler] at hanswer
      exact (write_eq_iff hwrites).mp (Option.some.inj hanswer)
  · rintro ⟨hsame, hleft, hnull⟩
    rcases (request.read pooled.unwritten).replies box memory pooled.native with
      ⟨hfails, herror⟩ | ⟨hfine, reply, after, hhandler, hwrites⟩
    · rw [← hsame]
      refine ⟨?_, hnull, fun hnothing => ?_⟩
      · rcases hhandler : (request.read pooled.unwritten).handler box memory pooled.native with
          - | ⟨reply, after⟩
        · rfl
        · obtain rfl := herror reply after hhandler
          rfl
      · obtain ⟨⟨reply, after⟩, hhandler, rfl⟩ :=
          Option.map_eq_some_iff.mp (hsame.trans (hnothing' hnothing))
        cases herror _ after hhandler
    · rw [← hsame]
      have hwrite := (write_eq_iff hwrites).mpr (hleft hfine)
      rw [hhandler] at hsame ⊢
      refine ⟨congrArg some hwrite, hnull, fun hnothing => ?_⟩
      obtain rfl := Option.some.inj (hsame.trans (hnothing' hnothing))
      have htask : pooled.task = pooled'.task := hwrite
      rw [← htask]
      rcases hunchanged pooled.unwritten (by rw [hhandler]; rfl) with ⟨whole, rfl⟩ | hfinds
      · exact hnull hnothing
      · exact hnull hfinds

/-- A database that has a tuple for the key 1 only. -/
def keyed : Box Unit ℕ where
  call call _ :=
    match call with
    | .indexGet _ _ [1] => (.tuple 7, ())
    | _ => (.null, ())
  query _ _ := 0
  select _ _ := none
  lua _ _ := (none, ())
  truncate _ _ := ()
  iteratorFree _ _ := ()
  portAddFails _ := false
  commitFails _ := false

/-- `storage_space_get` of a key that is one byte. -/
def getRequest : FactoryRequest := .whole (.spaceGet ⟨1, 0, 512⟩)

/-- A structure without anything in its memory. -/
def empty : PooledTask Unit ℕ := fresh () ⟨0, 0, ⟨0, 0⟩⟩ ⟨.null, 0, false⟩ false

/-- A get that finds its tuple, with a structure that was used for another one before. -/
theorem independent_iff_get :
    Independent keyed empty empty [] [.own getRequest fun _ => [1]] getRequest (fun _ => [1]) ↔
      SameLeft keyed getRequest (fun _ => [1]) () empty.unwritten empty.unwritten ⟨.null, 0, false⟩
        ⟨.tuple 7, 0, false⟩ :=
  independent_iff keyed empty empty [] [.own getRequest fun _ => [1]] rfl rfl rfl rfl rfl getRequest
    fun _ => [1]

/-- A get that finds nothing gives the tuple of the get before it. -/
theorem not_independent : ∃ pooled pooled' : PooledTask Unit ℕ,
    run (step keyed) empty [] = some pooled ∧
    run (step keyed) empty [.own getRequest fun _ => [1]] = some pooled' ∧
    pooled.released = true ∧ pooled'.released = true ∧
    pooled.native.database = pooled'.native.database ∧
    ¬Independent keyed empty empty [] [.own getRequest fun _ => [1]] getRequest (fun _ => [2]) := by
  refine ⟨_, _, rfl, rfl, rfl, rfl, rfl, ?_⟩
  rintro ⟨hsame, -⟩
  cases hsame

end PooledTask

end FengShui.Storage
