import FengShui.Storage.Answers

/-!
# How the storage reports failures (`storage_send_error`, `ExecutorMethodImplementation.callback`)

A call of the database that fails says so by a negative number or by a null pointer. The handlers
that answer with a tuple, a port or a buffer look at it; those that answer with a number send it as
it is, and `storage_space_truncate` does not look at all. `failuresReported_iff` says when a failure
is what the caller gets, and a value otherwise.
-/

namespace FengShui.Storage

variable {Database Tuple : Type}

/-! ## The caller -/

/-- How the future of a caller completes. -/
inductive Completed (Tuple : Type) where
  | error (output : TaskOutput Tuple)
  | value (task : TaskAnswer Tuple)
  deriving DecidableEq

/-- `ExecutorMethodImplementation.callback`. -/
def callback (message : TaskAnswer Tuple) : Completed Tuple :=
  if message.outputEvent then .error message.output else .value message

/-! ## Failures -/

/-- `BOX_ID_NIL`. -/
def tarantoolIdNil : ℕ := 2147483647

/-- The failures that cannot be told from what a call gives: nobody reads the result of
`box_truncate`, and a lookup that fails gives what one without a find gives. -/
structure HiddenFailures (box : Box Database Tuple) where
  truncate : ℕ → Database → Bool
  lookup : BoxQuery → Database → Bool
  lookup_nil : ∀ query database, lookup query database = true →
    box.query query database = tarantoolIdNil

/-- The calls of the handlers that answer with a number. -/
def Request.query (memory : ℕ → Uint8List) : Request → Option BoxQuery
  | .spaceIterator request => (range memory request.key request.keySize).map
      (.iterator request.spaceId primaryIndexId request.type)
  | .spaceCount request => (range memory request.key request.keySize).map
      (.count request.spaceId primaryIndexId request.iteratorType)
  | .spaceLength input => some (.length (input % 2 ^ 32) primaryIndexId)
  | .spaceIdByName input inputSize => (range memory input inputSize).map .spaceIdByName
  | .indexIterator request => (range memory request.key request.keySize).map
      (.iterator request.spaceId request.indexId request.type)
  | .indexCount request => (range memory request.key request.keySize).map
      (.count request.spaceId request.indexId request.iteratorType)
  | .indexLength request => some (.length request.spaceId request.indexId)
  | .indexIdByName request => (range memory request.name request.nameLength).map
      (.indexIdByName request.spaceId)
  | _ => none

/-- The handlers that do not look at what their call gives. -/
def Request.isSilent : Request → Bool
  | .spaceIterator _ | .spaceCount _ | .spaceLength _ | .spaceIdByName _ _ | .indexIterator _
  | .indexCount _ | .indexLength _ | .indexIdByName _ | .spaceTruncate _ => true
  | _ => false

section Calls

variable (box : Box Database Tuple) (failures : HiddenFailures box) (memory : ℕ → Uint8List)
  (database : Database)

/-- A call fails with `NULL` for an iterator, and with a number below zero for a number of
tuples. -/
def BoxQuery.Fails (query : BoxQuery) : Prop :=
  match query with
  | .iterator .. => box.query query database = 0
  | .count .. | .length .. => 2 ^ 63 ≤ box.query query database
  | .spaceIdByName _ | .indexIdByName .. => failures.lookup query database = true

/-- A call of a batch fails, or the port has no memory for its tuple, or the commit fails. -/
def BatchFails {Cursor : Type} (call : Cursor → Option BoxCall) (next : Cursor → Option Cursor) :
    ℕ → Cursor → List Tuple → Database → Prop
  | 0, _, _, database => box.commitFails database = true
  | count + 1, cursor, entries, database => ∃ boxCall, call cursor = some boxCall ∧
    ((box.call boxCall database).1 = .error ∨
      ∃ tuple after, box.call boxCall database = (.tuple tuple, after) ∧
        (box.portAddFails entries = true ∨
          ∃ rest, next cursor = some rest ∧
            BatchFails call next count rest (entries ++ [tuple]) after))

/-- A call of `box_iterator_next` fails, or the port has no memory for its tuple. The end of the
iterator is no failure. -/
def NextFails (iterator : ℕ) : ℕ → List Tuple → Database → Prop
  | 0, _, _ => False
  | found + 1, entries, database =>
    (box.call (.iteratorNext iterator) database).1 = .error ∨
      ∃ tuple after, box.call (.iteratorNext iterator) database = (.tuple tuple, after) ∧
        (box.portAddFails entries = true ∨ NextFails iterator found (entries ++ [tuple]) after)

def StartFails {Cursor : Type} (call : Cursor → Option BoxCall) (next : Cursor → Option Cursor)
    (start : Option (ℕ × Cursor)) : Prop :=
  ∃ count cursor, start = some (count, cursor) ∧ BatchFails box call next count cursor [] database

def SelectFails (selection : Uint8List → Selection) (key keySize : ℕ) : Prop :=
  ∃ read, range memory key keySize = some read ∧ box.select (selection read) database = none

def LuaCallFails (evaluates : Bool) (request : LuaRequest) : Prop :=
  ∃ text input, range memory request.text request.textLength = some text ∧
    range memory request.input request.inputSize = some input ∧
      (box.lua ⟨evaluates, text, input⟩ database).1 = none

/-- A call of the database fails for this request. -/
def Request.CallFails (request : Request) : Prop :=
  match request with
  | .evaluate lua => LuaCallFails box memory database true lua
  | .call lua => LuaCallFails box memory database false lua
  | .iteratorNextSingle iterator => (box.call (.iteratorNext iterator) database).1 = .error
  | .iteratorNextMany iterator inputSize => NextFails box iterator inputSize [] database
  | .iteratorDestroy _ => False
  | .spaceTruncate input => failures.truncate (input % 2 ^ 32) database = true
  | .spacePutMany request =>
    StartFails box database (countedElement (.replace request.spaceId)) mpNext
      (mpDecodeArray (memory request.tuple))
  | .spaceDeleteMany request =>
    StartFails box database (countedElement (.delete request.spaceId primaryIndexId)) mpNext
      (mpDecodeArray (memory request.tuple))
  | .spaceInsertMany request =>
    StartFails box database (nextElement (.insert request.spaceId)) mpNext
      (mpDecodeArray (memory request.tuple))
  | .spaceUpdateMany request =>
    StartFails box database (countedPair (.update request.spaceId primaryIndexId)) nextPair
      (pairCursors memory request.key request.operations)
  | .indexUpdateMany request =>
    StartFails box database (countedPair (.update request.spaceId request.indexId)) nextPair
      (pairCursors memory request.key request.operations)
  | .spaceSelect request =>
    SelectFails box memory database (fun key =>
      ⟨request.spaceId, primaryIndexId, request.iteratorType,
      request.offset, request.limit, key⟩) request.key request.keySize
  | .indexSelect request =>
    SelectFails box memory database (fun key =>
      ⟨request.spaceId, request.indexId, request.iteratorType,
      request.offset, request.limit, key⟩) request.key request.keySize
  | .spaceIterator _ | .spaceCount _ | .spaceLength _ | .spaceIdByName _ _ | .indexIterator _
  | .indexCount _ | .indexLength _ | .indexIdByName _ =>
    ∃ query, request.query memory = some query ∧ query.Fails box failures database
  | _ => ∃ boxCall, request.firstCall memory = .single (some boxCall) ∧
      (box.call boxCall database).1 = .error

end Calls

variable [DecidableEq Tuple]

/-- A failure is sent, and the future completes with it; without one it completes with a value. -/
def FailuresReported (box : Box Database Tuple) (failures : HiddenFailures box)
    (memory : ℕ → Uint8List)
    (native : Native Database Tuple) (task : TaskAnswer Tuple) (request : Request) : Prop :=
  (request.CallFails box failures memory native.database → ∃ after,
    request.handler box memory native = some (.error, after) ∧
      callback (Reply.error.write task) = .error .event) ∧
  (¬request.CallFails box failures memory native.database → ∃ reply after,
    request.handler box memory native = some (reply, after) ∧
      callback (reply.write task) = .value (reply.write task))

/-! ## What the handlers do with a failure -/

section Handlers

variable {box : Box Database Tuple} {failures : HiddenFailures box} {memory : ℕ → Uint8List}
  {native : Native Database Tuple}

/-- The first failure of a batch is its reply, by induction on the elements. -/
theorem batchLoop_of_fails {Cursor : Type} {before : Database} {call : Cursor → Option BoxCall}
    {next : Cursor → Option Cursor} {count : ℕ} {cursor : Cursor} {entries : List Tuple}
    (h : BatchFails box call next count cursor entries native.database) :
    ∃ after, batchLoop box before call next count cursor entries native = some (.error, after) := by
  induction count generalizing cursor entries native with
  | zero =>
    unfold batchLoop
    rw [if_pos (show box.commitFails native.database = true from h)]
    exact ⟨_, rfl⟩
  | succ count ih =>
    obtain ⟨boxCall, hcall, hfails⟩ := h
    unfold batchLoop
    rw [hcall, Option.bind_eq_bind, Option.bind_some]
    -- The call fails, or its tuple does not fit the port, or a later element fails.
    rcases hfails with herror | ⟨tuple, after, hres, hrest⟩
    · rw [Prod.fst_eq_iff.mp herror]
      exact ⟨_, rfl⟩
    · rw [hres]
      dsimp only
      by_cases hfull : box.portAddFails entries = true
      · rw [if_pos hfull]
        exact ⟨_, rfl⟩
      · rw [if_neg hfull]
        obtain ⟨rest, hnext, hrest⟩ := hrest.resolve_left hfull
        rw [hnext]
        exact ih hrest

theorem nextLoop_of_fails {iterator found : ℕ} {entries : List Tuple}
    (h : NextFails box iterator found entries native.database) :
    ∃ after, nextLoop box iterator found entries native = some (.error, after) := by
  induction found generalizing entries native with
  | zero => exact h.elim
  | succ found ih =>
    unfold nextLoop
    rcases h with herror | ⟨tuple, after, hres, hrest⟩
    · rw [Prod.fst_eq_iff.mp herror]
      exact ⟨_, rfl⟩
    · rw [hres]
      dsimp only
      by_cases hfull : box.portAddFails entries = true
      · rw [if_pos hfull]
        exact ⟨_, rfl⟩
      · rw [if_neg hfull]
        exact ih (hrest.resolve_left hfull)

theorem batch_of_fails {Cursor : Type} {call : Cursor → Option BoxCall}
    {next : Cursor → Option Cursor}
    {start : Option (ℕ × Cursor)} (h : StartFails box native.database call next start) :
    ∃ after, (start.bind fun first =>
      batchLoop box native.database call next first.1 first.2 [] native) =
        some (.error, after) := by
  obtain ⟨count, cursor, rfl, hfails⟩ := h
  exact batchLoop_of_fails hfails

theorem selectPort_of_fails {selection : Uint8List → Selection} {key keySize : ℕ}
    (h : SelectFails box memory native.database selection key keySize) :
    ∃ after, selectPort box memory selection key keySize native = some (.error, after) := by
  obtain ⟨read, hread, hnone⟩ := h
  unfold selectPort
  rw [hread, Option.bind_eq_bind, Option.bind_some, hnone]
  exact ⟨_, rfl⟩

omit [DecidableEq Tuple] in
theorem storageLua_of_fails {evaluates : Bool} {lua : LuaRequest}
    (h : LuaCallFails box memory native.database evaluates lua) :
    ∃ after, storageLua box memory evaluates lua native = some (.error, after) := by
  obtain ⟨text, input, htext, hinput, hnone⟩ := h
  unfold storageLua
  rw [htext, hinput, Option.bind_eq_bind, Option.bind_some, Option.bind_some]
  rw [Prod.fst_eq_iff.mp hnone]
  exact ⟨_, rfl⟩

theorem single_of_error {boxCall : BoxCall} (h : (box.call boxCall native.database).1 = .error) :
    ∃ after, single box (some boxCall) native = some (.error, after) := by
  unfold single
  rw [Option.bind_eq_bind, Option.bind_some]
  rw [Prod.fst_eq_iff.mp h]
  exact ⟨_, rfl⟩

theorem storageIteratorNextSingle_of_error {iterator : ℕ}
    (h : (box.call (.iteratorNext iterator) native.database).1 = .error) :
    ∃ after, storageIteratorNextSingle box iterator native = some (.error, after) := by
  unfold storageIteratorNextSingle
  rw [Prod.fst_eq_iff.mp h]
  exact ⟨_, rfl⟩

/-- The handlers that look at what their calls give send a failure. -/
theorem handler_of_callFails {request : Request} (hlooks : request.isSilent = false)
    (h : request.CallFails box failures memory native.database) :
    ∃ after, request.handler box memory native = some (.error, after) := by
  -- The twelve handlers with one call for a tuple.
  have hsingle {call : Option BoxCall} (hfirst : request.firstCall memory = .single call)
      (h : ∃ boxCall, request.firstCall memory = .single (some boxCall) ∧
        (box.call boxCall native.database).1 = .error) :
      ∃ after, single box call native = some (.error, after) := by
    obtain ⟨boxCall, hcall, herror⟩ := h
    obtain rfl := FirstCall.single.inj (hfirst.symm.trans hcall)
    exact single_of_error herror
  cases request with
  | evaluate lua | call lua => exact storageLua_of_fails h
  | iteratorNextSingle iterator => exact storageIteratorNextSingle_of_error h
  | iteratorNextMany iterator inputSize => exact nextLoop_of_fails h
  | iteratorDestroy iterator => exact h.elim
  | spacePutMany request | spaceDeleteMany request | spaceInsertMany request =>
    exact batch_of_fails h
  | spaceUpdateMany request | indexUpdateMany request => exact batch_of_fails h
  | spaceSelect request | indexSelect request => exact selectPort_of_fails h
  | spaceInsertSingle request | spacePutSingle request | spaceDeleteSingle request
  | spaceUpdateSingle request | spaceGet request | spaceMin request | spaceMax request
  | spaceUpsert request | indexGet request | indexMin request | indexMax request
  | indexUpdateSingle request => exact hsingle rfl h
  | spaceTruncate | spaceLength | indexLength | spaceIdByName | spaceCount | spaceIterator
  | indexCount
  | indexIterator | indexIdByName => cases hlooks

variable {after : Native Database Tuple}

omit [DecidableEq Tuple] in
theorem answerNumber_ne_error {query : Option BoxQuery} {reply : Reply Tuple}
    (h : answerNumber box query native = some (reply, after)) : reply ≠ .error := by
  obtain ⟨query, -, hreply⟩ := Option.bind_eq_some_iff.mp h
  cases hreply
  exact nofun

/-- The others never send an error. -/
theorem ne_error_of_isSilent {request : Request} {reply : Reply Tuple}
    (hsilent : request.isSilent = true)
    (h : request.handler box memory native = some (reply, after)) : reply ≠ .error := by
  cases request with
  | spaceTruncate input =>
    cases h
    exact nofun
  | spaceLength | indexLength | spaceIdByName | spaceCount | spaceIterator | indexCount
  | indexIterator
  | indexIdByName => exact answerNumber_ne_error h
  | _ => cases hsilent

end Handlers

/-! ## What the caller gets -/

omit [DecidableEq Tuple] in
/-- Only an error sets the flag, and nothing takes it back. -/
theorem outputEvent_write {reply : Reply Tuple} (task : TaskAnswer Tuple) (h : reply ≠ .error) :
    (reply.write task).outputEvent = task.outputEvent := by
  cases reply with
  | error => exact absurd rfl h
  | unchanged | tuple | port | number | buffer => rfl

omit [DecidableEq Tuple] in
/-- The future completes with a value if and only if the handler sent no error, and the structure
had no flag before. -/
theorem callback_write_iff (reply : Reply Tuple) (task : TaskAnswer Tuple) :
    callback (reply.write task) = .value (reply.write task) ↔
      reply ≠ .error ∧ task.outputEvent = false := by
  unfold callback
  by_cases herror : reply = .error
  · subst herror
    exact iff_of_false nofun fun h => h.1 rfl
  · rw [outputEvent_write task herror]
    cases task.outputEvent with
    | true => exact iff_of_false nofun fun h => Bool.noConfusion h.2
    | false => exact iff_of_true rfl ⟨herror, rfl⟩

omit [DecidableEq Tuple] in
/-- What a handler writes behind calls that do not fail is no error. -/
theorem Request.Writes.ne_error {box : Box Database Tuple} {memory : ℕ → Uint8List}
    {database : Database} {request : Request} {reply : Reply Tuple}
    (h : request.Writes box memory database reply) : reply ≠ .error := by
  rintro rfl
  rcases h with ⟨-, h⟩ | ⟨-, ⟨-, _, h⟩ | ⟨-, h⟩⟩
  · cases h
  · cases h
  · exact h

/-- The caller gets a value if and only if the handler can end without an error, and the structure
had no flag before. -/
theorem value_iff (box : Box Database Tuple) (memory : ℕ → Uint8List)
    (native : Native Database Tuple) (task : TaskAnswer Tuple) (request : Request) :
    (∃ reply after, request.handler box memory native = some (reply, after) ∧
        callback (reply.write task) = .value (reply.write task)) ↔
      ¬request.Fails box memory native.database ∧ task.outputEvent = false := by
  rcases request.replies box memory native with ⟨hends, herror⟩ | ⟨hfine, reply, after,
    hhandler, hwrites⟩
  · apply iff_of_false
    · rintro ⟨reply, after, hhandler, hval⟩
      exact ((callback_write_iff reply task).mp hval).1 (herror reply after hhandler)
    · exact fun h => h.1 hends
  · rw [and_iff_right hfine]
    constructor
    · rintro ⟨reply, after, -, hval⟩
      exact ((callback_write_iff reply task).mp hval).2
    · intro hflag
      exact ⟨reply, after, hhandler, (callback_write_iff reply task).mpr ⟨hwrites.ne_error, hflag⟩⟩

/-- A failure is the caller's, and a value otherwise, if and only if no call fails whose handler
does not look at it, and where no call fails the request can be read, no call of a batch gives
`NULL`, the iterator is not at its end, and the structure has no flag from before. -/
theorem failuresReported_iff (box : Box Database Tuple) (failures : HiddenFailures box)
    (memory : ℕ → Uint8List)
    (native : Native Database Tuple) (task : TaskAnswer Tuple) (request : Request) :
    FailuresReported box failures memory native task request ↔
      (request.isSilent = true → ¬request.CallFails box failures memory native.database) ∧
        (¬request.CallFails box failures memory native.database →
          ¬request.Fails box memory native.database ∧ task.outputEvent = false) := by
  unfold FailuresReported
  rw [value_iff]
  by_cases hfails : request.CallFails box failures memory native.database
  · rw [and_iff_left (fun h => absurd hfails h), and_iff_left (fun h => absurd hfails h)]
    -- What fails is sent as a number by a silent handler, and as an error by the others.
    by_cases hsilent : request.isSilent = true
    · apply iff_of_false
      · intro hreported
        obtain ⟨after, hhandler, -⟩ := hreported hfails
        exact ne_error_of_isSilent hsilent hhandler rfl
      · exact fun h => h hsilent hfails
    · apply iff_of_true
      · intro _
        obtain ⟨after, hhandler⟩ := handler_of_callFails (Bool.eq_false_iff.mpr hsilent) hfails
        exact ⟨after, hhandler, rfl⟩
      · exact fun h => absurd h hsilent
  -- Nothing fails, so that only the value is left to be asked for.
  · rw [and_iff_right (fun h => absurd h hfails), and_iff_right (fun _ => hfails)]

/-- A database where no space can be counted. -/
def uncounted : Box Unit ℕ where
  call _ _ := (.null, ())
  query query _ :=
    match query with
    -- The `ssize_t` -1.
    | .count .. => 2 ^ 64 - 1
    | _ => 1
  select _ _ := none
  lua _ _ := (none, ())
  truncate _ _ := ()
  iteratorFree _ _ := ()
  portAddFails _ := false
  commitFails _ := false

def uncountedFailures : HiddenFailures uncounted where
  truncate _ _ := false
  lookup _ _ := false
  lookup_nil _ _ h := Bool.noConfusion h

/-- The future of a count that fails completes with the value -1. -/
theorem not_failuresReported :
    ¬FailuresReported uncounted uncountedFailures (fun _ => []) ⟨(), fun _ => 0⟩ ⟨.null, 0, false⟩
        (.spaceCount ⟨0, 0, 1, 2⟩) ∧
      (Request.spaceCount ⟨0, 0, 1, 2⟩).handler uncounted (fun _ => []) ⟨(), fun _ => 0⟩ =
        some (.number (2 ^ 64 - 1), ⟨(), fun _ => 0⟩) ∧
      callback ((Reply.number (2 ^ 64 - 1)).write (⟨.null, 0, false⟩ : TaskAnswer ℕ)) =
        .value ⟨.number (2 ^ 64 - 1), 0, false⟩ := by
  refine ⟨?_, rfl, rfl⟩
  rintro ⟨hreported, -⟩
  have hfails :
    (Request.spaceCount ⟨0, 0, 1, 2⟩).CallFails uncounted uncountedFailures (fun _ => []) () :=
    ⟨.count 1 0 2 [], rfl, show 2 ^ 63 ≤ 2 ^ 64 - 1 by decide⟩
  obtain ⟨after, hhandler, -⟩ := hreported hfails
  cases hhandler

end FengShui.Storage
