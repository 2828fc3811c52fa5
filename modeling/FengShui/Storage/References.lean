import FengShui.Storage.Box
import FengShui.Lib.Transition

/-!
# References to tuples

The client sends requests, and frees the tuples and ports that it gets with
`storage_free_output_tuple` and `storage_free_output_port`. A task is used again after its request,
and its output is then what the request before left there. A task that was answered with an error is
not used again, so its flags are clear.
-/

namespace FengShui.Storage

open List

/-- A request, by its handler. -/
inductive Request where
  | evaluate (request : LuaRequest)
  | call (request : LuaRequest)
  | iteratorNextSingle (iterator : ℕ)
  | iteratorNextMany (iterator inputSize : ℕ)
  | iteratorDestroy (iterator : ℕ)
  | spaceIdByName (input inputSize : ℕ)
  | spaceCount (request : SpaceCountRequest)
  | spaceLength (input : ℕ)
  | spaceIterator (request : SpaceIteratorRequest)
  | spaceInsertSingle (request : SpaceRequest)
  | spaceInsertMany (request : SpaceRequest)
  | spacePutSingle (request : SpaceRequest)
  | spacePutMany (request : SpaceRequest)
  | spaceDeleteSingle (request : SpaceRequest)
  | spaceDeleteMany (request : SpaceRequest)
  | spaceUpdateSingle (request : SpaceUpdateRequest)
  | spaceUpdateMany (request : SpaceUpdateRequest)
  | spaceSelect (request : SpaceSelectRequest)
  | spaceGet (request : SpaceRequest)
  | spaceMin (request : SpaceRequest)
  | spaceMax (request : SpaceRequest)
  | spaceTruncate (input : ℕ)
  | spaceUpsert (request : SpaceUpsertRequest)
  | indexCount (request : IndexCountRequest)
  | indexLength (request : IndexIdRequest)
  | indexIterator (request : IndexIteratorRequest)
  | indexGet (request : IndexRequest)
  | indexMin (request : IndexRequest)
  | indexMax (request : IndexRequest)
  | indexUpdateSingle (request : IndexUpdateRequest)
  | indexUpdateMany (request : IndexUpdateRequest)
  | indexSelect (request : IndexSelectRequest)
  | indexIdByName (request : IndexIdByNameRequest)

variable {Database Tuple : Type} [DecidableEq Tuple]
variable (box : Box Database Tuple) (memory : ℕ → Uint8List)

/-- The handler of a request (`storage_initialize_box`, `StorageProducer.initialize`). -/
def Request.handler : Request → Handler Database Tuple
  | .evaluate request => storageEvaluate box memory request
  | .call request => storageCall box memory request
  | .iteratorNextSingle iterator => storageIteratorNextSingle box iterator
  | .iteratorNextMany iterator inputSize => storageIteratorNextMany box iterator inputSize
  | .iteratorDestroy iterator => storageIteratorDestroy box iterator
  | .spaceIdByName input inputSize => storageSpaceIdByName box memory input inputSize
  | .spaceCount request => storageSpaceCount box memory request
  | .spaceLength input => storageSpaceLength box input
  | .spaceIterator request => storageSpaceIterator box memory request
  | .spaceInsertSingle request => storageSpaceInsertSingle box memory request
  | .spaceInsertMany request => storageSpaceInsertMany box memory request
  | .spacePutSingle request => storageSpacePutSingle box memory request
  | .spacePutMany request => storageSpacePutMany box memory request
  | .spaceDeleteSingle request => storageSpaceDeleteSingle box memory request
  | .spaceDeleteMany request => storageSpaceDeleteMany box memory request
  | .spaceUpdateSingle request => storageSpaceUpdateSingle box memory request
  | .spaceUpdateMany request => storageSpaceUpdateMany box memory request
  | .spaceSelect request => storageSpaceSelect box memory request
  | .spaceGet request => storageSpaceGet box memory request
  | .spaceMin request => storageSpaceMin box memory request
  | .spaceMax request => storageSpaceMax box memory request
  | .spaceTruncate input => storageSpaceTruncate box input
  | .spaceUpsert request => storageSpaceUpsert box memory request
  | .indexCount request => storageIndexCount box memory request
  | .indexLength request => storageIndexLength box request
  | .indexIterator request => storageIndexIterator box memory request
  | .indexGet request => storageIndexGet box memory request
  | .indexMin request => storageIndexMin box memory request
  | .indexMax request => storageIndexMax box memory request
  | .indexUpdateSingle request => storageIndexUpdateSingle box memory request
  | .indexUpdateMany request => storageIndexUpdateMany box memory request
  | .indexSelect request => storageIndexSelect box memory request
  | .indexIdByName request => storageIndexIdByName box memory request

/-- What the output of a task is. -/
inductive Output (Tuple : Type) where
  | null
  | tuple (tuple : Tuple)
  | port (entries : List Tuple)
  /-- A number, an address or a buffer. -/
  | other
  deriving DecidableEq

/-- The output behind a handler, unless the task is an error. -/
def Reply.output (before : Output Tuple) : Reply Tuple → Option (Output Tuple)
  | .error => none
  | .unchanged => some before
  | .tuple result => some (.tuple result)
  | .port entries => some (.port entries)
  | .number _ | .buffer _ => some .other

/-- What the client takes the output of a request for. -/
inductive Expects where
  | tuple
  | port
  | other

def Request.expects : Request → Expects
  | .iteratorNextSingle _ | .spaceInsertSingle _ | .spacePutSingle _ | .spaceDeleteSingle _
  | .spaceUpdateSingle _ | .spaceGet _ | .spaceMin _ | .spaceMax _ | .spaceUpsert _ | .indexGet _
  | .indexMin _ | .indexMax _ | .indexUpdateSingle _ => .tuple
  | .iteratorNextMany _ _ | .spaceInsertMany _ | .spacePutMany _ | .spaceDeleteMany _
  | .spaceUpdateMany _ | .spaceSelect _ | .indexUpdateMany _ | .indexSelect _ => .port
  | _ => .other

/-- An output that the client has to free: as a tuple or as a port. -/
inductive Received (Tuple : Type) where
  | tuple (output : Output Tuple)
  | port (output : Output Tuple)
  deriving DecidableEq

/-- The client gets what is in the output; a null pointer is nothing. -/
def Expects.receives (expects : Expects) (output : Option (Output Tuple)) : List (Received Tuple) :=
  match expects, output with
  | _, none | _, some .null | .other, _ => []
  | .tuple, some output => [.tuple output]
  | .port, some output => [.port output]

/-- `storage_free_output_tuple` and `storage_free_output_port`; with another pointer they have no
result. -/
def Received.free : Received Tuple → Native Database Tuple → Option (Native Database Tuple)
  | .tuple (.tuple result), native => some (native.unref [result])
  | .port (.port entries), native => some (native.unref entries)
  | _, _ => none

/-- The storage, and what the client got and did not free. -/
structure Client (Database Tuple : Type) where
  native : Native Database Tuple
  outputs : List (Received Tuple)

/-- The client sends a request, with what is in its memory and in the output of its task, or frees
an output. -/
inductive Action (Tuple : Type) where
  | request (request : Request) (memory : ℕ → Uint8List) (output : Output Tuple)
  | free (index : ℕ)

def step (client : Client Database Tuple) : Action Tuple → Option (Client Database Tuple)
  | .request request memory output => do
    let (reply, native) ← request.handler box memory client.native
    return ⟨native, client.outputs ++ request.expects.receives (reply.output output)⟩
  | .free index =>
    match client.outputs[index]? with
    | none => some client
    | some received => do
      let native ← received.free client.native
      return ⟨native, client.outputs.eraseIdx index⟩

/-- The client frees all that it has. -/
def freeAll : List (Received Tuple) → Native Database Tuple → Option (Native Database Tuple)
  | [], native => some native
  | received :: outputs, native => do
    let native ← received.free native
    freeAll outputs native

/-- When everything is freed, no reference is left and none is missing. -/
def Settles (client : Client Database Tuple) : Prop :=
  ∃ native, freeAll client.outputs client.native = some native ∧ ∀ tuple,
    native.references tuple = 0

/-- A client that has nothing, and a database. -/
def Client.start (database : Database) : Client Database Tuple := ⟨⟨database, fun _ => 0⟩, []⟩

/-- Wherever the client stops, everything settles. -/
def Balanced (database : Database) (actions : List (Action Tuple)) : Prop :=
  ∀ front back, actions = front ++ back → ∃ client,
    Transition.run (step box) (Client.start database) front = some client ∧ Settles client

/-- The call of the database that decides about the references of a request. -/
inductive FirstCall where
  /-- One call for a tuple. -/
  | single (call : Option BoxCall)
  /-- The number of calls, and the first of them. -/
  | batch (calls : Option (ℕ × Option BoxCall))
  /-- Calls whose tuples the handler keeps account of, if it can read its request. -/
  | other (readable : Bool)

/-- The first element of a batch. -/
def firstElement (call : Uint8List → Option BoxCall) (address : ℕ) : Option (ℕ × Option BoxCall) :=
  (mpDecodeArray (memory address)).map fun (count, batch) => (count, call batch)

def firstPair (call : Uint8List → Uint8List → BoxCall) (key operations : ℕ) :
    Option (ℕ × Option BoxCall) :=
  (pairCursors memory key operations).map fun (count, cursors) => (count, countedPair call cursors)

/-- The call on the bytes at an address. -/
def callOn (call : Uint8List → BoxCall) (address size : ℕ) : Option BoxCall :=
  (range memory address size).map call

def callOnPair (call : Uint8List → Uint8List → BoxCall)
    (address size operations operationsSize : ℕ) :
    Option BoxCall := do
  let first ← range memory address size
  let second ← range memory operations operationsSize
  return call first second

def readable (address size : ℕ) : Bool := (range memory address size).isSome

def Request.firstCall : Request → FirstCall
  | .evaluate request | .call request =>
    .other (readable memory request.text request.textLength &&
      readable memory request.input request.inputSize)
  | .iteratorNextSingle _ | .iteratorNextMany _ _ | .iteratorDestroy _ | .spaceLength _
  | .spaceTruncate _ | .indexLength _ => .other true
  | .spaceIdByName input inputSize => .other (readable memory input inputSize)
  | .spaceCount request => .other (readable memory request.key request.keySize)
  | .spaceIterator request => .other (readable memory request.key request.keySize)
  | .spaceSelect request => .other (readable memory request.key request.keySize)
  | .indexCount request => .other (readable memory request.key request.keySize)
  | .indexIterator request => .other (readable memory request.key request.keySize)
  | .indexSelect request => .other (readable memory request.key request.keySize)
  | .indexIdByName request => .other (readable memory request.name request.nameLength)
  | .spaceInsertSingle request =>
    .single (callOn memory (.insert request.spaceId) request.tuple request.tupleSize)
  | .spacePutSingle request =>
    .single (callOn memory (.replace request.spaceId) request.tuple request.tupleSize)
  | .spaceDeleteSingle request =>
    .single (callOn memory (.delete request.spaceId primaryIndexId) request.tuple request.tupleSize)
  | .spaceUpdateSingle request =>
    .single (callOnPair memory (.update request.spaceId primaryIndexId) request.key request.keySize
      request.operations request.operationsSize)
  | .spaceUpsert request =>
    .single (callOnPair memory (.upsert request.spaceId primaryIndexId) request.tuple
      request.tupleSize request.operations request.operationsSize)
  | .spaceGet request =>
    .single
      (callOn memory (.indexGet request.spaceId primaryIndexId) request.tuple request.tupleSize)
  | .spaceMin request =>
    .single
      (callOn memory (.indexMin request.spaceId primaryIndexId) request.tuple request.tupleSize)
  | .spaceMax request =>
    .single
      (callOn memory (.indexMax request.spaceId primaryIndexId) request.tuple request.tupleSize)
  | .indexGet request =>
    .single
      (callOn memory (.indexGet request.spaceId request.indexId) request.tuple request.tupleSize)
  | .indexMin request =>
    .single
      (callOn memory (.indexMin request.spaceId request.indexId) request.tuple request.tupleSize)
  | .indexMax request =>
    .single
      (callOn memory (.indexMax request.spaceId request.indexId) request.tuple request.tupleSize)
  | .indexUpdateSingle request =>
    .single (callOnPair memory (.update request.spaceId request.indexId) request.key request.keySize
      request.operations request.operationsSize)
  | .spacePutMany request =>
    .batch (firstElement memory (countedElement (.replace request.spaceId)) request.tuple)
  | .spaceDeleteMany request =>
    .batch
      (firstElement memory (countedElement (.delete request.spaceId primaryIndexId)) request.tuple)
  | .spaceInsertMany request =>
    .batch (firstElement memory (nextElement (.insert request.spaceId)) request.tuple)
  | .spaceUpdateMany request =>
    .batch
      (firstPair memory (.update request.spaceId primaryIndexId) request.key request.operations)
  | .indexUpdateMany request =>
    .batch
      (firstPair memory (.update request.spaceId request.indexId) request.key request.operations)

/-- A single call gives `NULL` to a task with an empty output only, and a batch is empty or fails at
its first element. -/
def FirstCall.Clean (database : Database) (output : Output Tuple) : FirstCall → Prop
  | .single call => ∃ boxCall, call = some boxCall ∧
      ((box.call boxCall database).1 = .null → output = .null)
  | .batch calls => ∃ count call, calls = some (count, call) ∧
      (count = 0 ∨ ∃ boxCall, call = some boxCall ∧ (box.call boxCall database).1 = .error)
  | .other readable => readable = true

/-- The condition of an action, in the state before it. -/
def Clean (client : Client Database Tuple) : Action Tuple → Prop
  | .request request memory output =>
    (request.firstCall memory).Clean box client.native.database output
  | .free _ => True

/-! ## What the client holds -/

/-- The tuples of an output, if it can be freed as what it was taken for. -/
def Received.tuples : Received Tuple → Option (List Tuple)
  | .tuple (.tuple result) => some [result]
  | .port (.port entries) => some entries
  | _ => none

def held : List (Received Tuple) → Option (List Tuple)
  | [] => some []
  | received :: outputs => do
    let first ← received.tuples
    let rest ← held outputs
    return first ++ rest

omit [DecidableEq Tuple] in
theorem held_append (front back : List (Received Tuple)) :
    held (front ++ back) = do
      let first ← held front
      let rest ← held back
      return first ++ rest := by
  induction front with
  | nil =>
    rw [nil_append]
    cases held back <;> rfl
  | cons received front ih =>
    rw [cons_append, held, held, ih]
    cases received.tuples with
    | none => rfl
    | some first =>
      cases held front with
      | none => rfl
      | some middle =>
        cases held back with
        | none => rfl
        | some rest => exact congrArg some (append_assoc first middle rest).symm

theorem Received.free_eq (received : Received Tuple) (native : Native Database Tuple) :
    received.free native = received.tuples.map native.unref := by
  cases received with
  | tuple output => cases output <;> rfl
  | port output => cases output <;> rfl

theorem unref_append (front back : List Tuple) (native : Native Database Tuple) :
    native.unref (front ++ back) = (native.unref front).unref back := by
  unfold Native.unref
  congr 1
  funext tuple
  rw [count_append]
  push_cast
  omega

theorem freeAll_eq (outputs : List (Received Tuple)) (native : Native Database Tuple) :
    freeAll outputs native = (held outputs).map native.unref := by
  induction outputs generalizing native with
  | nil =>
    unfold freeAll held Native.unref
    simp
  | cons received outputs ih =>
    rw [freeAll, held, received.free_eq]
    cases received.tuples with
    | none => rfl
    | some first =>
      show freeAll outputs (native.unref first) = _
      rw [ih]
      cases held outputs with
      | none => rfl
      | some rest => exact congrArg some (unref_append first rest native).symm

/-- What is taken is what the client holds. -/
theorem settles_iff (client : Client Database Tuple) :
    Settles client ↔ ∃ tuples, held client.outputs = some tuples ∧
      ∀ tuple, client.native.references tuple = tuples.count tuple := by
  unfold Settles
  rw [freeAll_eq]
  constructor
  · rintro ⟨native, hfree, hzero⟩
    obtain ⟨tuples, hheld, rfl⟩ := Option.map_eq_some_iff.mp hfree
    refine ⟨tuples, hheld, fun tuple => ?_⟩
    have hdiff := hzero tuple
    unfold Native.unref at hdiff
    dsimp only at hdiff
    omega
  · rintro ⟨tuples, hheld, hcount⟩
    refine ⟨client.native.unref tuples, by rw [hheld]; rfl, fun tuple => ?_⟩
    unfold Native.unref
    dsimp only
    rw [hcount]
    omega

/-- One output less. -/
theorem held_eraseIdx {outputs : List (Received Tuple)} {tuples : List Tuple} {index : ℕ}
    {received : Received Tuple} (hheld : held outputs = some tuples)
    (hidx : outputs[index]? = some received) :
    ∃ freed rest, received.tuples = some freed ∧ held (outputs.eraseIdx index) = some rest ∧
      ∀ tuple, tuples.count tuple = freed.count tuple + rest.count tuple := by
  induction outputs generalizing tuples index with
  | nil => exact absurd hidx nofun
  | cons first outputs ih =>
    rw [held] at hheld
    obtain ⟨firstTuples, hfirst, hrest⟩ := Option.bind_eq_some_iff.mp hheld
    obtain ⟨restTuples, houtputs, htuples⟩ := Option.bind_eq_some_iff.mp hrest
    obtain rfl := Option.some.inj htuples
    cases index with
    | zero =>
      obtain rfl := Option.some.inj hidx
      exact ⟨firstTuples, restTuples, hfirst, houtputs, fun tuple => count_append ..⟩
    | succ index =>
      obtain ⟨freed, rest, hfreed, herased, hcount⟩ := ih houtputs hidx
      refine ⟨freed, firstTuples ++ rest, hfreed, ?_, fun tuple => ?_⟩
      · rw [eraseIdx_cons_succ, held, hfirst, herased]
        rfl
      · rw [count_append, count_append, hcount]
        omega

/-! ## What a handler takes and gives -/

/-- A handler takes the references that it gives to the client, and no other. -/
def Accounts (handler : Handler Database Tuple) (expects : Expects) (native : Native Database Tuple)
    (output : Output Tuple) : Prop :=
  ∃ reply after, handler native = some (reply, after) ∧
    ∃ tuples, held (expects.receives (reply.output output)) = some tuples ∧
      ∀ tuple, after.references tuple = native.references tuple + tuples.count tuple

section Handlers

variable {box} {memory} {native : Native Database Tuple} {output : Output Tuple}

theorem references_ref (tuples : List Tuple) (tuple : Tuple) :
    (native.ref tuples).references tuple = native.references tuple + tuples.count tuple := rfl

theorem references_unref (tuples : List Tuple) (tuple : Tuple) :
    (native.unref tuples).references tuple = native.references tuple - tuples.count tuple := rfl

omit [DecidableEq Tuple] in
theorem receives_other (output : Option (Output Tuple)) : Expects.other.receives output = [] := by
  rcases output with - | output
  · rfl
  · cases output <;> rfl

variable {handler : Handler Database Tuple} {Cursor : Type} {call : Cursor → Option BoxCall}
  {next : Cursor → Option Cursor}

/-- A handler that gives an error, or something that is not to be freed, and takes nothing. -/
theorem accounts_of_nothing {expects : Expects} (reply : Reply Tuple)
    (after : Native Database Tuple) (hhandler : handler native = some (reply, after))
    (hreply : expects.receives (reply.output output) = [])
    (hrefs : after.references = native.references) : Accounts handler expects native output :=
  ⟨reply, after, hhandler, [], by rw [hreply]; rfl, fun tuple => by rw [hrefs]; simp⟩

theorem accounts_single (call : Option BoxCall) :
    Accounts (single box call) .tuple native output ↔
      (FirstCall.single call).Clean box native.database output := by
  unfold FirstCall.Clean
  cases call with
  | none =>
    constructor
    · rintro ⟨reply, after, hhandler, -⟩
      exact absurd hhandler nofun
    · rintro ⟨boxCall, hcall, -⟩
      exact absurd hcall nofun
  | some boxCall =>
    have hclean : (∃ other, some boxCall = some other ∧
        ((box.call other native.database).1 = .null → output = .null)) ↔
        ((box.call boxCall native.database).1 = .null → output = .null) := by simp
    dsimp only
    rw [hclean]
    rcases hres : box.call boxCall native.database with ⟨result, database⟩
    cases result with
    | error =>
      have hhandler : single box (some boxCall) native =
          some (.error, { native with database := database }) := by
        unfold single
        simp [hres]
      exact iff_of_true (accounts_of_nothing _ _ hhandler rfl rfl) nofun
    | null =>
      have hhandler : single box (some boxCall) native =
          some (.unchanged, { native with database := database }) := by
        unfold single
        simp [hres]
      constructor
      · rintro ⟨reply, after, hafter, tuples, hheld, hcount⟩ -
        obtain ⟨rfl, rfl⟩ := Prod.mk.inj (Option.some.inj (hhandler.symm.trans hafter))
        cases output with
        | null => rfl
        | tuple tuple =>
          -- What the output had before would count as received.
          obtain rfl : tuples = [tuple] := (Option.some.inj hheld).symm
          have hone := hcount tuple
          simp at hone
        | port entries | other => exact absurd hheld nofun
      · intro hnull
        obtain rfl := hnull rfl
        exact accounts_of_nothing _ _ hhandler rfl rfl
    | tuple tuple =>
      have hhandler : single box (some boxCall) native =
          some (.tuple tuple, { native with database := database }.ref [tuple]) := by
        unfold single
        simp [hres]
      exact iff_of_true ⟨_, _, hhandler, [tuple], rfl, fun _ => rfl⟩ nofun

/-- What a batch takes beyond its port: its own reference to each tuple. -/
theorem batchLoop_references {before : Database} {count : ℕ} {cursor : Cursor}
    {entries : List Tuple} {reply : Reply Tuple} {after : Native Database Tuple}
    (hloop : batchLoop box before call next count cursor entries native = some (reply, after)) :
    ∃ taken ports : List Tuple, (reply = .error ∧ ports = [] ∨ reply = .port ports) ∧
      (∀ tuple, after.references tuple + entries.count tuple =
        native.references tuple + ports.count tuple + taken.count tuple) ∧
      (taken = [] → count = 0 ∨ ∃ boxCall, call cursor = some boxCall ∧
        (box.call boxCall native.database).1 = .error) := by
  induction count generalizing cursor entries native with
  | zero =>
    unfold batchLoop at hloop
    refine ⟨[], if box.commitFails native.database then [] else entries, ?_, ?_, fun _ => .inl rfl⟩
    -- Behind the last round the entries are committed, or given back.
    all_goals split at hloop
    all_goals cases hloop
    · exact .inl ⟨rfl, if_pos (by assumption)⟩
    · exact .inr (by rw [if_neg (by assumption)])
    · intro tuple
      rw [if_pos (by assumption), references_unref]
      simp
    · intro tuple
      rw [if_neg (by assumption)]
      simp
  | succ count ih =>
    unfold batchLoop at hloop
    obtain ⟨boxCall, hcall, hloop⟩ := Option.bind_eq_some_iff.mp hloop
    rcases hres : box.call boxCall native.database with ⟨result, database⟩
    rw [hres] at hloop
    cases result with
    | error =>
      cases hloop
      refine ⟨[], [], .inl ⟨rfl, rfl⟩, fun tuple => ?_, fun _ =>
        .inr ⟨boxCall, hcall, by rw [hres]⟩⟩
      rw [references_unref]
      simp
    | null => exact absurd hloop nofun
    | tuple first =>
      dsimp only at hloop
      split at hloop
      · cases hloop
        -- The entry does not fit: the tuple that was taken is given back with the others.
        refine ⟨[first], [], .inl ⟨rfl, rfl⟩, fun tuple => ?_, fun hnil => absurd hnil nofun⟩
        rw [references_unref, references_ref]
        simp
      · obtain ⟨cursor', -, hloop⟩ := Option.bind_eq_some_iff.mp hloop
        obtain ⟨taken, ports, hreply, hcount, -⟩ := ih hloop
        refine ⟨first :: taken, ports, hreply, fun tuple => ?_, fun hnil => absurd hnil nofun⟩
        have hone := hcount tuple
        rw [references_ref, references_ref, count_append] at hone
        rw [count_cons]
        simp only [count_singleton] at hone
        push_cast at hone ⊢
        omega

theorem accounts_batchLoop (call : Cursor → Option BoxCall) (next : Cursor → Option Cursor)
    (count : ℕ) (cursor : Cursor) :
    Accounts (fun native => batchLoop box native.database call next count cursor [] native) .port
        native output ↔
      count = 0 ∨ ∃ boxCall, call cursor = some boxCall ∧
        (box.call boxCall native.database).1 = .error := by
  constructor
  · rintro ⟨reply, after, hloop, tuples, hheld, hrefs⟩
    obtain ⟨taken, ports, hreply, hcount, hfirst⟩ := batchLoop_references hloop
    have htuples : tuples = ports := by
      rcases hreply with ⟨rfl, rfl⟩ | rfl
      · exact (Option.some.inj hheld).symm
      · rw [← Option.some.inj hheld]
        exact (append_nil ports)
    subst htuples
    refine hfirst (eq_nil_iff_forall_not_mem.mpr fun tuple hmem => ?_)
    have hpos := count_pos_iff.mpr hmem
    have hone := hcount tuple
    rw [hrefs tuple] at hone
    simp at hone
    omega
  · intro hclean
    have hempty : ∀ native : Native Database Tuple,
        ({ native with database := native.database }.unref []).references = native.references := by
      intro native
      funext tuple
      rw [references_unref]
      simp
    cases count with
    | zero =>
      by_cases hcommit : box.commitFails native.database
      · exact accounts_of_nothing .error (native.unref []) (if_pos hcommit) rfl
          (hempty native)
      · exact ⟨.port [], native, if_neg hcommit, [], rfl, fun tuple => by simp⟩
    | succ count =>
      obtain ⟨boxCall, hcall, herror⟩ := hclean.resolve_left (Nat.succ_ne_zero count)
      refine accounts_of_nothing .error (native.unref []) ?_ rfl (hempty native)
      rcases hres : box.call boxCall native.database with ⟨result, database⟩
      rw [hres] at herror
      obtain rfl : result = .error := herror
      simp [batchLoop, hcall, hres, rollback]

/-- A batch that begins with a decoded number of elements. -/
theorem accounts_batch (start : Option (ℕ × Cursor))
    (hhandler : ∀ native, handler native = start.bind fun first =>
      batchLoop box native.database call next first.1 first.2 [] native) :
    Accounts handler .port native output ↔
      (FirstCall.batch (start.map fun first => (first.1, call first.2))).Clean box native.database
        output := by
  unfold FirstCall.Clean
  cases start with
  | none =>
    refine iff_of_false ?_ ?_
    · rintro ⟨reply, after, hloop, -⟩
      rw [hhandler] at hloop
      exact absurd hloop nofun
    · rintro ⟨count, boxCall, hcalls, -⟩
      exact absurd hcalls nofun
  | some first =>
    obtain ⟨count, cursor⟩ := first
    have heq :
      handler = fun native => batchLoop box native.database call next count cursor [] native :=
      funext fun native => hhandler native
    rw [heq, accounts_batchLoop]
    simp

theorem accounts_readable {expects : Expects} (bytes : Option Uint8List)
    (hnone : bytes = none → handler native = none)
    (hsome : ∀ read, bytes = some read → Accounts handler expects native output) :
    Accounts handler expects native output ↔
      (FirstCall.other bytes.isSome).Clean box native.database output := by
  unfold FirstCall.Clean
  cases hbytes : bytes with
  | none =>
    refine iff_of_false ?_ nofun
    rintro ⟨reply, after, hhandler, -⟩
    rw [hnone hbytes] at hhandler
    exact absurd hhandler nofun
  | some read => exact iff_of_true (hsome read hbytes) rfl

theorem accounts_selectPort (selection : Uint8List → Selection) (key keySize : ℕ) :
    Accounts (selectPort box memory selection key keySize) .port native output ↔
      (FirstCall.other (readable memory key keySize)).Clean box native.database output := by
  refine accounts_readable (range memory key keySize) (fun hnone => ?_) fun read hread => ?_
  · unfold selectPort
    rw [hnone]
    rfl
  · cases hselect : box.select (selection read) native.database with
    | none =>
      have hhandler : selectPort box memory selection key keySize native =
          some (.error, native) := by
        simp [selectPort, hread, hselect]
      exact accounts_of_nothing _ _ hhandler rfl rfl
    | some tuples =>
      refine ⟨.port tuples, native.ref tuples, ?_, tuples, ?_, fun _ => rfl⟩
      · simp [selectPort, hread, hselect]
      · exact congrArg some (append_nil tuples)

theorem accounts_answerNumber (query : Uint8List → BoxQuery) (key keySize : ℕ) :
    Accounts (answerNumber box ((range memory key keySize).map query)) .other native output ↔
      (FirstCall.other (readable memory key keySize)).Clean box native.database output := by
  refine accounts_readable (range memory key keySize) (fun hnone => ?_) fun read hread => ?_
  · unfold answerNumber
    rw [hnone]
    rfl
  · refine accounts_of_nothing (.number (box.query (query read) native.database)) native ?_ rfl rfl
    simp [answerNumber, hread]

theorem accounts_lua (evaluates : Bool) (request : LuaRequest) :
    Accounts (storageLua box memory evaluates request) .other native output ↔
      (FirstCall.other (readable memory request.text request.textLength &&
        readable memory request.input request.inputSize)).Clean box native.database output := by
  unfold FirstCall.Clean readable
  cases htext : range memory request.text request.textLength with
  | none =>
    refine iff_of_false ?_ nofun
    rintro ⟨reply, after, hhandler, -⟩
    simp [storageLua, htext] at hhandler
  | some text =>
    cases hinput : range memory request.input request.inputSize with
    | none =>
      refine iff_of_false ?_ nofun
      rintro ⟨reply, after, hhandler, -⟩
      simp [storageLua, htext, hinput] at hhandler
    | some input =>
      refine iff_of_true ?_ rfl
      rcases hlua : box.lua ⟨evaluates, text, input⟩ native.database with ⟨result, database⟩
      cases result with
      | none =>
        exact accounts_of_nothing .error { native with database := database }
          (by simp [storageLua, htext, hinput, hlua]) rfl rfl
      | some bytes =>
        exact accounts_of_nothing (.buffer bytes) { native with database := database }
          (by simp [storageLua, htext, hinput, hlua]) rfl rfl

theorem accounts_nextSingle (iterator : ℕ) :
    Accounts (storageIteratorNextSingle box iterator) .tuple native output := by
  rcases hres : box.call (.iteratorNext iterator) native.database with ⟨result, database⟩
  cases result with
  | error | null =>
    exact accounts_of_nothing .error { native with database := database }
      (by simp [storageIteratorNextSingle, hres]) rfl rfl
  | tuple tuple =>
    exact ⟨.tuple tuple, { native with database := database }.ref [tuple],
      by simp [storageIteratorNextSingle, hres], [tuple], rfl, fun _ => rfl⟩

/-- The loop has taken the references of its port. -/
theorem nextLoop_references (iterator found : ℕ) (entries : List Tuple) :
    ∃ reply after, nextLoop box iterator found entries native = some (reply, after) ∧
      ∃ ports : List Tuple, (reply = .error ∧ ports = [] ∨ reply = .port ports) ∧
        ∀ tuple, after.references tuple + entries.count tuple =
          native.references tuple + ports.count tuple := by
  induction found generalizing entries native with
  | zero => exact ⟨.port entries, native, rfl, entries, .inr rfl, fun _ => rfl⟩
  | succ found ih =>
    rcases hres : box.call (.iteratorNext iterator) native.database with ⟨result, database⟩
    cases result with
    | error | null =>
      refine ⟨.error, { native with database := database }.unref entries, ?_, [],
        .inl ⟨rfl, rfl⟩, ?_⟩
      · simp [nextLoop, hres]
      · intro tuple
        rw [references_unref]
        simp
    | tuple first =>
      by_cases hfails : box.portAddFails entries
      · refine ⟨.error, { native with database := database }.unref entries, ?_, [],
          .inl ⟨rfl, rfl⟩, ?_⟩
        · simp [nextLoop, hres, hfails]
        · intro tuple
          rw [references_unref]
          simp
      · obtain ⟨reply, after, hloop, ports, hreply, hcount⟩ :=
          @ih ({ native with database := database }.ref [first]) (entries ++ [first])
        refine ⟨reply, after, ?_, ports, hreply, fun tuple => ?_⟩
        · simp [nextLoop, hres, hfails, hloop]
        · have hone := hcount tuple
          rw [references_ref, count_append] at hone
          push_cast at hone
          omega

theorem accounts_nextMany (iterator inputSize : ℕ) :
    Accounts (storageIteratorNextMany box iterator inputSize) .port native output := by
  obtain ⟨reply, after, hloop, ports, hreply, hcount⟩ :=
    @nextLoop_references _ _ _ box native iterator inputSize []
  refine ⟨reply, after, hloop, ports, ?_, fun tuple => ?_⟩
  · rcases hreply with ⟨rfl, rfl⟩ | rfl
    · rfl
    · exact congrArg some (append_nil ports)
  · have hone := hcount tuple
    simpa using hone

/-- The condition of a request is that its handler takes what it gives. -/
theorem Request.accounts_iff (request : Request) :
    Accounts (request.handler box memory) request.expects native output ↔
      (request.firstCall memory).Clean box native.database output := by
  cases request with
  | evaluate request => exact accounts_lua true request
  | call request => exact accounts_lua false request
  | iteratorNextSingle iterator => exact iff_of_true (accounts_nextSingle iterator) rfl
  | iteratorNextMany iterator inputSize =>
    exact iff_of_true (accounts_nextMany iterator inputSize) rfl
  | iteratorDestroy iterator | spaceTruncate input =>
    exact iff_of_true (accounts_of_nothing _ _ rfl (receives_other _) rfl) rfl
  | spaceLength input | indexLength request =>
    exact iff_of_true (accounts_of_nothing _ native rfl rfl rfl) rfl
  | spaceIdByName input inputSize | spaceCount request | spaceIterator request | indexCount request
  | indexIterator request | indexIdByName request => exact accounts_answerNumber _ _ _
  | spaceSelect request | indexSelect request => exact accounts_selectPort _ _ _
  | spaceInsertSingle request | spacePutSingle request | spaceDeleteSingle request
  | spaceUpdateSingle request | spaceGet request | spaceMin request | spaceMax request
  | spaceUpsert request | indexGet request | indexMin request | indexMax request
  | indexUpdateSingle request => exact accounts_single _
  | spaceInsertMany request | spacePutMany request | spaceDeleteMany request =>
    exact accounts_batch (mpDecodeArray (memory request.tuple)) fun _ => rfl
  | spaceUpdateMany request | indexUpdateMany request =>
    exact accounts_batch (pairCursors memory request.key request.operations) fun _ => rfl

end Handlers

/-! ## Runs -/

theorem step_settles (client : Client Database Tuple) (action : Action Tuple)
    (hsettles : Settles client) :
    Clean box client action ↔ ∃ next, step box client action = some next ∧ Settles next := by
  obtain ⟨tuples, hheld, hrefs⟩ := (settles_iff client).mp hsettles
  cases action with
  | free index =>
    refine iff_of_true trivial ?_
    cases hidx : client.outputs[index]? with
    | none =>
      refine ⟨client, ?_, hsettles⟩
      unfold step
      dsimp only
      rw [hidx]
    | some received =>
      -- What is freed was held, and its reference is given back.
      obtain ⟨freed, rest, hfreed, herased, hcount⟩ := held_eraseIdx hheld hidx
      refine ⟨⟨client.native.unref freed, client.outputs.eraseIdx index⟩, ?_, ?_⟩
      · unfold step
        dsimp only
        rw [hidx]
        dsimp only
        rw [received.free_eq, hfreed]
        rfl
      · refine (settles_iff _).mpr ⟨rest, herased, fun tuple => ?_⟩
        dsimp only
        rw [references_unref, hrefs, hcount]
        push_cast
        omega
  | request request memory output =>
    have hclean : Clean box client (.request request memory output) ↔
        Accounts (request.handler box memory) request.expects client.native output :=
      request.accounts_iff.symm
    rw [hclean]
    constructor
    · rintro ⟨reply, after, hhandler, given, hgiven, hcount⟩
      refine ⟨⟨after, client.outputs ++ request.expects.receives (reply.output output)⟩, ?_, ?_⟩
      · unfold step
        dsimp only
        rw [hhandler]
        rfl
      · refine (settles_iff _).mpr ⟨tuples ++ given, ?_, fun tuple => ?_⟩
        · dsimp only
          rw [held_append, hheld, hgiven]
          rfl
        · dsimp only
          rw [hcount, hrefs, count_append]
          push_cast
          rfl
    · rintro ⟨next, hnext, hsettled⟩
      obtain ⟨⟨reply, after⟩, hhandler, hnext⟩ := Option.bind_eq_some_iff.mp hnext
      obtain rfl := Option.some.inj hnext
      obtain ⟨all, hall, hcount⟩ := (settles_iff _).mp hsettled
      dsimp only at hall hcount
      rw [held_append, hheld] at hall
      -- What is held behind the request is what was held, and what it gives.
      obtain ⟨given, hgiven, hsum⟩ : ∃ given,
          held (request.expects.receives (reply.output output)) = some given ∧
              tuples ++ given = all := by
        obtain ⟨front, hfront, hrest⟩ := Option.bind_eq_some_iff.mp hall
        obtain ⟨given, hgiven, hsum⟩ := Option.bind_eq_some_iff.mp hrest
        obtain rfl := Option.some.inj hfront
        exact ⟨given, hgiven, Option.some.inj hsum⟩
      subst hsum
      refine ⟨reply, after, hhandler, given, hgiven, fun tuple => ?_⟩
      rw [hcount, hrefs, count_append]
      push_cast
      rfl

/-- The references balance wherever the client stops, if and only if no batch gets a tuple from the
database, no single request gets `NULL` into a task with an old output, and every request can be
read. -/
theorem balanced_iff (database : Database) (actions : List (Action Tuple)) :
    Balanced box database actions ↔
      Transition.Along (step box) (Clean box) (Client.start database) actions := by
  refine (Transition.along_iff_fronts (step_settles box) ?_ actions).symm
  exact (settles_iff _).mpr ⟨[], rfl, fun _ => rfl⟩

/-- A database in which every call gives the tuple 7. -/
def lucky : Box Unit ℕ where
  call _ _ := (.tuple 7, ())
  query _ _ := 0
  select _ _ := none
  lua _ _ := (none, ())
  truncate _ _ := ()
  iteratorFree _ _ := ()
  portAddFails _ := false
  commitFails _ := false

/-- A batch of one tuple: the handler's own reference to it is never dropped. -/
theorem not_balanced : ¬∀ actions : List (Action ℕ), Balanced lucky () actions := by
  intro h
  obtain ⟨client, hrun, hsettles⟩ :=
    h [.request (.spaceInsertMany ⟨3, 0, 512⟩) (fun _ => [0x91, 0x91, 0x01]) .null] _ []
      (List.append_nil _).symm
  obtain ⟨next, hnext, hlast⟩ := Transition.run_cons_eq_some.mp hrun
  obtain rfl := Option.some.inj hlast
  have hstart : Settles (Client.start () : Client Unit ℕ) :=
    (settles_iff _).mpr ⟨[], rfl, fun _ => rfl⟩
  obtain ⟨count, call, hcalls, hclean⟩ :=
    (step_settles lucky _ _ hstart).mpr ⟨next, hnext, hsettles⟩
  cases hcalls
  rcases hclean with hzero | ⟨boxCall, -, herror⟩
  · exact absurd hzero (by decide)
  · exact absurd herror nofun

end FengShui.Storage
