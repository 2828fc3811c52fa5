import FengShui.Storage.References
import Mathlib.Data.List.Perm.Basic

/-!
# The pool of ports (`storage_tuple_ports`)

The handlers that answer with a port take its memory from a pool before anything else, and
`storage_free_output_port` gives it back. A handler that fails destroys its port, which drops the
entries and keeps the memory: the pool is in balance along a run if and only if no request for a
port fails (`portsBalanced_iff`).
-/

namespace FengShui.Storage

open Transition

/-- `storage_tuple_ports`: how many ports were taken from it, and how many were given back. -/
structure TuplePorts where
  taken : ℕ
  returned : ℕ
  deriving DecidableEq, Repr

namespace TuplePorts

/-- `mempool_alloc`. -/
def alloc (ports : TuplePorts) : TuplePorts := { ports with taken := ports.taken + 1 }

/-- `mempool_free`. -/
def free (ports : TuplePorts) : TuplePorts := { ports with returned := ports.returned + 1 }

end TuplePorts

/-- The handler begins with `mempool_alloc`. -/
def Request.takesPort : Request → Bool
  | .iteratorNextMany _ _ | .spaceInsertMany _ | .spacePutMany _ | .spaceDeleteMany _
  | .spaceUpdateMany _ | .spaceSelect _ | .indexUpdateMany _ | .indexSelect _ => true
  | _ => false

/-- What a handler does to the pool. Its failures end with `port_destroy`, or with nothing at all,
and none of them with `mempool_free`. -/
def Request.ports (request : Request) (ports : TuplePorts) : TuplePorts :=
  if request.takesPort then ports.alloc else ports

variable {Database Tuple : Type} [DecidableEq Tuple]

/-- What `storage_free_output_tuple` and `storage_free_output_port` do to the pool. -/
def Received.ports (ports : TuplePorts) : Received Tuple → TuplePorts
  | .tuple _ => ports
  | .port _ => ports.free

/-- The client holds a port. -/
def Received.isPort : Received Tuple → Bool
  | .tuple _ => false
  | .port _ => true

/-- A client, and the pool of the storage. -/
structure Pooled (Database Tuple : Type) where
  client : Client Database Tuple
  ports : TuplePorts

namespace Pooled

/-- A client that has nothing, and an empty pool. -/
def start (database : Database) : Pooled Database Tuple := ⟨.start database, ⟨0, 0⟩⟩

variable (box : Box Database Tuple)

/-- What an action does to the pool. -/
def portsBehind (pooled : Pooled Database Tuple) : Action Tuple → TuplePorts
  | .request request _ _ => request.ports pooled.ports
  | .free index =>
    match pooled.client.outputs[index]? with
    | none => pooled.ports
    | some received => received.ports pooled.ports

def step (pooled : Pooled Database Tuple) (action : Action Tuple) :
    Option (Pooled Database Tuple) := do
  let client ← Storage.step box pooled.client action
  return ⟨client, pooled.portsBehind action⟩

/-- The ports that were taken and not given back are those that the client holds. -/
def PortsBalanced (pooled : Pooled Database Tuple) : Prop :=
  (pooled.ports.taken : ℤ) - pooled.ports.returned = pooled.client.outputs.countP Received.isPort

/-! ## Calls that do not fail -/

/-- Each call of a batch gives a tuple for which the port has memory, and the transaction is
committed. -/
def BatchSucceeds {Cursor : Type} (call : Cursor → Option BoxCall) (next : Cursor → Option Cursor) :
    ℕ → Cursor → List Tuple → Database → Prop
  | 0, _, _, database => box.commitFails database = false
  | count + 1, cursor, entries, database => ∃ boxCall tuple after rest,
    call cursor = some boxCall ∧ box.call boxCall database = (.tuple tuple, after) ∧
      box.portAddFails entries = false ∧ next cursor = some rest ∧
        BatchSucceeds call next count rest (entries ++ [tuple]) after

/-- So many calls of `box_iterator_next` give a tuple for which the port has memory. -/
def NextSucceeds (iterator : ℕ) : ℕ → List Tuple → Database → Prop
  | 0, _, _ => True
  | found + 1, entries, database => ∃ tuple after,
    box.call (.iteratorNext iterator) database = (.tuple tuple, after) ∧
      box.portAddFails entries = false ∧ NextSucceeds iterator found (entries ++ [tuple]) after

variable (memory : ℕ → Uint8List)

/-- The batch behind a number of elements, with the first of them. -/
def StartSucceeds {Cursor : Type} (call : Cursor → Option BoxCall) (next : Cursor → Option Cursor)
    (start : Option (ℕ × Cursor)) (database : Database) : Prop :=
  ∃ count cursor, start = some (count, cursor) ∧
    BatchSucceeds box call next count cursor [] database

def SelectSucceeds (selection : Uint8List → Selection) (key keySize : ℕ)
    (database : Database) : Prop :=
  ∃ read tuples, range memory key keySize = some read ∧
    box.select (selection read) database = some tuples

/-- No call of the database fails inside a request for a port. -/
def Succeeds (database : Database) : Request → Prop
  | .spacePutMany request =>
    StartSucceeds box (countedElement (.replace request.spaceId)) mpNext
      (mpDecodeArray (memory request.tuple)) database
  | .spaceDeleteMany request =>
    StartSucceeds box (countedElement (.delete request.spaceId primaryIndexId)) mpNext
      (mpDecodeArray (memory request.tuple)) database
  | .spaceInsertMany request =>
    StartSucceeds box (nextElement (.insert request.spaceId)) mpNext
      (mpDecodeArray (memory request.tuple)) database
  | .spaceUpdateMany request =>
    StartSucceeds box (countedPair (.update request.spaceId primaryIndexId)) nextPair
      (pairCursors memory request.key request.operations) database
  | .indexUpdateMany request =>
    StartSucceeds box (countedPair (.update request.spaceId request.indexId)) nextPair
      (pairCursors memory request.key request.operations) database
  | .spaceSelect request =>
    SelectSucceeds box memory (fun key => ⟨request.spaceId, primaryIndexId, request.iteratorType,
      request.offset, request.limit, key⟩) request.key request.keySize database
  | .indexSelect request =>
    SelectSucceeds box memory (fun key => ⟨request.spaceId, request.indexId, request.iteratorType,
      request.offset, request.limit, key⟩) request.key request.keySize database
  | .iteratorNextMany iterator inputSize => NextSucceeds box iterator inputSize [] database
  | _ => True

/-- The condition of an action. -/
def NothingFails (pooled : Pooled Database Tuple) : Action Tuple → Prop
  | .request request memory _ => Succeeds box memory pooled.client.native.database request
  | .free _ => True

/-! ## What a handler with a port answers -/

/-- A handler answers with a port where its calls succeed, and with an error otherwise. -/
def AnswersPort (succeeds : Prop) (reply : Reply Tuple) : Prop :=
  succeeds ∧ (∃ entries, reply = .port entries) ∨ ¬succeeds ∧ reply = .error

section Handlers

variable {box} {memory} {native after : Native Database Tuple} {reply : Reply Tuple}

/-- The loop of a batch, by induction on the elements. -/
theorem answers_batchLoop {Cursor : Type} {before : Database} {call : Cursor → Option BoxCall}
    {next : Cursor → Option Cursor} {count : ℕ} {cursor : Cursor} {entries : List Tuple}
    (hloop : batchLoop box before call next count cursor entries native = some (reply, after)) :
    AnswersPort (BatchSucceeds box call next count cursor entries native.database) reply := by
  induction count generalizing cursor entries native with
  | zero =>
    unfold batchLoop at hloop
    by_cases hcommit : box.commitFails native.database = true
    · rw [if_pos hcommit] at hloop
      cases hloop
      apply Or.inr
      refine ⟨fun hsucc => ?_, rfl⟩
      exact Bool.false_ne_true (hsucc.symm.trans hcommit)
    · rw [if_neg hcommit] at hloop
      cases hloop
      exact .inl ⟨Bool.eq_false_of_not_eq_true hcommit, entries, rfl⟩
  | succ count ih =>
    unfold batchLoop at hloop
    obtain ⟨boxCall, hcall, hloop⟩ := Option.bind_eq_some_iff.mp hloop
    rcases hres : box.call boxCall native.database with ⟨result, database⟩
    rw [hres] at hloop
    cases result with
    | error =>
      cases hloop
      apply Or.inr
      refine ⟨?_, rfl⟩
      rintro ⟨other, tuple, _, _, hother, htuple, -⟩
      obtain rfl := Option.some.inj (hcall.symm.trans hother)
      rw [hres] at htuple
      cases htuple
    | null => cases hloop
    | tuple first =>
      dsimp only at hloop
      split at hloop
      · next hfull =>
        cases hloop
        apply Or.inr
        refine ⟨?_, rfl⟩
        rintro ⟨_, _, _, _, -, -, hfits, -⟩
        exact Bool.false_ne_true (hfits.symm.trans hfull)
      · next hfits =>
        obtain ⟨rest, hnext, hloop⟩ := Option.bind_eq_some_iff.mp hloop
        rcases ih hloop with ⟨hsucc, hreply⟩ | ⟨hfails, hreply⟩
        · apply Or.inl
          refine ⟨⟨boxCall, first, database, rest, hcall, hres, ?_, hnext, hsucc⟩, hreply⟩
          exact Bool.eq_false_of_not_eq_true hfits
        · apply Or.inr
          refine ⟨?_, hreply⟩
          rintro ⟨other, tuple, later, rest', hother, htuple, -, hrest, hsucc⟩
          obtain rfl := Option.some.inj (hcall.symm.trans hother)
          obtain rfl := Option.some.inj (hnext.symm.trans hrest)
          obtain ⟨hfirst, rfl⟩ := Prod.mk.inj (hres.symm.trans htuple)
          cases hfirst
          exact hfails hsucc

theorem answers_start {Cursor : Type} {call : Cursor → Option BoxCall}
    {next : Cursor → Option Cursor} (start : Option (ℕ × Cursor))
    (hhandler : (start.bind fun first =>
      batchLoop box native.database call next first.1 first.2 [] native) = some (reply, after)) :
    AnswersPort (StartSucceeds box call next start native.database) reply := by
  obtain ⟨⟨count, cursor⟩, rfl, hloop⟩ := Option.bind_eq_some_iff.mp hhandler
  have hiff : StartSucceeds box call next (some (count, cursor)) native.database ↔
      BatchSucceeds box call next count cursor [] native.database := by
    constructor
    · rintro ⟨_, _, hstart, hsucc⟩
      cases hstart
      exact hsucc
    · exact fun hsucc => ⟨count, cursor, rfl, hsucc⟩
  unfold AnswersPort
  rw [hiff]
  exact answers_batchLoop hloop

theorem answers_selectPort {selection : Uint8List → Selection} {key keySize : ℕ}
    (hhandler : selectPort box memory selection key keySize native = some (reply, after)) :
    AnswersPort (SelectSucceeds box memory selection key keySize native.database) reply := by
  obtain ⟨read, hread, hselect⟩ := Option.bind_eq_some_iff.mp hhandler
  cases htuples : box.select (selection read) native.database with
  | none =>
    rw [htuples] at hselect
    cases hselect
    apply Or.inr
    refine ⟨?_, rfl⟩
    rintro ⟨other, tuples, hother, hsome⟩
    obtain rfl := Option.some.inj (hread.symm.trans hother)
    exact Option.some_ne_none tuples (hsome.symm.trans htuples)
  | some tuples =>
    rw [htuples] at hselect
    cases hselect
    exact .inl ⟨⟨read, tuples, hread, htuples⟩, tuples, rfl⟩

/-- The loop of an iterator, by induction on what is missing. -/
theorem answers_nextLoop {iterator found : ℕ} {entries : List Tuple}
    (hloop : nextLoop box iterator found entries native = some (reply, after)) :
    AnswersPort (NextSucceeds box iterator found entries native.database) reply := by
  induction found generalizing entries native with
  | zero =>
    cases hloop
    exact .inl ⟨trivial, entries, rfl⟩
  | succ found ih =>
    unfold nextLoop at hloop
    rcases hres : box.call (.iteratorNext iterator) native.database with ⟨result, database⟩
    rw [hres] at hloop
    cases result with
    | error | null =>
      cases hloop
      apply Or.inr
      refine ⟨?_, rfl⟩
      rintro ⟨tuple, _, htuple, -⟩
      rw [hres] at htuple
      cases htuple
    | tuple first =>
      dsimp only at hloop
      split at hloop
      · next hfull =>
        cases hloop
        apply Or.inr
        refine ⟨?_, rfl⟩
        rintro ⟨_, _, -, hfits, -⟩
        exact Bool.false_ne_true (hfits.symm.trans hfull)
      · next hfits =>
        rcases ih hloop with ⟨hsucc, hreply⟩ | ⟨hfails, hreply⟩
        · apply Or.inl
          exact ⟨⟨first, database, hres, Bool.eq_false_of_not_eq_true hfits, hsucc⟩, hreply⟩
        · apply Or.inr
          refine ⟨?_, hreply⟩
          rintro ⟨tuple, later, htuple, -, hsucc⟩
          obtain ⟨hfirst, rfl⟩ := Prod.mk.inj (hres.symm.trans htuple)
          cases hfirst
          exact hfails hsucc

/-- What the handlers with a port answer. -/
theorem answers_handler {request : Request} (htakes : request.takesPort = true)
    (hhandler : request.handler box memory native = some (reply, after)) :
    AnswersPort (Succeeds box memory native.database request) reply := by
  cases request with
  | spacePutMany request | spaceDeleteMany request | spaceInsertMany request =>
    exact answers_start (mpDecodeArray (memory request.tuple)) hhandler
  | spaceUpdateMany request | indexUpdateMany request =>
    exact answers_start (pairCursors memory request.key request.operations) hhandler
  | spaceSelect request | indexSelect request => exact answers_selectPort hhandler
  | iteratorNextMany iterator inputSize => exact answers_nextLoop hhandler
  | _ => cases htakes

end Handlers

/-! ## Runs -/

variable {box} {pooled next : Pooled Database Tuple}

variable {request : Request}

omit [DecidableEq Tuple] in
/-- Only the handlers with a port answer a request for one. -/
theorem countP_receives (h : request.takesPort = false) (output : Option (Output Tuple)) :
    (request.expects.receives output).countP Received.isPort = 0 := by
  cases request with
  | iteratorNextMany | spaceInsertMany | spacePutMany | spaceDeleteMany | spaceUpdateMany
  | spaceSelect
  | indexUpdateMany | indexSelect => cases h
  | _ =>
    rcases output with - | output
    · rfl
    · cases output <;> rfl

omit [DecidableEq Tuple] in
/-- The handlers with a port are those whose answer the client takes for one. -/
theorem expects_of_takesPort (h : request.takesPort = true) : request.expects = .port := by
  cases request with
  | iteratorNextMany | spaceInsertMany | spacePutMany | spaceDeleteMany | spaceUpdateMany
  | spaceSelect
  | indexUpdateMany | indexSelect => rfl
  | _ => cases h

/-- What a request does to the pool and to the client. -/
theorem step_request {memory : ℕ → Uint8List} {output : Output Tuple}
    (hstep : step box pooled (.request request memory output) = some next) :
    (request.takesPort = false ∧ next.ports = pooled.ports ∧
      next.client.outputs.countP Received.isPort = pooled.client.outputs.countP Received.isPort) ∨
    request.takesPort = true ∧ next.ports = pooled.ports.alloc ∧
      (Succeeds box memory pooled.client.native.database request ∧
          next.client.outputs.countP Received.isPort =
            pooled.client.outputs.countP Received.isPort + 1 ∨
        ¬Succeeds box memory pooled.client.native.database request ∧
          next.client.outputs.countP Received.isPort =
            pooled.client.outputs.countP Received.isPort) := by
  obtain ⟨client, hclient, hnext⟩ := Option.bind_eq_some_iff.mp hstep
  cases hnext
  obtain ⟨⟨reply, native⟩, hhandler, hclient⟩ := Option.bind_eq_some_iff.mp hclient
  cases hclient
  have hports : pooled.portsBehind (.request request memory output) = request.ports pooled.ports :=
    rfl
  dsimp only
  rw [hports, List.countP_append]
  unfold Request.ports
  cases htakes : request.takesPort with
  | false =>
    apply Or.inl
    refine ⟨rfl, rfl, ?_⟩
    rw [countP_receives htakes, Nat.add_zero]
  | true =>
    apply Or.inr
    refine ⟨rfl, rfl, ?_⟩
    rw [expects_of_takesPort htakes]
    rcases answers_handler htakes hhandler with ⟨hsucc, entries, rfl⟩ | ⟨hfails, rfl⟩
    · exact .inl ⟨hsucc, rfl⟩
    · exact .inr ⟨hfails, rfl⟩

/-- A port that is freed is one less on both sides. -/
theorem step_free {index : ℕ} (hstep : step box pooled (.free index) = some next)
    (hbal : pooled.PortsBalanced) : next.PortsBalanced := by
  obtain ⟨client, hclient, hnext⟩ := Option.bind_eq_some_iff.mp hstep
  cases hnext
  unfold PortsBalanced at hbal ⊢
  unfold portsBehind
  unfold Storage.step at hclient
  dsimp only at hclient ⊢
  cases hidx : pooled.client.outputs[index]? with
  | none =>
    rw [hidx] at hclient
    cases hclient
    exact hbal
  | some received =>
    rw [hidx] at hclient
    obtain ⟨native, -, hclient⟩ := Option.bind_eq_some_iff.mp hclient
    cases hclient
    obtain ⟨hpos, hreceived⟩ := List.getElem?_eq_some_iff.mp hidx
    have hcount := (List.getElem_cons_eraseIdx_perm hpos).countP_eq Received.isPort
    rw [hreceived, List.countP_cons] at hcount
    cases received with
    | tuple output =>
      rw [if_neg (show ¬(Received.tuple output).isPort = true from Bool.false_ne_true),
        Nat.add_zero] at hcount
      show (pooled.ports.taken : ℤ) - pooled.ports.returned = _
      rw [hcount]
      exact hbal
    | port output =>
      rw [if_pos (show (Received.port output).isPort = true from rfl)] at hcount
      rw [← hcount] at hbal
      show (pooled.ports.taken : ℤ) - (pooled.ports.returned + 1 : ℕ) = _
      push_cast at hbal ⊢
      omega

theorem PortsBalanced.step {action : Action Tuple} (h : pooled.PortsBalanced)
    (hnothing : NothingFails box pooled action) (hstep : step box pooled action = some next) :
    next.PortsBalanced := by
  cases action with
  | free index => exact step_free hstep h
  | request request memory output =>
    unfold PortsBalanced at h ⊢
    rcases step_request hstep with ⟨-, hports, hcount⟩ | ⟨-, hports, ⟨-, hcount⟩ | ⟨hfails, -⟩⟩
    · rw [hports, hcount]
      exact h
    · rw [hports, hcount]
      unfold TuplePorts.alloc
      push_cast
      omega
    · exact absurd hnothing hfails

/-- A request that fails keeps its port. -/
theorem not_portsBalanced {action : Action Tuple} (h : pooled.PortsBalanced)
    (hfails : ¬NothingFails box pooled action) (hstep : step box pooled action = some next) :
    ¬next.PortsBalanced := by
  cases action with
  | free index => exact absurd trivial hfails
  | request request memory output =>
    unfold PortsBalanced at h ⊢
    rcases step_request hstep with ⟨htakes, -⟩ | ⟨-, hports, ⟨hsucc, -⟩ | ⟨-, hcount⟩⟩
    · -- The other requests have no port that they could keep.
      apply absurd _ hfails
      cases request with
      | iteratorNextMany | spaceInsertMany | spacePutMany | spaceDeleteMany | spaceUpdateMany
      | spaceSelect | indexUpdateMany | indexSelect => cases htakes
      | _ => trivial
    · exact absurd hsucc hfails
    · rw [hports, hcount]
      unfold TuplePorts.alloc
      push_cast
      omega

/-- The pool is in balance wherever the client stops, if and only if no request for a port fails. -/
theorem portsBalanced_iff (box : Box Database Tuple) (database : Database)
    (actions : List (Action Tuple))
    {last : Pooled Database Tuple} (hrun : run (step box) (start database) actions = some last) :
    Throughout (step box) PortsBalanced (start database) actions ↔
      Along (step box) (NothingFails box) (start database) actions := by
  apply throughout_iff PortsBalanced
  · exact fun _ h => h
  · exact fun _ _ _ h hnothing hstep => h.step hnothing hstep
  · exact fun _ _ _ h hfails hstep => not_portsBalanced h hfails hstep
  · rfl
  · exact hrun

/-- Two tuples of an iterator, and the port of them that is freed. -/
theorem portsBalanced_iff_next : ∃ last, run (step lucky) (start ())
    [.request (.iteratorNextMany 5 2) (fun _ => []) .null, .free 0] = some last ∧
      (Throughout (step lucky) PortsBalanced (start ())
          [.request (.iteratorNextMany 5 2) (fun _ => []) .null, .free 0] ↔
        Along (step lucky) (NothingFails lucky) (start ())
          [.request (.iteratorNextMany 5 2) (fun _ => []) .null, .free 0]) := by
  refine ⟨?last, ?run, portsBalanced_iff lucky () _ ?run⟩
  case run => rfl

/-- A select that fails: its port is neither the client's nor the pool's. -/
theorem not_portsBalanced_select : ¬∀ actions : List (Action ℕ), ∀ last,
    run (step lucky) (start ()) actions = some last → last.PortsBalanced := by
  intro hall
  have hbalanced := hall
    [.request (.spaceSelect ⟨1, 0, 512, 0, 10, 0⟩) (fun _ => [0x90]) .null] _ rfl
  unfold PortsBalanced at hbalanced
  cases hbalanced

end Pooled

end FengShui.Storage
