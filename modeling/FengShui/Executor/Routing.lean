import FengShui.Executor.Executor
import Mathlib.Logic.Function.Basic

/-!
# Calls between executors (`producer.dart`, `registry.dart` and `executor.c` of `executor`)

Rings send each other the addresses of tasks in shared memory: a call goes to its target, where a
handler writes the task, and the answer goes back to the source, where the owner, the method and the
id in the task lead to the completer. Messages arrive in any order. Whether a ring has a free entry
is open, so that a call may be refused and an answer may be given up.

A call has a number, and a message carries the number of its call; the code knows neither.
-/

namespace FengShui.Executors

/-! ## Tasks -/

/-- What the handler and its caller read and write. -/
structure TaskData where
  input : ℕ
  inputSize : ℕ
  output : ℕ
  outputSize : ℕ
  deriving DecidableEq

/-- A task in memory. -/
structure TaskRecord where
  header : ExecutorTask
  data : TaskData
  deriving DecidableEq

/-- The flag and the data of a task. -/
def TaskRecord.content (record : TaskRecord) : Bool × TaskData :=
  (record.header.outputEvent, record.data)

def TaskRecord.write (content : Bool × TaskData) (record : TaskRecord) : TaskRecord :=
  ⟨{ record.header with outputEvent := content.1 }, content.2⟩

namespace ExecutorTask

/-- The descriptors of a task that is sent to a target. -/
def sendCall (source target : ℕ) (task : ExecutorTask) : ExecutorTask :=
  { task with source := source, target := target }

/-- The descriptors of a task that is sent back. -/
def sendCallback (source : ℕ) (task : ExecutorTask) : ExecutorTask :=
  { task with source := source, target := task.source }

/-- `executor_call_native`. -/
def callNative (descriptor target : ℕ) : ExecutorTask → ExecutorTask := sendCall descriptor target

/-- `executor_call_dart`. -/
def callDart (descriptor target : ℕ) : ExecutorTask → ExecutorTask := sendCall descriptor target

/-- `executor_callback_to_native`. -/
def callbackToNative (descriptor : ℕ) : ExecutorTask → ExecutorTask := sendCallback descriptor

/-- `executor_callback_to_dart`. -/
def callbackToDart (descriptor : ℕ) : ExecutorTask → ExecutorTask := sendCallback descriptor

end ExecutorTask

/-! ## Producers and consumers -/

/-- `ExecutorMethodImplementation`: its `_calls` have the numbers of the calls in place of
completers. -/
structure MethodImplementation where
  methodId : ℕ
  executorId : ℕ
  calls : DartMap ℕ ℕ

/-- `ExecutorProducerImplementation`, with all methods that it returned: `_methods` has the place of
one of them for each address. -/
structure ProducerImplementation where
  id : ℕ
  methods : DartMap ℕ ℕ
  objects : List MethodImplementation

/-- `ExecutorProducerImplementation.register`. -/
def ProducerImplementation.register (address : ℕ) (producer : ProducerImplementation) :
    ProducerImplementation :=
  { producer with
    methods := producer.methods.set address producer.objects.length
    objects := producer.objects ++ [⟨address, producer.id, .empty⟩] }

/-- The registries of a broker: the number of callbacks of each consumer, and the producers. -/
structure Registries where
  consumers : List ℕ
  producers : List ProducerImplementation

namespace Registries

/-- `ExecutorProducerRegistry.register`. -/
def registerProducer (registries : Registries) : Registries :=
  { registries with
    producers := registries.producers ++ [⟨registries.producers.length, .empty, []⟩] }

/-- `ExecutorConsumerRegistry.register`. -/
def registerConsumer (callbacks : ℕ) (registries : Registries) : Registries :=
  { registries with consumers := registries.consumers ++ [callbacks] }

def registerMethod (producer address : ℕ) (registries : Registries) : Registries :=
  { registries with producers := registries.producers.modify producer (·.register address) }

/-- A method that a producer returned. -/
def object? (producer index : ℕ) (registries : Registries) : Option MethodImplementation :=
  registries.producers[producer]?.bind fun producer => producer.objects[index]?

/-- A change of the `_calls` of a method. -/
def updateCalls (producer index : ℕ) (update : DartMap ℕ ℕ → DartMap ℕ ℕ)
    (registries : Registries) :
    Registries :=
  { registries with producers := registries.producers.modify producer fun producer =>
      { producer with objects := producer.objects.modify index fun method =>
        { method with calls := update method.calls } } }

/-- `_consumers[owner]` and `_callbacks[method]` are there. -/
def isConsumer (task : ExecutorTask) (registries : Registries) : Bool :=
  registries.consumers[task.owner]?.any fun callbacks => task.method < callbacks

end Registries

/-- A ring of an executor, or one that native code serves. -/
inductive Ring where
  | dart (registries : Registries)
  | native

/-! ## The network -/

/-- A completer, up to the time when the future of the caller ended. -/
inductive Completer where
  | waiting
  | completed
  | failed
  | released
  deriving DecidableEq

/-- A call of a method, or of native code. -/
structure Call where
  executor : ℕ
  /-- The producer and the method. -/
  method : Option (ℕ × ℕ)
  address : ℕ
  completer : Completer
  /-- What the task had when it was sent, or what the handler wrote last. -/
  content : Bool × TaskData

/-- The answer of the call was not delivered to the caller yet. -/
def Call.isOutstanding (call : Call) : Bool :=
  call.completer = .waiting || call.completer = .completed

/-- A message in a ring. -/
structure Message where
  /-- `EXECUTOR_CALLBACK`, and not `EXECUTOR_CALL`. -/
  answer : Bool
  target : ℕ
  address : ℕ
  number : ℕ
  deriving DecidableEq

/-- An answer that was dispatched: where, which completer it completed, and with what. -/
structure Answer where
  number : ℕ
  executor : ℕ
  address : ℕ
  completer : Option ℕ
  content : Bool × TaskData
  deriving DecidableEq

structure Network where
  rings : ℕ → Option Ring
  memory : ℕ → TaskRecord
  /-- What was sent and not dispatched. -/
  flight : List Message
  /-- What was dispatched by a wakeup that has not advanced its queue. -/
  batches : List Message
  /-- The tasks whose handlers run. -/
  handling : List Message
  calls : List Call
  answers : List Answer

inductive NetworkAction where
  | create (descriptor : ℕ) (native : Bool)
  | registerConsumer (descriptor callbacks : ℕ)
  | registerProducer (descriptor : ℕ)
  | registerMethod (descriptor producer address : ℕ)
  /-- A caller writes a task that it may use. -/
  | fill (address : ℕ) (record : TaskRecord)
  /-- `ExecutorMethodImplementation.call`, where the ring has no free entry. -/
  | refuse (descriptor producer index address : ℕ)
  /-- `ExecutorMethodImplementation.call`. -/
  | call (descriptor producer index target address : ℕ)
  /-- Native code calls. -/
  | callDart (descriptor target address : ℕ)
  /-- A completion is dispatched, and the callback of a consumer throws or returns a future. -/
  | dispatch (message : Message) (throws : Bool)
  /-- A wakeup ends. -/
  | advance (descriptor : ℕ)
  /-- A handler writes its task. -/
  | write (message : Message) (content : Bool × TaskData)
  /-- A handler ends, and its ring sends the answer. -/
  | respond (message : Message)
  /-- A handler ends without an answer: it failed, or its ring has no free entry. -/
  | abandon (message : Message)
  /-- `_onComplete`. -/
  | complete (number : ℕ)

namespace Network

/-- No ring, and nothing sent. -/
def initial (memory : ℕ → TaskRecord) : Network := ⟨fun _ => none, memory, [], [], [], [], []⟩

/-- A task whose call has no delivered answer. -/
def isUsed (network : Network) (address : ℕ) : Bool :=
  network.calls.any fun call => call.isOutstanding && call.address = address

def setRing (network : Network) (descriptor : ℕ) (ring : Ring) : Network :=
  { network with rings := Function.update network.rings descriptor (some ring) }

def setTask (network : Network) (address : ℕ) (record : TaskRecord) : Network :=
  { network with memory := Function.update network.memory address record }

/-- The task as it is sent by a method. -/
def methodTask (method : MethodImplementation) (address : ℕ) (record : TaskRecord) : TaskRecord :=
  { record with header := { record.header with
      id := address, owner := method.executorId, method := method.methodId } }

/-- A task is sent, and its call gets the next number. -/
def send (network : Network) (source target address : ℕ)
    (method : Option (ℕ × ℕ)) (record : TaskRecord) :
    Network :=
  { network.setTask address record with
    flight := network.flight ++ [⟨false, target, address, network.calls.length⟩]
    calls := network.calls ++ [⟨source, method, address, .waiting, record.content⟩] }

/-- `ExecutorMethodImplementation.call`, with an entry of the ring. -/
def callMethod (network : Network) (registries : Registries) (method : MethodImplementation)
    (descriptor producer index target address : ℕ) : Network :=
  let record := methodTask method address (network.memory address)
  (network.send descriptor target address (some (producer, index))
    { record with header := record.header.callNative descriptor target }).setRing descriptor
      (.dart (registries.updateCalls producer index (·.set address network.calls.length)))

/-- What is dispatched is left in the queue up to the end of the wakeup. -/
def take (network : Network) (message : Message) : Network :=
  { network with flight := network.flight.erase message, batches := network.batches ++ [message] }

/-- What is thrown leaves the completions of the wakeup in the queue, for the next one. -/
def throws (network : Network) (message : Message) : Network :=
  { network with
    flight := network.flight ++ network.batches.filter (·.target = message.target)
    batches := network.batches.filter (·.target ≠ message.target) }

/-- The answer of a message, and the completer that it completes. -/
def answer (network : Network) (message : Message) (completer : Option ℕ) : Answer :=
  ⟨message.number, message.target, message.address, completer,
    (network.memory message.address).content⟩

/-- An answer completes a completer, or none. -/
def deliver (network : Network) (message : Message)
    (completer : Option (ℕ × Completer)) : Network :=
  { network.take message with
    calls := (completer.map fun completer => network.calls.modify completer.1 fun call =>
      { call with completer := completer.2 }).getD network.calls
    answers := network.answers ++ [network.answer message (completer.map Prod.fst)] }

/-- `ExecutorProducerRegistry.callback`. -/
def callback (network : Network) (message : Message) (registries : Registries) : Network :=
  let task := (network.memory message.address).header
  match registries.producers[task.owner]? with
  | none => network.throws message
  | some producer =>
    match (producer.methods.get? task.method).bind fun index => producer.objects[index]? with
    | none => network.deliver message none
    | some method =>
      match method.calls.get? task.id with
      | none => network.deliver message none
      | some number =>
        -- The completer must not be completed.
        if (network.calls[number]?.map Call.completer) = some .waiting then
          network.deliver message (some (number, if task.outputEvent then .failed else .completed))
        else network.throws message

/-- Whether a handler takes a call. -/
def handles (network : Network) (message : Message) (throws : Bool) : Bool :=
  match network.rings message.target with
  | none => false
  | some .native => true
  | some (.dart registries) =>
    registries.isConsumer (network.memory message.address).header && !throws

def dispatch (network : Network) (message : Message) (throws : Bool) : Option Network :=
  if message ∉ network.flight then none
  else
    match message.answer, network.rings message.target with
    | _, none => none
    | false, some _ =>
      if network.handles message throws then
        some { network.take message with handling := network.handling ++ [message] }
      else some (network.throws message)
    | true, some (.dart registries) => some (network.callback message registries)
    -- Native code gets its own answer.
    | true, some .native =>
      some { network.take message with
        calls :=
          network.calls.modify message.number fun call => { call with completer := .released }
        answers := network.answers ++ [network.answer message none] }

/-- A handler writes its task. -/
def writeTask (network : Network) (message : Message) (content : Bool × TaskData) : Network :=
  { network.setTask message.address ((network.memory message.address).write content) with
    calls := network.calls.modify message.number fun call => { call with content := content } }

/-- The answer goes to the source of the task. -/
def respond (network : Network) (message : Message) (ring : Ring) : Network :=
  let record := network.memory message.address
  let header := match ring with
    | .dart _ => record.header.callbackToNative message.target
    | .native => record.header.callbackToDart message.target
  { network.setTask message.address { record with header := header } with
    flight := network.flight ++ [⟨true, header.target, message.address, message.number⟩]
    handling := network.handling.erase message }

/-- `_onComplete`. -/
def onComplete (network : Network) (number : ℕ) (call : Call) : Option Network :=
  match call.method, network.rings call.executor with
  | some (producer, index), some (.dart registries) =>
    if call.completer = .completed then
      some { network.setRing call.executor
          (.dart (registries.updateCalls producer index (·.remove call.address))) with
        calls := network.calls.modify number fun call => { call with completer := .released } }
    else none
  | _, _ => none

/-- A change of the registries of an executor. -/
def register (network : Network) (descriptor : ℕ) (update : Registries → Registries) :
    Option Network :=
  match network.rings descriptor with
  | some (.dart registries) => some (network.setRing descriptor (.dart (update registries)))
  | _ => none

/-- A method that a producer of an executor returned. -/
def method? (network : Network) (descriptor producer index : ℕ) :
    Option (Registries × MethodImplementation) :=
  match network.rings descriptor with
  | some (.dart registries) => (registries.object? producer index).map (registries, ·)
  | _ => none

/-- One action, `none` when it cannot happen. -/
def step (network : Network) : NetworkAction → Option Network
  | .create descriptor native =>
    if (network.rings descriptor).isSome then none
    else some (network.setRing descriptor (if native then .native else .dart ⟨[], []⟩))
  | .registerConsumer descriptor callbacks =>
    network.register descriptor (·.registerConsumer callbacks)
  | .registerProducer descriptor => network.register descriptor Registries.registerProducer
  | .registerMethod descriptor producer address =>
    network.register descriptor (·.registerMethod producer address)
  | .fill address record =>
    if network.isUsed address then none else some (network.setTask address record)
  | .refuse descriptor producer index address =>
    if network.isUsed address then none
    else (network.method? descriptor producer index).map fun method =>
      network.setTask address (methodTask method.2 address (network.memory address))
  | .call descriptor producer index target address =>
    if network.isUsed address then none
    else (network.method? descriptor producer index).map fun method =>
      network.callMethod method.1 method.2 descriptor producer index target address
  | .callDart descriptor target address =>
    if network.isUsed address then none
    else
      match network.rings descriptor with
      | some .native =>
        let record := network.memory address
        some (network.send descriptor target address none
          { record with header := record.header.callDart descriptor target })
      | _ => none
  | .dispatch message throws => network.dispatch message throws
  | .advance descriptor =>
    some { network with batches := network.batches.filter (·.target ≠ descriptor) }
  | .write message content =>
    if message ∈ network.handling then some (network.writeTask message content) else none
  | .respond message =>
    if message ∈ network.handling then (network.rings message.target).map (network.respond message)
      else none
  | .abandon message =>
    if message ∈ network.handling then
      some { network with handling := network.handling.erase message }
    else none
  | .complete number => (network.calls[number]?).bind (network.onComplete number)

/-- Every answer came to the executor that issued its call, with the task as the handler wrote it
last, and completed the completer of this call; no answer came twice, and no completer was completed
but by one. -/
structure Routed (network : Network) : Prop where
  answer : ∀ answer ∈ network.answers, ∃ call, network.calls[answer.number]? = some call ∧
    answer.executor = call.executor ∧ answer.address = call.address ∧
      answer.content = call.content ∧
    (call.method.isSome → answer.completer = some answer.number) ∧ call.completer ≠ .waiting
  nodup : (network.answers.map Answer.number).Nodup
  completed : ∀ number call, network.calls[number]? = some call → call.completer ≠ .waiting →
    number ∈ network.answers.map Answer.number

/-- A step that registers no address for a second time, and in which no callback throws. -/
def Careful (network : Network) : NetworkAction → Prop
  | .registerMethod descriptor producer address =>
    ∀ registries, network.rings descriptor = some (.dart registries) →
    ∀ implementation, registries.producers[producer]? = some implementation →
      implementation.methods.get? address = none
  | .dispatch message throws => message.answer = false → network.handles message throws = true
  | _ => True

end Network

end FengShui.Executors
