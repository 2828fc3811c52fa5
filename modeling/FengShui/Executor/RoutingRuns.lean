import FengShui.Executor.Routing

/-!
# Where answers go

An answer finds its completer by what the task says of owner, method and id. As long as no producer
registers an address twice and no callback throws into a wakeup, the task says what its call wrote,
and each call that waits has one message or one handler (`Consistent`). Then every answer is routed
(`routed_of_careful`).
-/

namespace FengShui.Executors

open Transition List

/-! ## Registries -/

namespace Registries

variable {registries : Registries} {producer index : ℕ} {method : MethodImplementation}

/-- Each method is the one that its producer has for its address. -/
structure WellFormed (registries : Registries) : Prop where
  id : ∀ (place : ℕ) (producer : ProducerImplementation),
    registries.producers[place]? = some producer → producer.id = place
  method : ∀ (place : ℕ) (producer : ProducerImplementation),
    registries.producers[place]? = some producer →
    ∀ (index : ℕ) (method : MethodImplementation), producer.objects[index]? = some method →
      method.executorId = place ∧ producer.methods.get? method.methodId = some index

theorem object?_eq_some : registries.object? producer index = some method ↔
    ∃ implementation, registries.producers[producer]? = some implementation ∧
      implementation.objects[index]? = some method := Option.bind_eq_some_iff

theorem wellFormed_empty : (⟨[], []⟩ : Registries).WellFormed where
  id := nofun
  method := nofun

theorem WellFormed.registerConsumer (h : registries.WellFormed) (callbacks : ℕ) :
    (registries.registerConsumer callbacks).WellFormed := ⟨h.id, h.method⟩

theorem WellFormed.registerProducer (h : registries.WellFormed) :
    registries.registerProducer.WellFormed := by
  constructor
  · intro place implementation hplace
    rcases getElem?_concat_eq_some.mp hplace with hold | ⟨rfl, rfl⟩
    · exact h.id place implementation hold
    · rfl
  · intro place implementation hplace index method hmethod
    rcases getElem?_concat_eq_some.mp hplace with hold | ⟨rfl, rfl⟩
    · exact h.method place implementation hold index method hmethod
    · exact absurd hmethod nofun

theorem object?_registerProducer (h : registries.object? producer index = some method) :
    registries.registerProducer.object? producer index = some method := by
  obtain ⟨implementation, hplace, hmethod⟩ := object?_eq_some.mp h
  exact object?_eq_some.mpr ⟨implementation, getElem?_concat_eq_some.mpr (.inl hplace), hmethod⟩

/-- An address that is new to its producer leads to its method, and the others to theirs. -/
theorem WellFormed.registerMethod (h : registries.WellFormed) {address : ℕ}
    (hnew : ∀ implementation, registries.producers[producer]? = some implementation →
      implementation.methods.get? address = none) :
    (registries.registerMethod producer address).WellFormed := by
  constructor
  · intro place implementation hplace
    obtain ⟨old, hold, rfl⟩ := getElem?_modify_eq_some.mp hplace
    split_ifs
    · exact h.id place old hold
    · exact h.id place old hold
  · intro place implementation hplace index method hmethod
    obtain ⟨old, hold, rfl⟩ := getElem?_modify_eq_some.mp hplace
    split_ifs at hmethod ⊢ with hprod
    · rw [← hprod] at hold ⊢
      have hnone := hnew old hold
      rcases getElem?_concat_eq_some.mp hmethod with hmethod | ⟨rfl, rfl⟩
      · obtain ⟨hid, hget⟩ := h.method producer old hold index method hmethod
        have hne : method.methodId ≠ address := by
          intro heq
          rw [heq, hnone] at hget
          exact absurd hget.symm (Option.some_ne_none index)
        refine ⟨hid, ?_⟩
        rw [ProducerImplementation.register, DartMap.get?_set_of_ne _ _ hne, hget]
      · exact ⟨h.id producer old hold, DartMap.get?_set_self _ _ _⟩
    · exact h.method place old hold index method hmethod

theorem object?_registerMethod {address : ℕ} {place : ℕ}
    (h : registries.object? place index = some method) :
    (registries.registerMethod producer address).object? place index = some method := by
  obtain ⟨implementation, hplace, hmethod⟩ := object?_eq_some.mp h
  refine object?_eq_some.mpr ⟨_, getElem?_modify_eq_some.mpr ⟨implementation, hplace, rfl⟩, ?_⟩
  split_ifs
  · exact getElem?_concat_eq_some.mpr (.inl hmethod)
  · exact hmethod

section UpdateCalls

variable {update : DartMap ℕ ℕ → DartMap ℕ ℕ}

/-- The methods behind a change of the calls of one of them. -/
theorem object?_updateCalls {place item : ℕ} {found : MethodImplementation} :
    (registries.updateCalls producer index update).object? place item = some found ↔
      ∃ old, registries.object? place item = some old ∧
        found = if producer = place ∧ index = item then { old with calls := update old.calls }
          else old := by
  rw [object?_eq_some]
  constructor
  · rintro ⟨implementation, hplace, hfound⟩
    obtain ⟨old, hold, rfl⟩ := getElem?_modify_eq_some.mp hplace
    by_cases hprod : producer = place
    · rw [if_pos hprod] at hfound
      obtain ⟨method, hmethod, rfl⟩ := getElem?_modify_eq_some.mp hfound
      refine ⟨method, object?_eq_some.mpr ⟨old, hold, hmethod⟩, ?_⟩
      simp only [hprod, true_and]
    · rw [if_neg hprod] at hfound
      refine ⟨found, object?_eq_some.mpr ⟨old, hold, hfound⟩, ?_⟩
      simp only [hprod, false_and, if_false]
  · rintro ⟨old, hold, rfl⟩
    obtain ⟨implementation, hplace, hmethod⟩ := object?_eq_some.mp hold
    refine ⟨_, getElem?_modify_eq_some.mpr ⟨implementation, hplace, rfl⟩, ?_⟩
    by_cases hprod : producer = place
    · simp only [hprod, if_true, true_and]
      exact getElem?_modify_eq_some.mpr ⟨old, hmethod, rfl⟩
    · simp only [hprod, if_false, false_and]
      exact hmethod

theorem WellFormed.updateCalls (h : registries.WellFormed) :
    (registries.updateCalls producer index update).WellFormed := by
  constructor
  · intro place implementation hplace
    obtain ⟨old, hold, rfl⟩ := getElem?_modify_eq_some.mp hplace
    split_ifs
    · exact h.id place old hold
    · exact h.id place old hold
  · intro place implementation hplace item method hmethod
    obtain ⟨old, hold, rfl⟩ := getElem?_modify_eq_some.mp hplace
    split_ifs at hmethod ⊢
    · obtain ⟨found, hfound, rfl⟩ := getElem?_modify_eq_some.mp hmethod
      split_ifs
      · exact h.method place old hold item found hfound
      · exact h.method place old hold item found hfound
    · exact h.method place old hold item method hmethod

end UpdateCalls

end Registries

namespace Network

variable {network next : Network}

/-! ## The invariant -/

/-- The executor of a call has its method, whose `_calls` have the call, and the task says so. -/
structure Registered (network : Network) (number : ℕ) (call : Call) (producer index : ℕ)
    (registries : Registries) (method : MethodImplementation) : Prop where
  ring : network.rings call.executor = some (.dart registries)
  object : registries.object? producer index = some method
  calls : method.calls.get? call.address = some number
  id : (network.memory call.address).header.id = call.address
  owner : (network.memory call.address).header.owner = producer
  methodId : (network.memory call.address).header.method = method.methodId

/-- What holds of a call whose answer was not delivered. -/
structure Holds (network : Network) (number : ℕ) (call : Call) : Prop where
  content : call.content = (network.memory call.address).content
  native : call.method = none → network.rings call.executor = some .native
  dart : ∀ producer index, call.method = some (producer, index) →
    ∃ registries method, network.Registered number call producer index registries method

/-- A message of a call that waits: the answer goes to the executor of the call, and until then the
task has it as its source. -/
def Carries (network : Network) (message : Message) : Prop :=
  ∃ call, network.calls[message.number]? = some call ∧ call.completer = .waiting ∧
    message.address = call.address ∧
    (if message.answer then message.target = call.executor
      else (network.memory call.address).header.source = call.executor)

structure Consistent (network : Network) : Prop where
  registries : ∀ descriptor registries, network.rings descriptor = some (.dart registries) →
    registries.WellFormed
  holds : ∀ number call, network.calls[number]? = some call → call.isOutstanding = true →
    network.Holds number call
  unique : ∀ (number other : ℕ) (call call' : Call), network.calls[number]? = some call →
    network.calls[other]? = some call' → call.isOutstanding = true → call'.isOutstanding = true →
    call.address = call'.address → number = other
  nodup : ((network.flight ++ network.handling).map Message.number).Nodup
  carries : ∀ message ∈ network.flight ++ network.handling, network.Carries message
  handling : ∀ message ∈ network.handling, message.answer = false
  routed : network.Routed

/-! ## Calls and messages that a step does not touch -/

theorem rings_setRing_self (network : Network) (descriptor : ℕ) (ring : Ring) :
    (network.setRing descriptor ring).rings descriptor = some ring := Function.update_self _ _ _

variable {descriptor number : ℕ} {call : Call} {message : Message}

theorem rings_setRing_of_ne (network : Network) {other : ℕ} (ring : Ring) (h : other ≠ descriptor) :
    (network.setRing descriptor ring).rings other = network.rings other :=
  Function.update_of_ne h _ _

theorem memory_setTask_self (network : Network) (address : ℕ) (record : TaskRecord) :
    (network.setTask address record).memory address = record := Function.update_self _ _ _

theorem memory_setTask_of_ne (network : Network) {address other : ℕ} (record : TaskRecord)
    (h : other ≠ address) : (network.setTask address record).memory other = network.memory other :=
  Function.update_of_ne h _ _

theorem isUsed_eq_false {address : ℕ} (h : network.isUsed address = false)
    (hcall : network.calls[number]? = some call) (hout : call.isOutstanding = true) :
    call.address ≠ address := by
  intro heq
  have hmem : call ∈ network.calls := mem_of_getElem? hcall
  have hany := any_eq_false.mp h call hmem
  simp [hout, heq] at hany

theorem isOutstanding_of_waiting (h : call.completer = .waiting) : call.isOutstanding = true := by
  simp [Call.isOutstanding, h]

/-- A call whose task and executor are as they were. -/
theorem Holds.congr (h : network.Holds number call) (hrings : next.rings = network.rings)
    (hmemory : next.memory call.address = network.memory call.address) :
    next.Holds number call where
  content := by rw [hmemory, h.content]
  native hnone := by rw [hrings, h.native hnone]
  dart producer index hmethod := by
    obtain ⟨registries, method, hreg⟩ := h.dart producer index hmethod
    refine ⟨registries, method, ?_, hreg.object, hreg.calls, ?_, ?_, ?_⟩
    · rw [hrings, hreg.ring]
    · rw [hmemory, hreg.id]
    · rw [hmemory, hreg.owner]
    · rw [hmemory, hreg.methodId]

/-- A call whose task has another content or other descriptors. -/
theorem Holds.record (h : network.Holds number call) {record : TaskRecord}
    (hrings : next.rings = network.rings) (hmemory : next.memory call.address = record)
    (hid : record.header.id = (network.memory call.address).header.id)
    (howner : record.header.owner = (network.memory call.address).header.owner)
    (hmethod : record.header.method = (network.memory call.address).header.method) :
    next.Holds number { call with content := record.content } where
  content := by rw [hmemory]
  native hnone := by rw [hrings, h.native hnone]
  dart producer index hsome := by
    obtain ⟨registries, method, hreg⟩ := h.dart producer index hsome
    refine ⟨registries, method, ?_, hreg.object, hreg.calls, ?_, ?_, ?_⟩
    · rw [hrings, hreg.ring]
    · rw [hmemory, hid, hreg.id]
    · rw [hmemory, howner, hreg.owner]
    · rw [hmemory, hmethod, hreg.methodId]

/-- What holds of a call does not depend on its completer. -/
theorem Holds.completer (h : network.Holds number call) (completer : Completer) :
    network.Holds number { call with completer := completer } where
  content := h.content
  native := h.native
  dart producer index hmethod := by
    obtain ⟨registries, method, hreg⟩ := h.dart producer index hmethod
    exact ⟨registries, method, hreg.ring, hreg.object, hreg.calls, hreg.id,
      hreg.owner, hreg.methodId⟩

theorem Carries.congr (h : network.Carries message)
    (hcalls : next.calls[message.number]? = network.calls[message.number]?)
    (hmemory : next.memory message.address = network.memory message.address) :
    next.Carries message := by
  obtain ⟨call, hcall, hwait, haddr, hsource⟩ := h
  refine ⟨call, hcalls.trans hcall, hwait, haddr, ?_⟩
  rw [haddr] at hmemory
  rwa [hmemory]

namespace Consistent

variable (h : network.Consistent)
include h

variable {number descriptor address target : ℕ} {call : Call} {message : Message}
  {rest flight handling : List Message}

/-- Two calls that wait have different tasks. -/
theorem address_ne {other : ℕ} {call' : Call} (hcall : network.calls[number]? = some call)
    (hcall' : network.calls[other]? = some call') (hout : call.isOutstanding = true)
    (hout' : call'.isOutstanding = true) (hne : number ≠ other) : call.address ≠ call'.address :=
  fun heq => hne (h.unique number other call call' hcall hcall' hout hout' heq)

/-- A message whose call is another one than that of an outstanding call. -/
theorem carries_ne (hcall : network.calls[number]? = some call) (hout : call.isOutstanding = true)
    (hmem : message ∈ network.flight ++ network.handling) (hne : message.number ≠ number) :
    message.address ≠ call.address := by
  obtain ⟨other, hother, hwait, haddr, -⟩ := h.carries message hmem
  rw [haddr]
  exact h.address_ne hother hcall (isOutstanding_of_waiting hwait) hout hne

/-- An answer that came is that of another call than one that waits. -/
theorem answer_ne (hcall : network.calls[number]? = some call) (hwait : call.completer = .waiting)
    {answer : Answer} (hmem : answer ∈ network.answers) : answer.number ≠ number := by
  rintro rfl
  obtain ⟨other, hother, -, -, -, -, hcomp⟩ := h.routed.answer answer hmem
  obtain rfl : call = other := Option.some.inj (hcall.symm.trans hother)
  exact hcomp hwait

/-- Another ring, where the methods of all calls without a delivered answer are as they were. -/
theorem setRing {ring : Ring}
    (hwellFormed : ∀ registries, ring = .dart registries → registries.WellFormed)
    (hnative : network.rings descriptor = some .native → ring = .native)
    (hdart : ∀ registries, network.rings descriptor = some (.dart registries) → ∃ registries',
    ring = .dart registries' ∧ ∀ (number : ℕ) (call : Call), network.calls[number]? = some call →
      call.isOutstanding = true → ∀ producer index method, registries.object? producer index =
      some method → ∃ method', registries'.object? producer index = some method' ∧
      method'.methodId = method.methodId ∧ method'.calls.get? call.address =
      method.calls.get? call.address) : (network.setRing descriptor ring).Consistent where
  registries other registries hring := by
    by_cases hother : other = descriptor
    · rw [hother, rings_setRing_self] at hring
      exact hwellFormed registries (Option.some.inj hring)
    · rw [rings_setRing_of_ne _ _ hother] at hring
      exact h.registries other registries hring
  holds number call hcall hout := by
    have hholds := h.holds number call hcall hout
    refine ⟨hholds.content, fun hnone => ?_, fun producer index hmethod => ?_⟩
    -- A native executor stays one.
    · have hring := hholds.native hnone
      by_cases hother : call.executor = descriptor
      · rw [hother] at hring ⊢
        rw [rings_setRing_self, hnative hring]
      · rw [rings_setRing_of_ne _ _ hother, hring]
    · obtain ⟨registries, method, hreg⟩ := hholds.dart producer index hmethod
      have hring := hreg.ring
      by_cases hother : call.executor = descriptor
      · rw [hother] at hring
        obtain ⟨registries', rfl, hobjs⟩ := hdart registries hring
        obtain ⟨method', hobj, hid, hget⟩ :=
          hobjs number call hcall hout producer index method hreg.object
        refine ⟨registries', method', ?_, hobj, hget.trans hreg.calls, hreg.id,
          hreg.owner, hreg.methodId.trans hid.symm⟩
        rw [hother, rings_setRing_self]
      · refine ⟨registries, method, ?_, hreg.object, hreg.calls, hreg.id,
          hreg.owner, hreg.methodId⟩
        rw [rings_setRing_of_ne _ _ hother, hring]
  unique := h.unique
  nodup := h.nodup
  carries := h.carries
  handling := h.handling
  routed := ⟨h.routed.answer, h.routed.nodup, h.routed.completed⟩

/-- A registration adds to what is there. -/
theorem register {registries registries' : Registries}
    (hring : network.rings descriptor = some (.dart registries))
    (hwellFormed : registries'.WellFormed)
    (hobjs : ∀ producer index method, registries.object? producer index = some method →
      registries'.object? producer index = some method) :
    (network.setRing descriptor (.dart registries')).Consistent := by
  refine h.setRing (fun _ heq => ?_) (fun hnative => ?_) (fun other hother => ?_)
  · rwa [← Ring.dart.inj heq]
  · rw [hring] at hnative
    exact absurd (Option.some.inj hnative) nofun
  · obtain rfl : registries = other := Ring.dart.inj (Option.some.inj (hring.symm.trans hother))
    exact ⟨registries', rfl, fun _ _ _ _ producer index method hmethod =>
      ⟨method, hobjs producer index method hmethod, rfl, rfl⟩⟩

/-- The `_calls` of a method change at an address that no call uses. -/
theorem updateCalls {descriptor producer index address : ℕ} {registries : Registries}
    {update : DartMap ℕ ℕ → DartMap ℕ ℕ}
    (hring : network.rings descriptor = some (.dart registries))
    (hunused : network.isUsed address = false)
    (hupdate : ∀ (calls : DartMap ℕ ℕ) (other : ℕ), other ≠ address →
      (update calls).get? other = calls.get? other) :
    (network.setRing descriptor
      (.dart (registries.updateCalls producer index update))).Consistent := by
  refine h.setRing (fun _ heq => ?_) (fun hnative => ?_) (fun other hother => ?_)
  · rw [← Ring.dart.inj heq]
    exact (h.registries descriptor registries hring).updateCalls
  · rw [hring] at hnative
    exact absurd (Option.some.inj hnative) nofun
  · obtain rfl : registries = other := Ring.dart.inj (Option.some.inj (hring.symm.trans hother))
    refine ⟨_, rfl, fun number call hcall hout place item method hmethod => ?_⟩
    have hne := isUsed_eq_false hunused hcall hout
    refine ⟨_, Registries.object?_updateCalls.mpr ⟨method, hmethod, rfl⟩, ?_, ?_⟩
    · split_ifs <;> rfl
    · split_ifs
      · exact hupdate method.calls call.address hne
      · rfl

/-- Another task at an address that no call uses. -/
theorem setTask (hunused : network.isUsed address = false) (record : TaskRecord) :
    (network.setTask address record).Consistent where
  registries := h.registries
  holds number call hcall hout := by
    refine (h.holds number call hcall hout).congr rfl ?_
    exact memory_setTask_of_ne _ _ (isUsed_eq_false hunused hcall hout)
  unique := h.unique
  nodup := h.nodup
  carries message hmem := by
    have hcarries := h.carries message hmem
    obtain ⟨call, hcall, hwait, haddr, -⟩ := hcarries
    refine (h.carries message hmem).congr rfl ?_
    rw [haddr]
    exact memory_setTask_of_ne _ _ (isUsed_eq_false hunused hcall (isOutstanding_of_waiting hwait))
  handling := h.handling
  routed := ⟨h.routed.answer, h.routed.nodup, h.routed.completed⟩

/-- Messages that only change their places, or go. -/
theorem of_perm {batches : List Message}
    (hperm : (network.flight ++ network.handling).Perm (rest ++ (flight ++ handling)))
    (hhandling : ∀ message ∈ handling, message.answer = false) :
    ({ network with flight := flight, handling := handling, batches := batches } :
      Network).Consistent where
  registries := h.registries
  holds number call hcall hout := (h.holds number call hcall hout).congr rfl rfl
  unique := h.unique
  nodup := by
    have hnodup := (hperm.map Message.number).nodup_iff.mp h.nodup
    rw [map_append] at hnodup
    exact hnodup.of_append_right
  carries message hmem := by
    have hold := hperm.mem_iff.mpr (mem_append_right rest hmem)
    exact (h.carries message hold).congr rfl rfl
  handling := hhandling
  routed := ⟨h.routed.answer, h.routed.nodup, h.routed.completed⟩

/-- A message is the only one of its call. -/
theorem number_ne (hperm : (network.flight ++ network.handling).Perm (message :: rest))
    {other : Message} (hmem : other ∈ rest) : other.number ≠ message.number := by
  have hnodup := (hperm.map Message.number).nodup_iff.mp h.nodup
  rw [map_cons, nodup_cons] at hnodup
  intro heq
  exact hnodup.1 (heq ▸ mem_map_of_mem hmem)

/-- A task is sent that no call uses. -/
theorem send {source : ℕ} {method : Option (ℕ × ℕ)} {record : TaskRecord}
    (hunused : network.isUsed address = false) (hsource : record.header.source = source)
    (hnew : (network.send source target address method record).Holds network.calls.length
      ⟨source, method, address, .waiting, record.content⟩) :
    (network.send source target address method record).Consistent where
  registries := h.registries
  holds number call hcall hout := by
    rcases getElem?_concat_eq_some.mp hcall with hcall | ⟨rfl, rfl⟩
    · refine (h.holds number call hcall hout).congr rfl ?_
      exact memory_setTask_of_ne network record (isUsed_eq_false hunused hcall hout)
    · exact hnew
  unique number other call call' hcall hcall' hout hout' heq := by
    rcases getElem?_concat_eq_some.mp hcall with hcall | ⟨rfl, rfl⟩
    · rcases getElem?_concat_eq_some.mp hcall' with hcall' | ⟨rfl, rfl⟩
      · exact h.unique number other call call' hcall hcall' hout hout' heq
      · exact absurd heq (isUsed_eq_false hunused hcall hout)
    · rcases getElem?_concat_eq_some.mp hcall' with hcall' | ⟨rfl, rfl⟩
      · exact absurd heq.symm (isUsed_eq_false hunused hcall' hout')
      · rfl
  nodup := by
    have hperm : (network.flight ++ [(⟨false, target, address, network.calls.length⟩ : Message)] ++
        network.handling).Perm
          (⟨false, target, address, network.calls.length⟩ ::
              (network.flight ++ network.handling)) := by
      rw [append_assoc]
      exact perm_middle
    refine (hperm.map Message.number).nodup_iff.mpr (nodup_cons.mpr ⟨fun hmem => ?_, h.nodup⟩)
    obtain ⟨message, hmsg, hnum⟩ := mem_map.mp hmem
    -- The number of the new call is behind those of all calls.
    obtain ⟨call, hcall, -⟩ := h.carries message hmsg
    have hlt := List.getElem?_eq_some_iff.mp hcall
    exact absurd hlt.1 (by simp [hnum])
  carries message hmem := by
    have hcases : message ∈ network.flight ++ network.handling ∨
        message = ⟨false, target, address, network.calls.length⟩ := by
      simp only [Network.send, Network.setTask, mem_append, mem_singleton] at hmem ⊢
      tauto
    rcases hcases with hmem | rfl
    · obtain ⟨call, hcall, hwait, haddr, -⟩ := h.carries message hmem
      -- The task of another call is at another address.
      have hne := isUsed_eq_false hunused hcall (isOutstanding_of_waiting hwait)
      refine (h.carries message hmem).congr ?_ ?_
      · exact (getElem?_concat_eq_some.mpr (.inl hcall)).trans hcall.symm
      · rw [← haddr] at hne
        exact memory_setTask_of_ne network record hne
    · refine ⟨_, getElem?_concat_eq_some.mpr (.inr ⟨rfl, rfl⟩), rfl, rfl, ?_⟩
      have hrecord := memory_setTask_self network address record
      rw [← hrecord] at hsource
      exact hsource
  handling := h.handling
  routed := by
    refine ⟨fun answer hmem => ?_, h.routed.nodup, fun number call hcall hcomp => ?_⟩
    · obtain ⟨call, hcall, hans⟩ := h.routed.answer answer hmem
      exact ⟨call, getElem?_concat_eq_some.mpr (.inl hcall), hans⟩
    · rcases getElem?_concat_eq_some.mp hcall with hcall | ⟨rfl, rfl⟩
      · exact h.routed.completed number call hcall hcomp
      · exact absurd rfl hcomp

/-- A call of a method. -/
theorem callMethod {producer index : ℕ} {registries : Registries} {method : MethodImplementation}
    (hring : network.rings descriptor = some (.dart registries))
    (hmethod : registries.object? producer index = some method)
    (hunused : network.isUsed address = false) :
    (network.callMethod registries method descriptor producer index target address).Consistent := by
  -- The new entry of `_calls` comes first.
  have hset := @updateCalls network h descriptor producer index address registries
    (·.set address network.calls.length) hring hunused
    fun calls other hne => DartMap.get?_set_of_ne calls address hne network.calls.length
  obtain ⟨implementation, hplace, hobj⟩ := Registries.object?_eq_some.mp hmethod
  have howner :=
    ((h.registries descriptor registries hring).method producer implementation hplace index
    method hobj).1
  refine hset.send hunused rfl ⟨?_, nofun, ?_⟩
  · rw [Network.send, memory_setTask_self]
  · rintro _ _ ⟨⟩
    refine ⟨_, _, rings_setRing_self _ _ _,
      Registries.object?_updateCalls.mpr ⟨method, hmethod, rfl⟩, ?_, ?_, ?_, ?_⟩
    · rw [if_pos ⟨rfl, rfl⟩]
      exact DartMap.get?_set_self _ _ _
    · exact congrArg (fun record => record.header.id) (memory_setTask_self _ address _)
    · simpa [Network.send, Network.setTask, methodTask, ExecutorTask.callNative,
        ExecutorTask.sendCall] using howner
    · rw [if_pos ⟨rfl, rfl⟩]
      exact congrArg (fun record => record.header.method) (memory_setTask_self _ address _)

/-- Native code calls. -/
theorem callDart (hring : network.rings descriptor = some .native)
    (hunused : network.isUsed address = false) :
    (network.send descriptor target address none { network.memory address with
      header := (network.memory address).header.callDart descriptor target }).Consistent := by
  refine h.send hunused rfl ⟨?_, fun _ => hring, nofun⟩
  rw [Network.send, memory_setTask_self]

/-- Another state of the completer of a call, which no message needs. -/
theorem setCompleter {completer : Completer} (hcall : network.calls[number]? = some call)
    (hout : call.isOutstanding = true) {batches : List Message} {answers : List Answer}
    (hperm : (network.flight ++ network.handling).Perm (rest ++ (flight ++ handling)))
    (hnum : ∀ message ∈ flight ++ handling, message.number ≠ number)
    (hhandling : ∀ message ∈ handling, message.answer = false)
    (hrouted : ({ network with
      calls := network.calls.modify number fun call => { call with completer := completer }
      flight := flight, batches := batches, handling := handling, answers :=
        answers } : Network).Routed) :
    ({ network with
      calls := network.calls.modify number fun call => { call with completer := completer }
      flight := flight, batches := batches, handling := handling, answers :=
        answers } : Network).Consistent where
  registries := h.registries
  holds other call' hcall' hout' := by
    obtain ⟨old, hold, rfl⟩ := getElem?_modify_eq_some.mp hcall'
    by_cases heq : number = other
    · rw [← heq] at hold ⊢
      obtain rfl : call = old := Option.some.inj (hcall.symm.trans hold)
      rw [if_pos rfl]
      exact ((h.holds number call hcall hout).completer completer).congr rfl rfl
    · rw [if_neg heq] at hout' ⊢
      exact (h.holds other old hold hout').congr rfl rfl
  unique first second call' call'' hfirst hsecond houtFirst houtSecond haddress := by
    obtain ⟨old, hold, rfl⟩ := getElem?_modify_eq_some.mp hfirst
    obtain ⟨old', hold', rfl⟩ := getElem?_modify_eq_some.mp hsecond
    -- The call itself has no delivered answer either.
    have hwas : ∀ (other : ℕ) (old : Call), network.calls[other]? = some old →
        (if number = other then { old with completer := completer } else old).isOutstanding = true →
        old.isOutstanding = true := by
      intro other old hold hafter
      split_ifs at hafter with heq
      · rw [← heq, hcall] at hold
        rwa [← Option.some.inj hold]
      · exact hafter
    refine h.unique first second old old' hold hold' (hwas first old hold houtFirst)
      (hwas second old' hold' houtSecond) ?_
    split_ifs at haddress <;> exact haddress
  nodup := by
    have hnodup := (hperm.map Message.number).nodup_iff.mp h.nodup
    rw [map_append] at hnodup
    exact hnodup.of_append_right
  carries message hmem := by
    have hold := hperm.mem_iff.mpr (mem_append_right rest hmem)
    refine (h.carries message hold).congr ?_ rfl
    exact getElem?_modify_ne _ _ (hnum message hmem).symm
  handling := hhandling
  routed := hrouted

/-- A completer that waits is completed by the only message of its call. -/
theorem answered {completer : Completer} {found : Option ℕ} (hmem : message ∈ network.flight)
    (hcall : network.calls[message.number]? = some call) (hwait : call.completer = .waiting)
    (haddr : message.address = call.address) (htarget : message.target = call.executor)
    (hcompleter : completer ≠ .waiting)
    (hfound : call.method.isSome → found = some message.number) :
    ({ network with
      calls := network.calls.modify message.number fun call => { call with completer := completer }
      flight := network.flight.erase message
      batches := network.batches ++ [message]
      answers := network.answers ++ [network.answer message found] } : Network).Consistent := by
  have hout := isOutstanding_of_waiting hwait
  have hperm : (network.flight ++ network.handling).Perm
      ([message] ++ (network.flight.erase message ++ network.handling)) :=
    (perm_cons_erase hmem).append_right network.handling
  refine h.setCompleter hcall hout hperm (fun other hother => h.number_ne hperm hother) h.handling
    ⟨fun answer hans => ?_, ?_, fun number call' hcall' hcomp => ?_⟩
  · rcases mem_append.mp hans with hans | hans
    -- The call still waits, so that no answer before was for it.
    · have hne := h.answer_ne hcall hwait hans
      obtain ⟨old, hold, hrest⟩ := h.routed.answer answer hans
      exact ⟨old, (getElem?_modify_ne _ _ hne.symm).trans hold, hrest⟩
    · obtain rfl := mem_singleton.mp hans
      have hcont := (h.holds message.number call hcall hout).content
      refine ⟨_, getElem?_modify_eq_some.mpr ⟨call, hcall, (if_pos rfl).symm⟩, htarget, haddr,
        ?_, hfound, hcompleter⟩
      rw [Network.answer, haddr, hcont]
  · rw [map_append]
    refine h.routed.nodup.append (nodup_singleton _) fun number hold hnew => ?_
    obtain rfl := mem_singleton.mp hnew
    obtain ⟨answer, hans, hnum⟩ := mem_map.mp hold
    exact h.answer_ne hcall hwait hans hnum
  · rw [map_append]
    obtain ⟨old, hold, rfl⟩ := getElem?_modify_eq_some.mp hcall'
    -- The new answer is for the call that is completed.
    by_cases heq : message.number = number
    · rw [← heq]
      exact mem_append_right _ mem_cons_self
    · rw [if_neg heq] at hcomp
      exact mem_append_left _ (h.routed.completed number old hold hcomp)

/-- `_onComplete`: the caller may use the task again. -/
theorem release {number : ℕ} {call : Call} (hcall : network.calls[number]? = some call)
    (hcomp : call.completer = .completed) :
    ({ network with
      calls := network.calls.modify number fun call =>
        { call with completer := .released } } : Network).Consistent := by
  have hout : call.isOutstanding = true := by simp [Call.isOutstanding, hcomp]
  have hnum : ∀ message ∈ network.flight ++ network.handling, message.number ≠ number := by
    rintro message hmem rfl
    obtain ⟨other, hother, hwait, -⟩ := h.carries message hmem
    obtain rfl : call = other := Option.some.inj (hcall.symm.trans hother)
    rw [hcomp] at hwait
    exact absurd hwait nofun
  have hperm : (network.flight ++ network.handling).Perm
    ([] ++ (network.flight ++ network.handling)) := .refl _
  refine h.setCompleter hcall hout hperm hnum h.handling
    ⟨fun answer hans => ?_, h.routed.nodup, fun other call' hcall' hafter => ?_⟩
  · obtain ⟨old, hold, hexec, haddr, hcont, hcompleter, hwas⟩ := h.routed.answer answer hans
    refine ⟨_, getElem?_modify_eq_some.mpr ⟨old, hold, rfl⟩, ?_⟩
    split_ifs
    · exact ⟨hexec, haddr, hcont, hcompleter, nofun⟩
    · exact ⟨hexec, haddr, hcont, hcompleter, hwas⟩
  · obtain ⟨old, hold, rfl⟩ := getElem?_modify_eq_some.mp hcall'
    by_cases heq : number = other
    · rw [← heq]
      exact h.routed.completed number call hcall (by simp [hcomp])
    · rw [if_neg heq] at hafter
      exact h.routed.completed other old hold hafter

/-- The task of a released call is not used. -/
theorem isUsed_release (hcall : network.calls[number]? = some call)
    (hcomp : call.completer = .completed) :
    ({ network with calls := network.calls.modify number fun call =>
      { call with completer := .released } } : Network).isUsed call.address = false := by
  have hout : call.isOutstanding = true := by simp [Call.isOutstanding, hcomp]
  refine any_eq_false.mpr fun other hmem => ?_
  obtain ⟨place, hplace⟩ := mem_iff_getElem?.mp hmem
  obtain ⟨old, hold, rfl⟩ := getElem?_modify_eq_some.mp hplace
  by_cases heq : number = place
  · rw [if_pos heq]
    simp [Call.isOutstanding]
  · rw [if_neg heq, Bool.and_eq_true, decide_eq_true_eq]
    rintro ⟨hout', haddr⟩
    exact heq (h.unique number place call old hcall hold hout hout' haddr.symm)

/-- Another record of the task of a call that waits. -/
theorem setRecord {record : TaskRecord} (hcall : network.calls[message.number]? = some call)
    (hwait : call.completer = .waiting) (haddr : message.address = call.address)
    (hid : record.header.id = (network.memory call.address).header.id)
    (howner : record.header.owner = (network.memory call.address).header.owner)
    (hmethod : record.header.method = (network.memory call.address).header.method)
    (hnumbers : ((network.flight ++ network.handling).map Message.number).Perm
      ((flight ++ handling).map Message.number))
    (hmsgs : ∀ other ∈ flight ++ handling, other ∈ network.flight ++ network.handling ∧
    other.number ≠ message.number ∨ other.number = message.number ∧ other.address = call.address ∧
      (if other.answer then other.target = call.executor else record.header.source = call.executor))
    (hhandling : ∀ other ∈ handling, other.answer = false) :
    ({ network with
      memory := Function.update network.memory message.address record
      calls :=
        network.calls.modify message.number fun call => { call with content := record.content }
      flight := flight, handling := handling } : Network).Consistent := by
  have hout := isOutstanding_of_waiting hwait
  have hrecord : Function.update network.memory message.address record call.address = record := by
    rw [haddr]
    exact Function.update_self _ _ _
  -- The completer of no call changes.
  have hwas : ∀ (number : ℕ) (old : Call),
      (if message.number = number then { old with content := record.content } else old).completer =
        old.completer ∧
      (if message.number = number then { old with content := record.content } else old).address =
        old.address ∧
      (if message.number = number then { old with content := record.content }
        else old).isOutstanding = old.isOutstanding := by
    intro number old
    split_ifs <;> exact ⟨rfl, rfl, rfl⟩
  constructor
  · exact h.registries
  · intro number call' hcall' hout'
    obtain ⟨old, hold, rfl⟩ := getElem?_modify_eq_some.mp hcall'
    rw [(hwas number old).2.2] at hout'
    by_cases heq : message.number = number
    · rw [← heq] at hold ⊢
      obtain rfl : call = old := Option.some.inj (hcall.symm.trans hold)
      rw [if_pos rfl]
      exact (h.holds message.number call hcall hout).record rfl hrecord hid howner hmethod
    · rw [if_neg heq]
      have hne := h.address_ne hold hcall hout' hout (Ne.symm heq)
      rw [← haddr] at hne
      exact (h.holds number old hold hout').congr rfl (Function.update_of_ne hne _ _)
  · intro first second call' call'' hfirst hsecond houtFirst houtSecond heq
    obtain ⟨old, hold, rfl⟩ := getElem?_modify_eq_some.mp hfirst
    obtain ⟨old', hold', rfl⟩ := getElem?_modify_eq_some.mp hsecond
    rw [(hwas first old).2.2] at houtFirst
    rw [(hwas second old').2.2] at houtSecond
    rw [(hwas first old).2.1, (hwas second old').2.1] at heq
    exact h.unique first second old old' hold hold' houtFirst houtSecond heq
  · exact hnumbers.nodup_iff.mp h.nodup
  · intro other hother
    rcases hmsgs other hother with ⟨hold, hne⟩ | ⟨hnum, hother, hsource⟩
    · have haddr' := h.carries_ne hcall hout hold hne
      rw [← haddr] at haddr'
      refine (h.carries other hold).congr ?_ (Function.update_of_ne haddr' _ _)
      exact getElem?_modify_ne _ _ hne.symm
    · refine ⟨_, getElem?_modify_eq_some.mpr ⟨call, hnum ▸ hcall, rfl⟩, ?_⟩
      rw [if_pos hnum.symm]
      refine ⟨hwait, hother, ?_⟩
      dsimp only
      rwa [hrecord]
  · exact hhandling
  · refine ⟨fun answer hans => ?_, h.routed.nodup, fun number call' hcall' hcomp => ?_⟩
    · have hne := h.answer_ne hcall hwait hans
      obtain ⟨old, hold, hrest⟩ := h.routed.answer answer hans
      exact ⟨old, (getElem?_modify_ne _ _ hne.symm).trans hold, hrest⟩
    · obtain ⟨old, hold, rfl⟩ := getElem?_modify_eq_some.mp hcall'
      rw [(hwas number old).1] at hcomp
      exact h.routed.completed number old hold hcomp

/-- The handler of a call writes its task. -/
theorem writeTask (hmem : message ∈ network.handling) (content : Bool × TaskData) :
    (network.writeTask message content).Consistent := by
  have hmsg : message ∈ network.flight ++ network.handling := mem_append_right _ hmem
  obtain ⟨call, hcall, hwait, haddr, hsource⟩ := h.carries message hmsg
  rw [h.handling message hmem, if_neg Bool.false_ne_true] at hsource
  have hperm := perm_cons_erase hmsg
  have hid : ((network.memory message.address).write content).header.id =
      (network.memory call.address).header.id := by rw [haddr]; rfl
  have howner : ((network.memory message.address).write content).header.owner =
      (network.memory call.address).header.owner := by rw [haddr]; rfl
  have hmethod : ((network.memory message.address).write content).header.method =
      (network.memory call.address).header.method := by rw [haddr]; rfl
  refine h.setRecord hcall hwait haddr hid howner hmethod (.refl _)
    (fun other hother => ?_) h.handling
  by_cases heq : other = message
  · refine .inr ⟨by rw [heq], by rw [heq, haddr], ?_⟩
    rw [heq, h.handling message hmem, if_neg Bool.false_ne_true, haddr]
    exact hsource
  · refine .inl ⟨hother, h.number_ne hperm ?_⟩
    exact (mem_cons.mp (hperm.mem_iff.mp hother)).resolve_left heq

/-- The handler of a call answers, on its ring. -/
theorem sendBack (hmem : message ∈ network.handling) :
    ({ network with
      memory := Function.update network.memory message.address { network.memory message.address with
        header := (network.memory message.address).header.sendCallback message.target }
      flight := network.flight ++
        [⟨true, (network.memory message.address).header.source, message.address, message.number⟩]
      handling := network.handling.erase message } : Network).Consistent := by
  have hmsg : message ∈ network.flight ++ network.handling := mem_append_right _ hmem
  obtain ⟨call, hcall, hwait, haddr, hsource⟩ := h.carries message hmsg
  rw [h.handling message hmem, if_neg Bool.false_ne_true] at hsource
  have hcont := (h.holds message.number call hcall (isOutstanding_of_waiting hwait)).content
  -- What the call has for its content is what the task has.
  have hcalls : network.calls = network.calls.modify message.number fun call =>
      { call with content := (network.memory message.address).content } := by
    refine ext_getElem? fun number => Option.ext fun found => ?_
    constructor
    · intro hfound
      refine getElem?_modify_eq_some.mpr ⟨found, hfound, ?_⟩
      split_ifs with heq
      · rw [← heq, hcall] at hfound
        rw [← Option.some.inj hfound, haddr, ← hcont]
      · rfl
    · intro hfound
      obtain ⟨old, hold, rfl⟩ := getElem?_modify_eq_some.mp hfound
      split_ifs with heq
      · rw [← heq, hcall] at hold
        rw [← heq, hcall, ← Option.some.inj hold, haddr, ← hcont]
      · exact hold
  have hperm := perm_cons_erase hmem
  have hrest : (network.flight ++ network.handling).Perm
      (message :: (network.flight ++ network.handling.erase message)) :=
    (hperm.append_left network.flight).trans perm_middle
  have hnumbers := hrest.map Message.number
  rw [hcalls]
  refine h.setRecord hcall hwait haddr (by rw [haddr]; rfl) (by rw [haddr]; rfl)
    (by rw [haddr]; rfl) ?_ (fun other hother => ?_)
    fun other hother => h.handling other (mem_of_mem_erase hother)
  · refine hnumbers.trans ?_
    rw [map_cons, map_append, append_assoc, map_append, map_append]
    exact perm_middle.symm
  · rw [append_assoc, mem_append, mem_append, mem_singleton] at hother
    have hcases : other ∈ network.flight ++ network.handling.erase message ∨
        other = ⟨true, (network.memory message.address).header.source, message.address,
            message.number⟩ := by
      rw [mem_append]
      tauto
    rcases hcases with hold | rfl
    · exact .inl ⟨hrest.mem_iff.mpr (mem_cons_of_mem _ hold), h.number_ne hrest hold⟩
    · refine .inr ⟨rfl, haddr, ?_⟩
      rw [haddr]
      exact hsource

end Consistent

/-! ## Steps -/

section Callback

variable {registries : Registries} {message : Message}

/-- The task of an answer leads to the completer of its call. -/
theorem callback_eq (h : network.Consistent) (hmem : message ∈ network.flight)
    (hans : message.answer = true)
    (hring : network.rings message.target = some (.dart registries)) :
    network.callback message registries = network.deliver message (some (message.number,
      if (network.memory message.address).header.outputEvent then .failed else .completed)) := by
  have hmsg : message ∈ network.flight ++ network.handling := mem_append_left _ hmem
  obtain ⟨call, hcall, hwait, haddr, htarget⟩ := h.carries message hmsg
  rw [hans, if_pos rfl] at htarget
  have hholds := h.holds message.number call hcall (isOutstanding_of_waiting hwait)
  rw [htarget] at hring
  cases hmethod : call.method with
  | none =>
    have hnative := hholds.native hmethod
    rw [hring] at hnative
    exact absurd (Option.some.inj hnative) nofun
  | some place =>
    obtain ⟨producer, index⟩ := place
    obtain ⟨other, method, hreg⟩ := hholds.dart producer index hmethod
    obtain rfl : registries = other := Ring.dart.inj (Option.some.inj (hring.symm.trans hreg.ring))
    obtain ⟨implementation, hplace, hobj⟩ := Registries.object?_eq_some.mp hreg.object
    have hget :=
      ((h.registries _ registries hring).method producer implementation hplace index method hobj).2
    have hid := hreg.id
    have howner := hreg.owner
    have hmethodId := hreg.methodId
    rw [← haddr] at hid howner hmethodId
    have hcalls := hreg.calls
    rw [← haddr] at hcalls
    have hcompleter : (network.calls[message.number]?.map Call.completer) = some .waiting := by
      rw [hcall, Option.map_some, hwait]
    unfold callback
    dsimp only
    simp only [howner, hplace, hmethodId, hget, Option.bind_some, hobj, hid, hcalls,
      hcompleter, if_true]

end Callback

/-- A dispatched answer. -/
theorem Consistent.deliver (h : network.Consistent) {message : Message}
    (hmem : message ∈ network.flight)
    (hans : message.answer = true) {completer : Completer} (hcompleter : completer ≠ .waiting) :
    (network.deliver message (some (message.number, completer))).Consistent := by
  have hmsg : message ∈ network.flight ++ network.handling := mem_append_left _ hmem
  obtain ⟨call, hcall, hwait, haddr, htarget⟩ := h.carries message hmsg
  rw [hans, if_pos rfl] at htarget
  exact h.answered hmem hcall hwait haddr htarget hcompleter fun _ => rfl

/-- A message of a ring that native code serves. -/
theorem Consistent.native (h : network.Consistent) (hmem : message ∈ network.flight)
    (hans : message.answer = true) (hring : network.rings message.target = some .native) :
    ({ network with
      calls := network.calls.modify message.number fun call => { call with completer := .released }
      flight := network.flight.erase message
      batches := network.batches ++ [message]
      answers := network.answers ++ [network.answer message none] } : Network).Consistent := by
  have hmsg : message ∈ network.flight ++ network.handling := mem_append_left _ hmem
  obtain ⟨call, hcall, hwait, haddr, htarget⟩ := h.carries message hmsg
  rw [hans, if_pos rfl] at htarget
  refine h.answered hmem hcall hwait haddr htarget nofun fun hsome => ?_
  -- The call is not one of a method: its executor would not be native.
  obtain ⟨⟨producer, index⟩, hmethod⟩ := Option.isSome_iff_exists.mp hsome
  obtain ⟨registries, method, hreg⟩ :=
    (h.holds message.number call hcall (isOutstanding_of_waiting hwait)).dart producer index hmethod
  have hdart := hreg.ring
  rw [← htarget, hring] at hdart
  exact absurd (Option.some.inj hdart) nofun

/-- A call goes to a handler. -/
theorem Consistent.handle (h : network.Consistent) {message : Message}
    (hmem : message ∈ network.flight) (hans : message.answer = false) :
    ({ network with
      flight := network.flight.erase message
      batches := network.batches ++ [message]
      handling := network.handling ++ [message] } : Network).Consistent := by
  have hperm : (network.flight ++ network.handling).Perm
      ([] ++ (network.flight.erase message ++ (network.handling ++ [message]))) := by
    refine ((perm_cons_erase hmem).append_right network.handling).trans ?_
    rw [nil_append, ← append_assoc]
    exact (perm_append_singleton _ _).symm
  refine h.of_perm hperm fun other hother => ?_
  rcases mem_append.mp hother with hother | hother
  · exact h.handling other hother
  · rwa [mem_singleton.mp hother]

theorem Consistent.dispatch (h : network.Consistent) {throws : Bool}
    (hcareful : network.Careful (.dispatch message throws))
    (hstep : network.dispatch message throws = some next) : next.Consistent := by
  unfold Network.dispatch at hstep
  by_cases hmem : message ∈ network.flight
  swap
  · rw [if_pos hmem] at hstep
    exact absurd hstep nofun
  rw [if_neg (not_not.mpr hmem)] at hstep
  cases hring : network.rings message.target with
  | none =>
    rw [hring] at hstep
    exact absurd hstep nofun
  | some ring =>
    cases hans : message.answer with
    | false =>
      rw [hans, hring] at hstep
      dsimp only at hstep
      rw [if_pos (hcareful hans)] at hstep
      rw [← Option.some.inj hstep]
      exact h.handle hmem hans
    | true =>
      rw [hans, hring] at hstep
      cases ring with
      | native =>
        rw [← Option.some.inj hstep]
        exact h.native hmem hans hring
      | dart registries =>
        rw [← Option.some.inj hstep, callback_eq h hmem hans hring]
        refine h.deliver hmem hans ?_
        split_ifs <;> exact nofun

/-- What `register` does. -/
theorem register_eq_some {update : Registries → Registries}
    (hstep : network.register descriptor update = some next) :
    ∃ registries, network.rings descriptor = some (.dart registries) ∧
      next = network.setRing descriptor (.dart (update registries)) := by
  unfold Network.register at hstep
  split at hstep
  · rename_i registries hring
    exact ⟨registries, hring, (Option.some.inj hstep).symm⟩
  · exact absurd hstep nofun

theorem method?_eq_some {producer index : ℕ} {found : Registries × MethodImplementation}
    (hfound : network.method? descriptor producer index = some found) :
    network.rings descriptor = some (.dart found.1) ∧
      found.1.object? producer index = some found.2 := by
  unfold method? at hfound
  split at hfound
  · rename_i registries hring
    obtain ⟨method, hmethod, rfl⟩ := Option.map_eq_some_iff.mp hfound
    exact ⟨hring, hmethod⟩
  · exact absurd hfound nofun

/-- `_onComplete` releases the task and removes its entry. -/
theorem Consistent.onComplete (h : network.Consistent)
    (hcall : network.calls[number]? = some call)
    (hstep : network.onComplete number call = some next) : next.Consistent := by
  unfold Network.onComplete at hstep
  split at hstep
  · rename_i producer index registries hmethod hring
    split_ifs at hstep with hcomp
    rw [← Option.some.inj hstep]
    have hunused := h.isUsed_release hcall hcomp
    exact (h.release hcall hcomp).updateCalls hring hunused
      fun calls other hne => DartMap.get?_remove_of_ne calls call.address hne
  · exact absurd hstep nofun

theorem Consistent.step (h : network.Consistent) {action : NetworkAction}
    (hcareful : network.Careful action)
    (hstep : network.step action = some next) : next.Consistent := by
  cases action with
  | create descriptor native =>
    rw [Network.step] at hstep
    by_cases hsome : (network.rings descriptor).isSome = true
    · rw [if_pos hsome] at hstep
      exact absurd hstep nofun
    -- A new ring has a descriptor that none had before.
    have hring : network.rings descriptor = none := by simpa using hsome
    rw [if_neg hsome] at hstep
    rw [← Option.some.inj hstep]
    refine h.setRing (fun registries heq => ?_) (fun hnative => ?_) fun registries hdart => ?_
    · split_ifs at heq
      rw [← Ring.dart.inj heq]
      exact Registries.wellFormed_empty
    · rw [hring] at hnative
      exact absurd hnative nofun
    · rw [hring] at hdart
      exact absurd hdart nofun
  | registerConsumer descriptor callbacks =>
    obtain ⟨registries, hring, rfl⟩ := register_eq_some hstep
    exact h.register hring ((h.registries _ registries hring).registerConsumer callbacks)
      fun _ _ _ hmethod => hmethod
  | registerProducer descriptor =>
    obtain ⟨registries, hring, rfl⟩ := register_eq_some hstep
    exact h.register hring (h.registries _ registries hring).registerProducer
      fun _ _ _ hmethod => Registries.object?_registerProducer hmethod
  | registerMethod descriptor producer address =>
    obtain ⟨registries, hring, rfl⟩ := register_eq_some hstep
    exact h.register hring
      ((h.registries _ registries hring).registerMethod (hcareful registries hring))
      fun _ _ _ hmethod => Registries.object?_registerMethod hmethod
  | fill address record =>
    rw [Network.step] at hstep
    split_ifs at hstep with hused
    rw [← Option.some.inj hstep]
    exact h.setTask (Bool.eq_false_of_not_eq_true hused) record
  | refuse descriptor producer index address =>
    rw [Network.step] at hstep
    split_ifs at hstep with hused
    obtain ⟨found, -, rfl⟩ := Option.map_eq_some_iff.mp hstep
    exact h.setTask (Bool.eq_false_of_not_eq_true hused) _
  | call descriptor producer index target address =>
    rw [Network.step] at hstep
    split_ifs at hstep with hused
    obtain ⟨found, hfound, rfl⟩ := Option.map_eq_some_iff.mp hstep
    obtain ⟨hring, hmethod⟩ := method?_eq_some hfound
    exact h.callMethod hring hmethod (Bool.eq_false_of_not_eq_true hused)
  | callDart descriptor target address =>
    rw [Network.step] at hstep
    split_ifs at hstep with hused
    split at hstep
    · rename_i hring
      rw [← Option.some.inj hstep]
      exact h.callDart hring (Bool.eq_false_of_not_eq_true hused)
    · exact absurd hstep nofun
  | dispatch message throws => exact h.dispatch hcareful hstep
  | advance descriptor =>
    rw [← Option.some.inj hstep]
    have hperm : (network.flight ++ network.handling).Perm
      ([] ++ (network.flight ++ network.handling)) := .refl _
    exact h.of_perm hperm h.handling
  | write message content =>
    rw [Network.step] at hstep
    split_ifs at hstep with hmem
    rw [← Option.some.inj hstep]
    exact h.writeTask hmem content
  | respond message =>
    rw [Network.step] at hstep
    split_ifs at hstep with hmem
    obtain ⟨ring, -, rfl⟩ := Option.map_eq_some_iff.mp hstep
    cases ring with
    | dart registries => exact h.sendBack hmem
    | native => exact h.sendBack hmem
  | abandon message =>
    rw [Network.step] at hstep
    split_ifs at hstep with hmem
    rw [← Option.some.inj hstep]
    have hperm : (network.flight ++ network.handling).Perm
        ([message] ++ (network.flight ++ network.handling.erase message)) :=
      -- The message leaves those that are handled.
      ((perm_cons_erase hmem).append_left network.flight).trans perm_middle
    exact h.of_perm hperm fun other hother => h.handling other (mem_of_mem_erase hother)
  | complete number =>
    obtain ⟨call, hcall, hstep⟩ := Option.bind_eq_some_iff.mp hstep
    exact h.onComplete hcall hstep

theorem consistent_initial (memory : ℕ → TaskRecord) : (initial memory).Consistent where
  registries := nofun
  holds := nofun
  unique := nofun
  nodup := nodup_nil
  carries := nofun
  handling := nofun
  routed := ⟨nofun, nodup_nil, nofun⟩

/-- In every run whose steps register no address for a second time and throw nothing into a wakeup,
every answer goes to the completer of its call. -/
theorem routed_of_careful {memory : ℕ → TaskRecord} {actions : List NetworkAction}
    (hcareful : Along step Careful (initial memory) actions)
    (hrun : run step (initial memory) actions = some network) : network.Routed := by
  have hstep :
    ∀ (_ : List NetworkAction) (state : Network) (action : NetworkAction) (next : Network),
      state.Consistent → state.Careful action → state.step action = some next → next.Consistent :=
    fun _ _ _ _ h hcareful hstep => h.step hcareful hstep
  have hconsistent :=
    run_induction (fun _ state => state.Consistent) hstep (consistent_initial memory) hcareful hrun
  exact hconsistent.routed

/-- A task of zeros. -/
def blankTask : TaskRecord := ⟨⟨0, 0, 0, 0, 0, false⟩, ⟨0, 0, 0, 0⟩⟩

/-- An executor and native code, with a producer and the registrations of an address. -/
def setup (registrations : List NetworkAction) : List NetworkAction :=
  [.create 0 false, .create 1 true, .registerProducer 0] ++ registrations

/-- A call of the first method, with its answer. -/
def callAndAnswer : List NetworkAction :=
  [.call 0 0 0 1 100, .dispatch ⟨false, 1, 100, 0⟩ false,
    .write ⟨false, 1, 100, 0⟩ (false, ⟨0, 0, 5, 8⟩),
    .respond ⟨false, 1, 100, 0⟩, .dispatch ⟨true, 0, 100, 0⟩ false]

theorem routed_of_careful_call : ∃ network, run step (initial fun _ => blankTask)
    (setup [.registerMethod 0 0 7] ++ callAndAnswer ++ [.complete 0]) = some network ∧
      network.answers = [⟨0, 0, 100, some 0, (false, ⟨0, 0, 5, 8⟩)⟩] ∧ network.Routed := by
  have hcareful : Along step Careful (initial fun _ => blankTask)
      (setup [.registerMethod 0 0 7] ++ callAndAnswer ++ [.complete 0]) := by
    refine (along_cons_of_step rfl).mpr ⟨trivial, (along_cons_of_step rfl).mpr ⟨trivial,
      (along_cons_of_step rfl).mpr ⟨trivial, (along_cons_of_step rfl).mpr ⟨?_, ?_⟩⟩⟩⟩
    · -- The producer has no method yet.
      rintro registries ⟨⟩ implementation ⟨⟩
      rfl
    · exact (along_cons_of_step rfl).mpr ⟨trivial, (along_cons_of_step rfl).mpr ⟨fun _ => rfl,
        (along_cons_of_step rfl).mpr ⟨trivial, (along_cons_of_step rfl).mpr ⟨trivial,
          (along_cons_of_step rfl).mpr ⟨nofun, (along_cons_of_step rfl).mpr ⟨trivial, trivial⟩⟩⟩⟩⟩⟩
  exact ⟨_, rfl, rfl, routed_of_careful hcareful rfl⟩

/-- The address of the method is registered twice, and the answer completes nothing. -/
theorem not_routed :
    ¬∀ actions network, run step (initial fun _ => blankTask) actions = some network →
    network.Routed := by
  intro h
  have hrun : ∃ network, run step (initial fun _ => blankTask)
      (setup [.registerMethod 0 0 7, .registerMethod 0 0 7] ++ callAndAnswer) = some network ∧
      network.answers = [⟨0, 0, 100, none, (false, ⟨0, 0, 5, 8⟩)⟩] ∧
      network.calls = [⟨0, some (0, 0), 100, .waiting, (false, ⟨0, 0, 5, 8⟩)⟩] := ⟨_, rfl, rfl, rfl⟩
  obtain ⟨network, hrun, hanswers, hcalls⟩ := hrun
  have hrouted := (h _ network hrun).answer ⟨0, 0, 100, none, (false, ⟨0, 0, 5, 8⟩)⟩
    (by rw [hanswers]; exact List.mem_cons_self)
  obtain ⟨call, hcall, -, -, -, -, hcompleted⟩ := hrouted
  rw [hcalls] at hcall
  exact hcompleted (by rw [← Option.some.inj hcall])

end Network

end FengShui.Executors
