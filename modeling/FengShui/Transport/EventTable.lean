import FengShui.Lib.Ledger
import FengShui.Transport.Routing

/-!
# The table of events (`transport/transport.c`)

The six functions that submit add a node for their operation, a completion and a cancel take it
away. The table, with the nodes that the cancels have taken, is balanced with the operations in
flight (`Booked`), since no two of these have the same user data. Where the ring is full
`transport_cancel_by_fd` returns in the middle of its loop, with the nodes of the operations that it
has already cancelled still in the table (`tabled_false`); and where a resize of the table ends in
front of its last deletion, it deletes slots of another table. Elsewhere the table stays right
(`tabled_of_frees`).
-/

namespace FengShui.Transport

open FengShui.Transition FengShui.Lib FengShui.SimpleMap FengShui.SimpleMap.Map State List

/-- A node without the time at which it was made. -/
def Node.entry (node : Node) : ℕ × ℤ × ℕ := (node.data, node.timeout, node.fd)

/-- The entries of the ring that are free for each channel where it cancels. -/
def HostAction.free : HostAction → ℕ → ℕ
  | .act _ free _ | .complete _ _ free | .accepted _ _ _ _ free _ => free
  | .openChannel .. | .finish _ | .report _ | .checkEventTimeouts .. => fun _ => 0

namespace EventMap

/-- `transport_cancel_by_fd` as a step of the table, by a descriptor and what the ring has free. -/
def cancelStep (map : Map Node) (cancel : ℕ × ℕ) : Option (Map Node) :=
  (cancelByFd map cancel.1 cancel.2).map fun result => result.2.2

/-- There is no entry free for a cancel, or there is one for each node of the descriptor, and no
resize of the table ends in front of the last deletion. -/
def Roomy (map : Map Node) (cancel : ℕ × ℕ) : Prop :=
  cancel.2 = 0 ∨
    (ofFd map cancel.1).length ≤ cancel.2 ∧ InPlace map (ofFd map cancel.1).length

instance (map : Map Node) (cancel : ℕ × ℕ) : Decidable (Roomy map cancel) :=
  inferInstanceAs (Decidable (_ ∨ _ ∧ _))

end EventMap

namespace Host

/-- What the table is to have of an operation. -/
def entry (operation : Operation) (host : Host) : ℕ × ℤ × ℕ :=
  match host.peers[operation.channel]? with
  | some peer => (host.data operation, timeoutOf operation peer, peer.fd)
  | none => (0, 0, 0)

/-- The cancels by descriptor of these channels. -/
def places (free : ℕ → ℕ) (indices : List ℕ) (host : Host) : List (ℕ × ℕ) :=
  indices.filterMap fun index => host.peers[index]?.map fun peer => (peer.fd, free index)

/-- The cancels by descriptor of a step, in their order. -/
def cancels (host : Host) : HostAction → List (ℕ × ℕ)
  | .act (.timeout index) free _ => host.places free [index]
  | action => ((host.step action).map fun next =>
      next.places action.free (awaiting host.transport next.transport)).getD []

/-- The table, where the operation that a step completes is out of it. -/
def table (host : Host) : HostAction → Option (Map Node)
  | .complete position _ _ =>
    match host.transport.submitted[position]? with
    | some submission =>
      host.events.bind fun map => EventMap.removeEvent map (host.data (.entry submission))
    | none => host.events
  | .accepted position _ _ _ _ _ =>
    match host.accepts[position]? with
    | some server =>
      host.events.bind fun map => EventMap.removeEvent map (host.data (.accept server))
    | none => host.events
  | _ => host.events

/-- Every cancel by descriptor of a step finds no entry, or enough of them and no resize that ends
in front of its last deletion; and so does a check. -/
def Frees (host : Host) : HostAction → Prop
  | .checkEventTimeouts now free => ∀ map, host.events = some map →
    InPlace map (EventMap.due map now free).length
  | action => ∀ map, host.table action = some map →
    Along EventMap.cancelStep EventMap.Roomy map (host.cancels action)

variable {host next : Host}

theorem cancels_of_step {action : HostAction} (hstep : host.step action = some next)
    (haction : ∀ index free now, action ≠ .act (.timeout index) free now) :
    host.cancels action =
      next.places action.free (awaiting host.transport next.transport) := by
  unfold cancels
  split
  · exact absurd rfl (haction _ _ _)
  · rw [hstep]
    rfl

/-! ### The entries -/

/-- The descriptors of the channels are what a cancel looks at. -/
theorem places_congr
    (h : ∀ index : ℕ, next.peers[index]?.map Peer.fd = host.peers[index]?.map Peer.fd)
    (free : ℕ → ℕ) (indices : List ℕ) : next.places free indices = host.places free indices := by
  refine filterMap_congr fun index _ => ?_
  have hmap (peers : Option Peer) : peers.map (fun peer => (peer.fd, free index)) =
      (peers.map Peer.fd).map fun fd => (fd, free index) := by
    rw [Option.map_map]
    rfl
  rw [hmap, h, ← hmap]

theorem places_of_core (h : next.core = host.core) (free : ℕ → ℕ) (indices : List ℕ) :
    next.places free indices = host.places free indices := by
  refine places_congr (fun index => ?_) free indices
  have hsettle (peers : Option Peer) :
      peers.map Peer.fd = (peers.map Peer.settle).map Peer.fd := by
    rw [Option.map_map]
    rfl
  rw [hsettle, getElem?_core h, ← hsettle]

/-- What the user data and the node of an operation are made of. -/
def place (peer : Peer) : Role × ℕ × Timeouts := (peer.role, peer.fd, peer.timeouts)

section Entry

variable {operation : Operation}

theorem entry_eq {peer : Peer} (hpeer : host.peers[operation.channel]? = some peer) :
    host.entry operation = (host.data operation, timeoutOf operation peer, peer.fd) := by
  unfold entry
  rw [hpeer]

theorem fst_entry (operation : Operation) (host : Host) :
    (host.entry operation).1 = host.data operation := by
  cases hpeer : host.peers[operation.channel]? with
  | none =>
    unfold entry data
    rw [hpeer]
  | some peer => rw [entry_eq hpeer]

theorem entry_congr
    (h : next.peers[operation.channel]?.map place = host.peers[operation.channel]?.map place) :
    next.entry operation = host.entry operation := by
  unfold entry data
  cases hpeer : host.peers[operation.channel]? with
  | none =>
    rw [hpeer, Option.map_none, Option.map_eq_none_iff] at h
    rw [h]
  | some peer =>
    rw [hpeer, Option.map_some] at h
    obtain ⟨found, hfound, heq⟩ := Option.map_eq_some_iff.mp h
    obtain ⟨hrole, hfd, htimeouts⟩ : found.role = peer.role ∧ found.fd = peer.fd ∧
        found.timeouts = peer.timeouts := by
      unfold place at heq
      exact ⟨(Prod.mk.inj heq).1, (Prod.mk.inj (Prod.mk.inj heq).2).1,
        (Prod.mk.inj (Prod.mk.inj heq).2).2⟩
    rw [hfound]
    dsimp only
    unfold eventOf timeoutOf Peer.timeout
    rw [hrole, hfd, htimeouts]

theorem entry_of_core (h : next.core = host.core) (operation : Operation) :
    next.entry operation = host.entry operation := by
  refine entry_congr ?_
  have hmap (peer : Peer) : place peer.settle = place peer := rfl
  have hplace (peers : Option Peer) : peers.map place = (peers.map Peer.settle).map place := by
    rw [Option.map_map]
    rfl
  rw [hplace, getElem?_core h, ← hplace]

theorem entry_modifyPeer (host : Host) (index : ℕ) {f : Peer → Peer}
    (hf : ∀ peer, place (f peer) = place peer) (operation : Operation) :
    (host.modifyPeer index f).entry operation = host.entry operation := by
  refine entry_congr ?_
  rw [getElem?_modifyPeer, Option.map_map]
  refine congrArg (Option.map · _) (funext fun peer => ?_)
  rw [Function.comp_apply]
  split
  · exact hf peer
  · rfl

theorem place_use (peer : Peer) (rearmed : ℕ) :
    place { peer.use with rearmed := rearmed } = place peer := by
  rw [Peer.use_eq]
  rfl

theorem operations_of_core (h : next.core = host.core) : next.operations = host.operations :=
  (congrArg Host.operations h :)

end Entry

/-! ### The functions of the table -/

/-- The table is balanced with the operations, while its size is below `2^31`. -/
def Booked (operations : List Operation) (host : Host) : Prop :=
  ∀ map, host.events = some map → map.prime < 29 → map.Valid ∧
    Ledger.Balanced (fun operation => host.entry operation) operations host.canceled
      (map.nodes.map Node.entry)

/-- No two operations have the same key. -/
def Keyed (operations : List Operation) (host : Host) : Prop :=
  (operations.map fun operation => (host.entry operation).1).Nodup

theorem Keyed.congr {operations : List Operation} (h : Keyed operations host)
    (hent : ∀ operation, next.entry operation = host.entry operation) : Keyed operations next := by
  unfold Keyed
  simp only [hent]
  exact h

theorem keyed_of_routes (h : Routes host) : Keyed host.operations host := by
  unfold Keyed
  simp only [fst_entry]
  exact h.1

/-- The table behind a cancel by descriptor. -/
theorem exists_of_cancelByFd {fd free : ℕ} {map : Map Node}
    (h : (host.cancelByFd fd free).2.events = some map) :
    ∃ before done prepared, host.events = some before ∧
      EventMap.cancelByFd before fd free = some (done, prepared, map) ∧
      (host.cancelByFd fd free).2 = { host.prepareCancels prepared with events := some map } := by
  unfold cancelByFd at h ⊢
  cases hcancel : host.events.bind fun map => EventMap.cancelByFd map fd free with
  | none =>
    rw [hcancel] at h
    cases h
  | some result =>
    obtain ⟨done, prepared, last⟩ := result
    rw [hcancel] at h
    obtain rfl : last = map := Option.some.inj h
    obtain ⟨before, hbefore, hres⟩ := Option.bind_eq_some_iff.mp hcancel
    exact ⟨before, done, prepared, hbefore, hres, rfl⟩

/-- The table behind a check. -/
theorem exists_of_checkEventTimeouts {now : ℕ → ℕ} {free : ℕ} {map : Map Node}
    (h : (host.checkEventTimeouts now free).events = some map) :
    ∃ before prepared, host.events = some before ∧
      EventMap.checkEventTimeouts before now free = some (prepared, map) ∧
      host.checkEventTimeouts now free =
        { host.prepareCancels prepared with events := some map } := by
  unfold checkEventTimeouts at h ⊢
  cases hcheck : host.events.bind fun map => EventMap.checkEventTimeouts map now free with
  | none =>
    rw [hcheck] at h
    cases h
  | some result =>
    obtain ⟨prepared, last⟩ := result
    rw [hcheck] at h
    obtain rfl : last = map := Option.some.inj h
    obtain ⟨before, hbefore, hres⟩ := Option.bind_eq_some_iff.mp hcheck
    exact ⟨before, prepared, hbefore, hres, rfl⟩

namespace Booked

variable {operations : List Operation} {operation : Operation}

theorem frame (h : Booked operations host) (hev : next.events = host.events)
    (hcancel : next.canceled = host.canceled)
    (hent : ∀ operation ∈ operations, next.entry operation = host.entry operation) :
    Booked operations next := by
  intro map hmap hprime
  obtain ⟨hvalid, hbal⟩ := h map (hev ▸ hmap) hprime
  rw [hcancel]
  exact ⟨hvalid, hbal.congr hent⟩

theorem perm_elements {others : List Operation} (h : Booked operations host)
    (hperm : operations.Perm others) : Booked others host := by
  intro map hmap hprime
  obtain ⟨hvalid, hbal⟩ := h map hmap hprime
  exact ⟨hvalid, hbal.perm_elements hperm⟩

theorem addEvent {peer : Peer} (h : Booked operations host)
    (hkeys : Keyed (operations ++ [operation]) host)
    (hpeer : host.peers[operation.channel]? = some peer) (now : ℕ) :
    Booked (operations ++ [operation]) (host.addEvent now operation) := by
  let node : Node := ⟨host.data operation, timeoutOf operation peer, now, peer.fd⟩
  have hadd : host.addEvent now operation =
      { host with events := host.events.bind fun map => map.putCopy node } := by
    unfold Host.addEvent
    rw [hpeer]
  rw [hadd]
  intro next hnext hprime
  obtain ⟨map, hmap, hput⟩ := Option.bind_eq_some_iff.mp hnext
  obtain ⟨hvalid, hbal⟩ := h map hmap ((prime_of_putCopy hput).1.trans_lt hprime)
  obtain ⟨hnextValid, hnodes⟩ := hvalid.of_putCopy hput hprime
  -- The user data of an operation is that of no other one in the table.
  have hnew (other : Node) (hmem : other ∈ map.nodes) : other.data ≠ host.data operation := by
    obtain ⟨before, hbefore, heq⟩ := hbal.exists_of_mem (mem_map_of_mem hmem)
    intro hdata
    unfold Keyed at hkeys
    rw [map_append] at hkeys
    refine (nodup_append.mp hkeys).2.2 _ (mem_map_of_mem hbefore) _
      (mem_map_of_mem (mem_singleton_self operation)) ?_
    rw [fst_entry operation, ← hdata, heq]
    rfl
  have hperm : (map.nodes ++ [node]).Perm next.nodes := by
    have hnodup : (map.nodes ++ [node]).Nodup := by
      refine nodup_append.mpr ⟨hvalid.nodup, nodup_singleton _, ?_⟩
      rintro other hmem _ hsame rfl
      exact hnew other hmem (congrArg Node.data (mem_singleton.mp hsame))
    refine (perm_ext_iff_of_nodup hnodup hnextValid.nodup).mpr fun other => ?_
    rw [hnodes, mem_append, mem_singleton, or_comm]
    exact or_congr_right (and_iff_left_of_imp fun hmem => hnew other hmem).symm
  have hadded := hbal.add operation
  rw [entry_eq hpeer] at hadded
  refine ⟨hnextValid, hadded.perm_table ?_⟩
  have hents := hperm.map Node.entry
  rwa [map_append] at hents

/-- The nodes of a cancel go, and its operations are cancelled. -/
theorem prepareCancels {nodes rest table : List Node} (hkeys : Keyed host.operations host)
    (h : Ledger.Balanced (fun operation => host.entry operation) host.operations host.canceled
      (table.map Node.entry)) (hnodes : table.Perm (nodes ++ rest)) :
    Ledger.Balanced (fun operation => host.entry operation) host.operations
      (host.prepareCancels (nodes.map Node.data)).canceled (rest.map Node.entry) := by
  have hperm := ((hnodes.trans perm_append_comm).symm).map Node.entry
  rw [map_append] at hperm
  have hbal := Ledger.Balanced.strike hkeys h hperm
  have hsame : (host.operations.filter fun operation =>
      (host.entry operation).1 ∈ (nodes.map Node.entry).map Prod.fst) =
        host.operations.filter fun operation => host.data operation ∈ nodes.map Node.data := by
    simp only [fst_entry, map_map]
    rfl
  rw [hsame] at hbal
  exact hbal

theorem cancelByFd {fd free : ℕ} (h : Booked host.operations host)
    (hkeys : Keyed host.operations host)
    (hroom : ∀ map, host.events = some map → EventMap.Roomy map (fd, free)) :
    Booked host.operations (host.cancelByFd fd free).2 := by
  intro next hnext hprime
  obtain ⟨map, done, prepared, hmap, hcancel, hhost⟩ := exists_of_cancelByFd hnext
  obtain ⟨indices, hrun⟩ := EventMap.exists_run_of_cancelByFd hcancel
  obtain ⟨hvalid, hbal⟩ := h map hmap (prime_of_run hrun ▸ hprime)
  rw [hhost]
  rcases hroom map hmap with hzero | ⟨hle, hplace⟩
  · obtain rfl : free = 0 := hzero
    obtain ⟨done, hnone⟩ := EventMap.cancelByFd_zero map fd
    obtain ⟨-, heq⟩ := Prod.mk.inj (Option.some.inj (hnone.symm.trans hcancel))
    obtain ⟨rfl, rfl⟩ := Prod.mk.inj heq
    have hsame : map.nodes.Perm ([] ++ map.nodes) := .refl _
    exact ⟨hvalid, prepareCancels hkeys hbal hsame⟩
  · obtain ⟨after, hafter, hnextValid, hperm⟩ := EventMap.exists_cancelByFd hvalid hle hplace
    obtain ⟨-, heq⟩ := Prod.mk.inj (Option.some.inj (hafter.symm.trans hcancel))
    obtain ⟨rfl, rfl⟩ := Prod.mk.inj heq
    exact ⟨hnextValid, prepareCancels hkeys hbal hperm⟩

theorem checkEventTimeouts (h : Booked host.operations host) (hkeys : Keyed host.operations host)
    {now : ℕ → ℕ} {free : ℕ} (hfrees : Frees host (.checkEventTimeouts now free)) :
    Booked host.operations (host.checkEventTimeouts now free) := by
  intro next hnext hprime
  obtain ⟨map, prepared, hmap, hcheck, hhost⟩ := exists_of_checkEventTimeouts hnext
  obtain ⟨indices, hrun⟩ := EventMap.exists_run_of_checkEventTimeouts hcheck
  obtain ⟨hvalid, hbal⟩ := h map hmap (prime_of_run hrun ▸ hprime)
  obtain ⟨after, hafter, hnextValid, hperm⟩ :=
    EventMap.exists_checkEventTimeouts hvalid (hfrees map hmap)
  obtain ⟨rfl, rfl⟩ := Prod.mk.inj (Option.some.inj (hafter.symm.trans hcheck))
  rw [hhost]
  have hstruck := prepareCancels hkeys hbal hperm
  rw [map_map] at hstruck
  exact ⟨hnextValid, hstruck⟩

/-- An operation is through. -/
theorem retire (h : Booked (operation :: operations) host)
    (hkeys : Keyed (operation :: operations) host) : Booked operations (host.retire operation) := by
  intro next hnext hprime
  obtain ⟨map, hmap, hremove⟩ := Option.bind_eq_some_iff.mp hnext
  obtain ⟨indices, hrun⟩ := EventMap.exists_run_of_removeEvent hremove
  obtain ⟨hvalid, hbal⟩ := h map hmap (prime_of_run hrun ▸ hprime)
  obtain ⟨after, hafter, hnextValid, hnodes⟩ :=
    EventMap.exists_removeEvent hvalid (host.data operation)
  obtain rfl := Option.some.inj (hafter.symm.trans hremove)
  have hremoved := Ledger.Balanced.remove hkeys hbal
  rw [filter_map, fst_entry] at hremoved
  refine ⟨hnextValid, hremoved.perm_table (List.Perm.map _ ?_)⟩
  refine (perm_ext_iff_of_nodup (hvalid.nodup.filter _) hnextValid.nodup).mpr fun node => ?_
  rw [hnodes, mem_filter, Function.comp_apply, decide_eq_true_iff]
  rfl

end Booked

/-! ### The calls of a step -/

theorem modifyPeer_use {index : ℕ} (h : host.Intact index) :
    host.modifyPeer index Peer.use = host := by
  have hpeers : host.peers.modify index Peer.use = host.peers := by
    refine ext_getElem? fun other => ?_
    rw [getElem?_modify]
    cases hpeer : host.peers[other]? with
    | none => rfl
    | some peer =>
      rw [Option.map_eq_map, Option.map_some]
      split
      · rename_i heq
        subst heq
        rw [Peer.use_of_destroys (h peer hpeer)]
      · rfl
  unfold modifyPeer
  rw [hpeers]

theorem peers_addEvent (host : Host) (now : ℕ) (operation : Operation) :
    (host.addEvent now operation).peers = host.peers := by
  unfold addEvent
  split <;> rfl

theorem submit_eq {submission : Submission} (h : host.Intact submission.call.channel) (now : ℕ) :
    host.submit now submission = host.addEvent now (.entry submission) := by
  have huse : Host.Intact submission.call.channel (host.addEvent now (.entry submission)) := by
    unfold Intact
    rw [peers_addEvent]
    exact h
  unfold submit
  cases submission.call.request.event with
  | receiveMessage | sendMessage | connect => exact modifyPeer_use huse
  | read | write => rfl

theorem operations_accept (host : Host) (now index : ℕ) :
    (host.accept now index).operations = host.operations ++ [.accept index] := by
  have hadd := operations_of_core (core_addEvent
    (modifyPeer index (fun peer => { peer.use with rearmed := peer.rearmed +
      if (host.transport.channels[index]?.map Channel.closing).getD false then 1 else 0 })
      { host with accepts := host.accepts ++ [index] }) now (.accept index))
  refine (hadd : (host.accept now index).operations = _).trans ?_
  unfold operations modifyPeer
  dsimp only
  rw [map_append, append_assoc]
  rfl

theorem entry_accept (host : Host) (now index : ℕ) (operation : Operation) :
    (host.accept now index).entry operation = host.entry operation := by
  unfold accept
  refine (entry_of_core (core_addEvent _ _ _) operation).trans ?_
  exact entry_modifyPeer _ _ (fun peer => place_use peer _) operation

theorem places_accept (host : Host) (now index : ℕ) (free : ℕ → ℕ) (indices : List ℕ) :
    (host.accept now index).places free indices = host.places free indices := by
  refine places_congr (fun other => ?_) free indices
  unfold accept
  rw [peers_addEvent, getElem?_modifyPeer, Option.map_map]
  refine congrArg (Option.map · _) (funext fun peer => ?_)
  rw [Function.comp_apply]
  split
  · rw [Peer.use_eq]
  · rfl

/-- The pointers do not change with the rest of a peer. -/
theorem intact_modifyPeer {index other : ℕ} {f : Peer → Peer}
    (hf : ∀ peer, (f peer).destroys = peer.destroys) :
    (host.modifyPeer index f).Intact other ↔ host.Intact other := by
  unfold Intact
  rw [getElem?_modifyPeer]
  cases host.peers[other]? with
  | none => exact ⟨fun _ _ h => (by cases h), fun _ _ h => (by cases h)⟩
  | some peer =>
    have hdestroys : (if index = other then f peer else peer).destroys = peer.destroys := by
      split
      · exact hf peer
      · rfl
    rw [Option.map_some]
    refine ⟨fun h found heq => ?_, fun h found heq => ?_⟩
    · rw [← Option.some.inj heq, ← hdestroys]
      exact h _ rfl
    · rw [← Option.some.inj heq, hdestroys]
      exact h _ rfl

namespace Booked

/-- What a step hands to the ring. -/
theorem submits {operations : List Operation} (h : Booked operations host) (now : ℕ)
    (entries : List Submission)
    (hintact : ∀ submission ∈ entries, host.Intact submission.call.channel)
    (hpeer : ∀ submission ∈ entries, ∃ peer, host.peers[submission.call.channel]? = some peer)
    (hkeys : Keyed (operations ++ entries.map .entry) host) :
    Booked (operations ++ entries.map .entry) (entries.foldl (submit now) host) := by
  induction entries generalizing host operations with
  | nil =>
    rw [map_nil, append_nil]
    exact h
  | cons submission entries ih =>
    obtain ⟨peer, hfound⟩ := hpeer submission mem_cons_self
    have hsubmit := submit_eq (hintact submission mem_cons_self) now
    have hassoc : operations ++ (submission :: entries).map Operation.entry =
        (operations ++ [.entry submission]) ++ entries.map .entry := by
      rw [map_cons, append_assoc, singleton_append]
    rw [hassoc] at hkeys ⊢
    rw [foldl_cons, hsubmit]
    have hpeers := peers_addEvent host now (.entry submission)
    have hfirst : Booked (operations ++ [.entry submission])
        (host.addEvent now (.entry submission)) :=
      h.addEvent (hkeys.sublist ((sublist_append_left _ _).map _)) hfound now
    refine ih hfirst (fun other hmem => ?_) (fun other hmem => ?_) ?_
    · unfold Intact
      rw [hpeers]
      exact hintact other (mem_cons_of_mem _ hmem)
    · rw [hpeers]
      exact hpeer other (mem_cons_of_mem _ hmem)
    · exact hkeys.congr fun operation => entry_congr (by rw [hpeers])

theorem events_cancel {index : ℕ} {peer : Peer} (hpeer : host.peers[index]? = some peer)
    (free : ℕ → ℕ) :
    (host.cancel free index).events = (host.cancelByFd peer.fd (free index)).2.events ∧
      (host.cancel free index).canceled = (host.cancelByFd peer.fd (free index)).2.canceled := by
  unfold Host.cancel
  rw [hpeer]
  dsimp only
  cases peer.role.kind <;> exact ⟨rfl, rfl⟩

/-- A cancel of a channel whose pointer is there. -/
theorem cancel {index : ℕ} {peer : Peer} (h : Booked host.operations host)
    (hkeys : Keyed host.operations host) (hintact : host.Intact index)
    (hpeer : host.peers[index]? = some peer) {free : ℕ → ℕ}
    (hroom : ∀ map, host.events = some map → EventMap.Roomy map (peer.fd, free index)) :
    Booked host.operations (host.cancel free index) := by
  obtain ⟨hev, hcancel⟩ := events_cancel hpeer free
  refine (h.cancelByFd hkeys hroom).frame hev hcancel fun operation _ => ?_
  exact entry_of_core ((host.core_cancel hintact free).trans
    (host.core_cancelByFd peer.fd (free index)).symm) operation

theorem foldl_cancel (h : Booked host.operations host) (hkeys : Keyed host.operations host)
    {free : ℕ → ℕ} (indices : List ℕ) (hintact : ∀ index ∈ indices, host.Intact index)
    (hroom : ∀ map, host.events = some map →
      Along EventMap.cancelStep EventMap.Roomy map (host.places free indices)) :
    Booked host.operations (indices.foldl (Host.cancel free) host) := by
  induction indices generalizing host with
  | nil => exact h
  | cons index indices ih =>
    have hself := hintact index mem_cons_self
    have hcore := host.core_cancel hself free
    rw [foldl_cons]
    cases hpeer : host.peers[index]? with
    | none =>
      have hcancel : host.cancel free index = host := by
        unfold Host.cancel
        rw [hpeer]
      have hplaces : host.places free (index :: indices) = host.places free indices :=
        filterMap_cons_none (by rw [hpeer]; rfl)
      rw [hcancel]
      rw [hplaces] at hroom
      exact ih h hkeys (fun other hmem => hintact other (mem_cons_of_mem _ hmem)) hroom
    | some peer =>
      have hplaces : host.places free (index :: indices) =
          (peer.fd, free index) :: host.places free indices :=
        filterMap_cons_some (by rw [hpeer]; rfl)
      rw [hplaces] at hroom
      have hcancel := h.cancel hkeys hself hpeer fun map hmap => (hroom map hmap).1
      rw [← operations_of_core hcore] at hcancel hkeys ⊢
      refine ih hcancel (hkeys.congr (entry_of_core hcore))
        (fun other hmem => (hintact other (mem_cons_of_mem _ hmem)).core hcore)
        fun next hnext => ?_
      rw [(events_cancel hpeer free).1] at hnext
      obtain ⟨map, done, prepared, hmap, hstep, -⟩ := exists_of_cancelByFd hnext
      rw [places_of_core hcore]
      refine (hroom map hmap).2 next ?_
      unfold EventMap.cancelStep
      rw [hstep]
      rfl

end Booked

/-! ### The steps -/

variable {state : State}

/-- Only the `close` functions and the completions bring a channel to await its `_closer`. -/
theorem awaiting_eq_nil {below : State} {action : Action}
    (hstep : Transport.step state action = some below) (htarget : closeTarget state action = none)
    (hconns : ∀ index, action ≠ .closedConnections index)
    (hclosed : ∀ index, action ≠ .closed index)
    (hcomplete : ∀ position result, action ≠ .complete position result) :
    awaiting state below = [] := by
  refine filter_eq_nil_iff.mpr fun index _ hawaits => ?_
  obtain ⟨hbefore, hafter⟩ := of_decide_eq_true hawaits
  obtain ⟨after, hfound, hstage⟩ := Option.map_eq_some_iff.mp hafter
  rcases before_step hstep hfound with ⟨before, hchan, halters⟩ | ⟨kind, server, -, -, rfl⟩
  · refine hbefore ?_
    rw [hchan, Option.map_some]
    cases halters with
    | keeps | proceeds | connects | expires => exact congrArg some hstage
    | closes _ hclose =>
      rw [htarget] at hclose
      cases hclose
    | lowers | lowersAndCloses => exact absurd rfl (hcomplete _ _)
    | beginsClose => exact absurd rfl (hconns _)
    | ends => exact absurd rfl (hclosed _)
  · cases hstage

/-- A step that submits cancels nothing. -/
theorem awaiting_of_submits {below : State} {action : Action} {entries : List Submission}
    (hstep : Transport.step state action = some below) (hsubmits : Submits state action entries)
    (hents : entries ≠ []) : awaiting state below = [] := by
  cases hsubmits with
  | none => exact absurd rfl hents
  | connect haction =>
    subst haction
    exact awaiting_eq_nil hstep rfl nofun nofun
      nofun
  | buffers hadv =>
    cases action with
    | call | resume =>
      exact awaiting_eq_nil hstep rfl nofun nofun
        nofun
    | _ => cases hadv

theorem perm_operations (accepts : List ℕ) (entries : List Submission) :
    (state.submitted.map Operation.entry ++ accepts.map Operation.accept ++
        entries.map Operation.entry).Perm
      ((state.submitted ++ entries).map Operation.entry ++ accepts.map Operation.accept) := by
  rw [map_append, append_assoc, append_assoc]
  exact perm_append_comm.append_left _

theorem Sane.peer_of_operation (h : Sane host) {operation : Operation}
    (hmem : operation ∈ host.operations) : ∃ peer, host.peers[operation.channel]? = some peer := by
  rcases mem_append.mp hmem with hmem | hmem
  · obtain ⟨submission, hsub, rfl⟩ := mem_map.mp hmem
    obtain ⟨position, hpos⟩ := mem_iff_getElem?.mp hsub
    obtain ⟨-, peer, -, hpeer, -⟩ := h.submitted hpos
    exact ⟨peer, hpeer⟩
  · obtain ⟨server, hsrv, rfl⟩ := mem_map.mp hmem
    obtain ⟨peer, hpeer, -⟩ := h.accepts server hsrv
    exact ⟨peer, hpeer⟩

/-- The pointer of the channel of an operation is there. -/
theorem Sane.intact_of_submitted (h : Sane host) {submission : Submission}
    (hmem : submission ∈ host.transport.submitted) : host.Intact submission.call.channel := by
  obtain ⟨position, hpos⟩ := mem_iff_getElem?.mp hmem
  obtain ⟨channel, peer, -, hpeer, -, hlive, hholds⟩ := h.submitted hpos
  intro found hfound
  obtain rfl := Option.some.inj (hpeer.symm.trans hfound)
  exact hholds.intact hlive

namespace Booked

/-- A step of the transport with its native calls. -/
theorem act {action : Action} {free : ℕ → ℕ} {now : ℕ} {below : State}
    (h : Booked host.operations host) (hstand : Standing host.transport)
    (hcomplete : ∀ position result, action ≠ .complete position result)
    (hact : host.act action free now = some next)
    (hbelow : Transport.step host.transport action = some below)
    (hcore : next.core = Host.core { host with transport := below }) (hsane : Sane next)
    (hkeys : Keyed next.operations next)
    (hroom : ∀ map, host.events = some map → Along EventMap.cancelStep EventMap.Roomy map
      (host.places free (awaiting host.transport below))) : Booked next.operations next := by
  obtain ⟨found, hfound, hnext, -⟩ := act_cases hact
  obtain rfl := Option.some.inj (hbelow.symm.trans hfound)
  have htrans : next.transport = below := (congrArg Host.transport hcore :)
  have hops := operations_of_core hcore
  obtain ⟨entries, hsubmits, hreqs, hsubm⟩ := submits_step hstand hbelow
  have hrem : remaining host.transport action = host.transport.submitted := by
    unfold remaining
    split
    · exact absurd rfl (hcomplete _ _)
    · rfl
  rw [hrem] at hsubm
  rw [hreqs, drop_left] at hnext
  have hintact (submission : Submission) (hmem : submission ∈ entries) :
      Intact submission.call.channel { host with transport := below } := by
    refine (hsane.intact_of_submitted ?_).core hcore.symm
    rw [htrans, hsubm]
    exact mem_append_right _ hmem
  have hpeer (submission : Submission) (hmem : submission ∈ entries) :
      ∃ peer, host.peers[submission.call.channel]? = some peer := by
    have hsub : submission ∈ next.transport.submitted := by
      rw [htrans, hsubm]
      exact mem_append_right _ hmem
    obtain ⟨position, hpos⟩ := mem_iff_getElem?.mp hsub
    obtain ⟨-, peer, -, hpeer, -⟩ := hsane.submitted hpos
    obtain ⟨before, hbefore, -⟩ := exists_of_core hcore hpeer
    exact ⟨before, hbefore⟩
  have hperm : (host.operations ++ entries.map Operation.entry).Perm next.operations := by
    rw [hops]
    unfold operations
    dsimp only
    rw [hsubm]
    exact perm_operations host.accepts entries
  have hstart : Booked host.operations { host with transport := below } := h
  have hstartKeys : Keyed (host.operations ++ entries.map .entry)
      { host with transport := below } := by
    refine Keyed.congr ?_ fun operation => (entry_of_core hcore operation).symm
    exact (hperm.map _).nodup_iff.mpr hkeys
  have hsubmit := hstart.submits now entries hintact hpeer hstartKeys
  have hmid := core_foldl { host with transport := below }
    (fun host _ hintact => core_submit host hintact now) entries hintact
  by_cases hents : entries = []
  · subst hents
    rw [foldl_nil] at hnext
    rw [map_nil, append_nil] at hperm hstartKeys
    have hsame : Host.operations { host with transport := below } = host.operations := by
      unfold operations
      dsimp only
      rw [hsubm, append_nil]
    rw [← hsame] at hstart hstartKeys
    have hfinal := hstart.foldl_cancel hstartKeys (awaiting host.transport below)
      (fun index hmem => ?_) hroom
    · rw [← hnext, hsame] at hfinal
      exact hfinal.perm_elements hperm
    · obtain ⟨channel, hchan, hstage⟩ := mem_awaiting hmem
      rw [← htrans] at hchan
      exact (hsane.intact_of_awaits hchan hstage).core hcore.symm
  · rw [awaiting_of_submits hbelow hsubmits hents, foldl_nil] at hnext
    rw [← hnext] at hsubmit
    exact hsubmit.perm_elements hperm

theorem add {role : Role} {server : Option ℕ} {fd : ℕ} {timeouts : Timeouts}
    (h : Booked host.operations host) (hsane : Sane host)
    (hadd : Host.add role server fd timeouts host = some next) :
    Booked next.operations next ∧ next.operations = host.operations := by
  obtain ⟨below, -, hbelow, rfl⟩ := add_cases hadd
  have hops : (register role.kind fd host.transport.channels.length
      { host with
        transport := below, peers := host.peers ++ [.create role fd timeouts] }).operations =
        host.operations := by
    unfold operations
    rw [transport_register, accepts_register, hbelow]
  rw [hops]
  refine ⟨h.frame ?_ ?_ fun operation hmem => entry_congr ?_, rfl⟩
  · cases role.kind <;> rfl
  · cases role.kind <;> rfl
  · obtain ⟨peer, hpeer⟩ := hsane.peer_of_operation hmem
    rw [peers_register]
    dsimp only
    rw [getElem?_append_left (List.getElem?_eq_some_iff.mp hpeer).1]

theorem accept {index : ℕ} {peer : Peer} (h : Booked host.operations host)
    (hpeer : host.peers[index]? = some peer) {now : ℕ}
    (hkeys : Keyed (host.accept now index).operations (host.accept now index)) :
    Booked (host.accept now index).operations (host.accept now index) := by
  rw [operations_accept] at hkeys ⊢
  have hstart := hkeys.congr fun operation => (entry_accept host now index operation).symm
  unfold Host.accept
  refine addEvent ?_ ?_ (getElem?_modifyPeer_self _ hpeer _) now
  · exact h.frame rfl rfl fun operation _ => entry_modifyPeer _ _
      (fun peer => place_use peer _) operation
  · exact hstart.congr fun operation => entry_modifyPeer _ _
      (fun peer => place_use peer _) operation

/-- A channel that goes. -/
theorem leave {index : ℕ} {peer : Peer} {f : Peer → Peer} (h : Booked host.operations host)
    (hf : ∀ peer, place (f peer) = place peer) :
    Booked ((host.leave peer).modifyPeer index f).operations
      ((host.leave peer).modifyPeer index f) := by
  have hops : ((host.leave peer).modifyPeer index f).operations = host.operations := by
    unfold operations modifyPeer
    dsimp only
    rw [transport_leave, accepts_leave]
  rw [hops]
  refine h.frame ?_ ?_ fun operation _ => ?_
  · unfold modifyPeer Host.leave
    cases peer.role.kind <;> rfl
  · unfold modifyPeer Host.leave
    cases peer.role.kind <;> rfl
  · exact (entry_modifyPeer _ _ hf operation).trans (entry_congr (by rw [peers_leave]))

/-- What is left behind a completion of the ring. -/
theorem retired {operation : Operation} {rest : List Operation} (h : Booked host.operations host)
    (hkeys : Keyed host.operations host) (hperm : host.operations.Perm (operation :: rest)) :
    Booked rest (host.retire operation) :=
  retire (h.perm_elements hperm) ((hperm.map _).nodup_iff.mp hkeys)

end Booked

/-- The host when a completion has come to its channel, before anything is cancelled. -/
def notified (position : ℕ) (submission : Submission) (channel : Channel) (result : ℤ)
    (below : State) (host : Host) : Host :=
  modifyPeer submission.call.channel (Peer.notify channel submission result)
    { Host.retire (.entry submission) { host with
      transport := { host.transport with
        submitted := host.transport.submitted.eraseIdx position } } with
      transport := below }

section Notified

variable {position : ℕ} {submission : Submission} {channel : Channel} {result : ℤ} {below : State}

theorem peers_notified : (host.notified position submission channel result below).peers =
    (host.modifyPeer submission.call.channel (Peer.notify channel submission result)).peers := rfl

theorem events_notified (hsub : host.transport.submitted[position]? = some submission)
    (free : ℕ → ℕ) : (host.notified position submission channel result below).events =
      host.table (.complete position result free) := by
  unfold table
  dsimp only
  rw [hsub]
  rfl

/-- The operation that is completed goes, with its node. -/
theorem Booked.notified (h : Booked host.operations host) (hkeys : Keyed host.operations host)
    (hsub : host.transport.submitted[position]? = some submission)
    (hsubm : below.submitted = host.transport.submitted.eraseIdx position) :
    Booked (host.notified position submission channel result below).operations
      (host.notified position submission channel result below) := by
  have hperm : host.operations.Perm (.entry submission ::
      (below.submitted.map Operation.entry ++ host.accepts.map Operation.accept)) := by
    obtain ⟨hpos, rfl⟩ := List.getElem?_eq_some_iff.mp hsub
    rw [hsubm, ← cons_append, ← map_cons]
    exact ((getElem_cons_eraseIdx_perm hpos).symm.map _).append_right _
  have hplace (peer : Peer) : place (peer.notify channel submission result) = place peer := rfl
  have hops : (host.notified position submission channel result below).operations =
      below.submitted.map Operation.entry ++ host.accepts.map Operation.accept := rfl
  rw [hops]
  refine (h.retired hkeys hperm).frame rfl rfl fun operation _ => ?_
  exact (entry_congr (by rw [peers_notified])).trans (entry_modifyPeer host _ hplace operation)

/-- The pointers are as before. -/
theorem intact_notified {index : ℕ} :
    (host.notified position submission channel result below).Intact index ↔ host.Intact index := by
  have hdestroys (peer : Peer) :
      (peer.notify channel submission result).destroys = peer.destroys := rfl
  unfold Intact
  rw [peers_notified]
  exact intact_modifyPeer hdestroys

end Notified

namespace Booked

/-- A completion. -/
theorem complete {position : ℕ} {result : ℤ} {free : ℕ → ℕ} (h : Booked host.operations host)
    (hkeys : Keyed host.operations host) (hsane : Sane host)
    (hfirst : ConnectsFirst host (.complete position result free))
    (hfrees : Frees host (.complete position result free))
    (hlt : ∀ submission ∈ host.transport.submitted, ∀ bufferId,
      submission.bufferId = some bufferId → bufferId < 2 ^ 16)
    (hstep : host.step (.complete position result free) = some next)
    (hnextKeys : Keyed next.operations next) : Booked next.operations next := by
  obtain ⟨submission, channel, below, cancels, hsub, hchan, hbelow, hcancels, hnext⟩ :=
    hsane.complete_cases hstep
  obtain ⟨found, other, after, hfound, hafter, hcore, hsaneNext⟩ := hsane.complete hfirst hstep
  obtain rfl := Option.some.inj (hsub.symm.trans hfound)
  obtain rfl := Option.some.inj (hbelow.symm.trans hafter)
  rw [rebuffer_eq hsub (hlt submission (mem_of_getElem? hsub))] at hbelow
  have htrans : next.transport = below := (congrArg Host.transport hcore :)
  change next = cancels.foldl (Host.cancel free)
    (host.notified position submission channel result below) at hnext
  have hbooked := @Booked.notified _ _ _ channel result _ h hkeys hsub
    (hsane.submitted_complete hbelow)
  have hev := @events_notified _ _ _ channel result below hsub free
  have hintact (index : ℕ) (hmem : index ∈ cancels) :
      (host.notified position submission channel result below).Intact index := by
    have hawaiting : index ∈ awaiting host.transport below := by
      rcases hcancels with heq | heq
      · rw [heq] at hmem
        cases hmem
      · rwa [heq] at hmem
    obtain ⟨found, hfound, hstage⟩ := mem_awaiting hawaiting
    rw [← htrans] at hfound
    have hnotified := (hsaneNext.intact_of_awaits hfound hstage).core hcore.symm
    have hdestroys (peer : Peer) :
        (peer.notify other submission result).destroys = peer.destroys := rfl
    exact intact_notified.mpr ((intact_modifyPeer hdestroys).mp hnotified)
  have hcoreNotified :
      next.core = (host.notified position submission channel result below).core := by
    rw [hnext]
    exact core_foldl _ (fun host _ hintact => core_cancel host hintact free) cancels hintact
  have hnotifiedKeys :=
    hnextKeys.congr fun operation => (entry_of_core hcoreNotified operation).symm
  rw [operations_of_core hcoreNotified] at hnotifiedKeys ⊢
  rw [hnext]
  refine hbooked.foldl_cancel hnotifiedKeys cancels hintact fun map hmap => ?_
  rcases hcancels with rfl | rfl
  · trivial
  · have hroom := hfrees map (hev ▸ hmap)
    rw [cancels_of_step hstep nofun, htrans,
      places_of_core hcoreNotified] at hroom
    exact hroom

end Booked

/-- A channel that is new awaits nothing. -/
theorem awaiting_append (state below : State) (kind : Kind) (server : Option ℕ) :
    awaiting { state with channels := state.channels ++ [.create kind server] } below =
      awaiting state below := by
  refine filter_congr fun index _ => ?_
  have hbefore : (state.channels ++ [.create kind server])[index]?.map Channel.stage ≠
      some (.awaits false) ↔ state.channels[index]?.map Channel.stage ≠ some (.awaits false) := by
    rw [getElem?_append]
    split
    · exact Iff.rfl
    · rename_i hlt
      rw [getElem?_eq_none (not_lt.mp hlt), getElem?_singleton]
      split
      · exact iff_of_true nofun nofun
      · exact Iff.rfl
  exact decide_eq_decide.mpr (and_congr_left fun _ => hbefore)

namespace Booked

variable {position now : ℕ} {free : ℕ → ℕ}

theorem perm_accepts {server : ℕ} (h : host.accepts[position]? = some server) (result : ℤ) :
    host.operations.Perm
      (.accept server :: (host.retireAccept position server result).operations) := by
  obtain ⟨hpos, rfl⟩ := List.getElem?_eq_some_iff.mp h
  have hperm := (getElem_cons_eraseIdx_perm hpos).symm.map Operation.accept
  exact (hperm.append_left _).trans perm_middle

/-- A server takes a connection. -/
theorem takes {server : ℕ} {result : ℤ} {acceptor : Option Bool} {armed : Bool} {taken : Host}
    {peer : Peer}
    (h : Booked (host.retireAccept position server result).operations
      (host.retireAccept position server result)) (hsane : Sane host)
    (hsrv : host.accepts[position]? = some server) (hpeer : host.peers[server]? = some peer)
    (hkind : peer.role.kind = .server) (hlive : peer.live = true)
    (hfresh : 0 < result → host.fresh result.toNat)
    (hfrees : ∀ map, host.table (.accepted position result acceptor armed free now) = some map →
      Along EventMap.cancelStep EventMap.Roomy map
        (taken.places free (awaiting host.transport taken.transport)))
    (hkeys : Keyed taken.operations taken)
    (htakes :
    Takes server result acceptor free now (host.retireAccept position server result) taken) :
    Booked taken.operations taken := by
  have hretired := hsane.retireAccept position server result
  have htable : (host.retireAccept position server result).events =
      host.table (.accepted position result acceptor armed free now) := by
    unfold table
    dsimp only
    rw [hsrv]
    rfl
  cases htakes with
  | error => exact h
  | connection _ _ hadd => exact (h.add hretired hadd).1
  | @closes found added _ graceful hpos _ hadd hact =>
    have hgiven := hsane.given_retireAccept hpos (hfresh hpos) position server
    obtain ⟨hadded, hops⟩ := h.add hretired hadd
    obtain ⟨hsaneAdded, hfound⟩ := hretired.addConnection hpeer hgiven hadd
    obtain ⟨below, hbelow, hcore, hclosed⟩ := hsaneAdded.closeServer hfound hkind hlive hact
    have htrans : taken.transport = below := (congrArg Host.transport hcore :)
    obtain ⟨hev, hbefore⟩ : added.events = host.table
          (.accepted position result acceptor armed free now) ∧
        awaiting host.transport below = awaiting added.transport below := by
      obtain ⟨opened, -, hopened, rfl⟩ := add_cases hadd
      rw [transport_register, hopened, ← htable]
      exact ⟨rfl, (awaiting_append host.transport below _ _).symm⟩
    refine hadded.act hsaneAdded.linked.standing (fun _ _ h => by cases h) hact hbelow hcore hclosed
      hkeys fun map hmap => ?_
    have hroom := hfrees map (hev ▸ hmap)
    rwa [places_of_core hcore, htrans, hbefore] at hroom

/-- The completion of an accept. -/
theorem accepted {result : ℤ} {acceptor : Option Bool} {armed : Bool}
    (h : Booked host.operations host) (hkeys : Keyed host.operations host) (hsane : Sane host)
    (harmed : Armed host)
    (hfrees : Frees host (.accepted position result acceptor armed free now))
    (hstep : host.step (.accepted position result acceptor armed free now) = some next)
    (hnextKeys : Keyed next.operations next) : Booked next.operations next := by
  have hcancels := cancels_of_step hstep nofun
  obtain ⟨server, hsrv, hfresh, hcases⟩ := accepted_cases hstep
  have hperm := perm_accepts hsrv result
  have hretired : Booked (host.retireAccept position server result).operations
      (host.retireAccept position server result) := h.retired hkeys hperm
  rcases hcases with rfl | ⟨index, channel, taken, hroute, hchan, hclosing, htakes, rfl⟩
  · exact hretired
  · obtain rfl : server = index := Delivery.notifyAccept.inj (Option.some.inj
      ((harmed.route_accept hsane (mem_of_getElem? hsrv)).symm.trans hroute))
    obtain ⟨peer, hpeer, hkind⟩ := hsane.accepts server (mem_of_getElem? hsrv)
    have hlive := hsane.live_server hchan hpeer hkind hclosing
    have hgiven (hpos : 0 < result) :=
      hsane.given_retireAccept hpos (hfresh hpos) position server
    obtain ⟨-, found, hfound, -⟩ :=
      (hsane.retireAccept position server result).takes hpeer hkind hlive hgiven htakes
    have hplaces : (if armed = true then taken.accept now server else taken).transport =
          taken.transport ∧ ∀ indices,
        (if armed = true then taken.accept now server else taken).places free indices =
          taken.places free indices := by
      split
      · exact ⟨(congrArg Host.transport (core_addEvent _ now (.accept server)) :),
          places_accept taken now server free⟩
      · exact ⟨rfl, fun _ => rfl⟩
    have htakenKeys : Keyed taken.operations taken := by
      split at hnextKeys
      · rw [operations_accept] at hnextKeys
        have hsublist : Keyed taken.operations (taken.accept now server) :=
          hnextKeys.sublist ((sublist_append_left _ _).map _)
        exact hsublist.congr fun operation => (entry_accept taken now server operation).symm
      · exact hnextKeys
    have hroom (map : Map Node)
        (hmap : host.table (.accepted position result acceptor armed free now) = some map) :
        Along EventMap.cancelStep EventMap.Roomy map
          (taken.places free (awaiting host.transport taken.transport)) := by
      have halong := hfrees map hmap
      rw [hcancels, hplaces.1] at halong
      exact hplaces.2 _ ▸ halong
    have htaken := hretired.takes hsane hsrv hpeer hkind hlive hfresh hroom htakenKeys htakes
    split
    · rename_i harmed
      rw [if_pos harmed] at hnextKeys
      exact htaken.accept hfound hnextKeys
    · exact htaken

/-- The timeout of a graceful `close` submits nothing, and cancels nothing of its own. -/
theorem act_timeout {index : ℕ} (hstand : Standing host.transport)
    (hact : host.act (.timeout index) free now = some next) :
    ∃ below, Transport.step host.transport (.timeout index) = some below ∧
      below.submitted = host.transport.submitted ∧ next = { host with transport := below } := by
  obtain ⟨below, hbelow, hnext, -⟩ := act_cases hact
  obtain ⟨hreqs, hsubm⟩ := submitted_step hstand hbelow rfl nofun
  have hawaiting := awaiting_eq_nil hbelow rfl nofun nofun
    nofun
  rw [hawaiting, hreqs, drop_length] at hnext
  exact ⟨below, hbelow, hsubm, hnext⟩

theorem step {capacity : ℕ} (hcap : capacity ≤ 2 ^ 16) {action : HostAction}
    (h : Booked host.operations host)
    (hroutes : Sane host ∧ Armed host ∧
      Reachable Transport.step (State.create capacity) host.transport)
    (hfirst : ConnectsFirst host action) (hawaited : AcceptsAwaited host action)
    (hfrees : Frees host action) (hstep : host.step action = some next) :
    Booked next.operations next := by
  obtain ⟨hsane, harmed, hreach⟩ := hroutes
  obtain ⟨hsaneNext, harmedNext, hreachNext⟩ :=
    routed_step hcap ⟨hsane, harmed, hreach⟩ hfirst hawaited hstep
  have hkeys := keyed_of_routes (routes_of_armed hcap hsane harmed hreach)
  have hnextKeys := keyed_of_routes (routes_of_armed hcap hsaneNext harmedNext hreachNext)
  have hstand := hsane.linked.standing
  cases action with
  | openChannel role fd timeouts armed now =>
    obtain ⟨added, hgiven, hsaneAdded, hadd, hcases⟩ := hsane.opens hstep
    have hdescriptors : Booked host.operations
        { host with descriptors := host.descriptors ++ [fd] } := h
    have hadded := (hdescriptors.add hgiven hadd).1
    rcases hcases with ⟨below, hact, hbelow, hcore, -⟩ | ⟨-, rfl⟩ | rfl
    · refine hadded.act hsaneAdded.linked.standing (fun _ _ h => by cases h) hact hbelow hcore
        hsaneNext hnextKeys fun map _ => ?_
      rw [awaiting_eq_nil hbelow rfl (fun _ h => by cases h) (fun _ h => by cases h)
        fun _ _ h => by cases h]
      trivial
    · exact hadded.accept (hgiven.getElem?_add hadd) hnextKeys
    · exact hadded
  | act action free now =>
    obtain ⟨hpermits, hcases⟩ := step_act hstep
    rcases hcases with hact | ⟨index, after, rfl, hafter, rfl⟩
    · obtain ⟨below, hbelow, hcore, -⟩ := hsane.act_of_connectsFirst hpermits hfirst hact
      have htrans : next.transport = below := (congrArg Host.transport hcore :)
      obtain ⟨-, -, hcomplete⟩ := Sane.permits_cases hpermits
      refine h.act hstand hcomplete hact hbelow hcore hsaneNext hnextKeys fun map hmap => ?_
      by_cases htimeout : ∃ index, action = .timeout index
      · obtain ⟨index, rfl⟩ := htimeout
        rw [awaiting_eq_nil hbelow rfl nofun nofun
          nofun]
        trivial
      · have hroom := hfrees map hmap
        rw [cancels_of_step hstep fun index _ _ heq =>
          htimeout ⟨index, (HostAction.act.inj heq).1⟩, htrans, places_of_core hcore] at hroom
        exact hroom
    · obtain ⟨-, -, -, hsaneAfter⟩ := hsane.act_of_connectsFirst hpermits hfirst hafter
      obtain ⟨below, hbelow, hsubm, rfl⟩ := act_timeout hstand hafter
      have hsame : Host.operations { host with transport := below } = host.operations := by
        unfold operations
        dsimp only
        rw [hsubm]
      have hbelowBooked : Booked host.operations { host with transport := below } := h
      have hbelowKeys : Keyed host.operations { host with transport := below } := hkeys
      rw [← hsame] at hbelowBooked hbelowKeys
      obtain ⟨channel, hchan, hstage⟩ := timeout_step hbelow
      have hintact := hsaneAfter.intact_of_awaits hchan hstage
      rw [operations_of_core (core_cancel _ hintact free)]
      exact hbelowBooked.foldl_cancel hbelowKeys [index]
        (fun other hmem => mem_singleton.mp hmem ▸ hintact) hfrees
  | complete position result free =>
    exact h.complete hkeys hsane hfirst hfrees (fun submission hmem bufferId hbuf =>
      bufferId_lt hcap hreach hmem hbuf) hstep hnextKeys
  | accepted position result acceptor armed free now =>
    exact h.accepted hkeys hsane harmed hfrees hstep hnextKeys
  | finish index =>
    obtain ⟨channel, peer, -, -, -, -, hcases⟩ := finish_cases hstep
    rcases hcases with ⟨-, rfl⟩ | ⟨-, rfl⟩
    · refine h.leave fun peer => ?_
      rw [Peer.use_eq]
      rfl
    · exact h.leave fun peer => rfl
  | report index =>
    obtain ⟨peer, -, -, -, -, rfl⟩ := report_cases hstep
    refine h.leave fun peer => ?_
    rw [Peer.use_eq]
    rfl
  | checkEventTimeouts now free =>
    cases hstep
    rw [operations_of_core (host.core_checkEventTimeouts now free)]
    exact h.checkEventTimeouts hkeys hfrees

end Booked

end Host

end FengShui.Transport
