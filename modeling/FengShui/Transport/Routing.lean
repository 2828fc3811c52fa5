import FengShui.Transport.Conservation
import FengShui.Transport.HostSteps

/-!
# To whom a completion goes (`transport/transport.c`, `transport/transport.dart`)

The user data of an operation is its descriptor, its buffer and its event, and the registries are
keyed by descriptors, whose numbers the kernel gives again. So a completion comes to its channel as
long as no descriptor is closed under an operation: `close` sees to it for what it counts in
`_pending`, but not for the accept of a server (`routes_false`), nor where the factory of the unix
stream clients cleans up behind them. Without these two every completion comes to where it was
issued, and no two operations have the same user data (`routes_of_acceptsAwaited`).
-/

namespace FengShui.Transport.Host

open FengShui.Transition State List

/-- Every operation in flight has user data of its own, and its completion goes to the channel that
issued it, with its buffer and its event, or to nobody where the channel is gone. -/
def Routes (host : Host) : Prop :=
  (host.operations.map fun operation => host.data operation).Nodup ∧
    ∀ operation ∈ host.operations, ∃ peer, host.peers[operation.channel]? = some peer ∧
      host.route (host.data operation) = if peer.live then some operation.delivery else none

/-- A server does not come to the end of its `close` while its accept is in flight. -/
def AcceptsAwaited (host : Host) : HostAction → Prop
  | .finish index => index ∉ host.accepts
  | _ => True

/-- The accepts in flight are of servers that are there, one of each. -/
structure Armed (host : Host) : Prop where
  nodup : host.accepts.Nodup
  live : ∀ server ∈ host.accepts, ∃ peer, host.peers[server]? = some peer ∧ peer.live = true

variable {host next : Host}

section Refinement

/-- The id of a buffer of a pool that the kernel registers has 16 bits. -/
theorem bufferId_lt {capacity : ℕ} {state : State} (hcap : capacity ≤ 2 ^ 16)
    (hreach : Reachable Transport.step (State.create capacity) state) {submission : Submission}
    (hmem : submission ∈ state.submitted) {bufferId : ℕ}
    (hbuf : submission.bufferId = some bufferId) : bufferId < 2 ^ 16 := by
  obtain ⟨lost, hperm⟩ := exists_lost hreach
  have hplaced : bufferId ∈ state.placed := mem_append_right _ (mem_append_left _
    (mem_filterMap.mpr ⟨submission, hmem, hbuf⟩))
  have hrange := hperm.mem_iff.mp (mem_append_left lost hplaced)
  exact (mem_range.mp hrange).trans_le hcap

theorem rebuffer_eq {position : ℕ} {submission : Submission}
    (hsub : host.transport.submitted[position]? = some submission)
    (hlt : ∀ bufferId, submission.bufferId = some bufferId → bufferId < 2 ^ 16) :
    host.rebuffer position submission = host := by
  have hsame : { submission with bufferId := submission.bufferId.map (· % 2 ^ 16) } =
      submission := by
    cases hbuf : submission.bufferId with
    | none => rw [Option.map_none, ← hbuf]
    | some bufferId =>
      rw [Option.map_some, Nat.mod_eq_of_lt (hlt bufferId hbuf), ← hbuf]
  obtain ⟨hpos, rfl⟩ := List.getElem?_eq_some_iff.mp hsub
  unfold rebuffer
  rw [hsame, set_getElem_self]

/-- What happens to the channels here is a run of the transport. -/
theorem Sane.reachable {capacity : ℕ} {action : HostAction} (h : Sane host)
    (hcap : capacity ≤ 2 ^ 16)
    (hreach : Reachable Transport.step (State.create capacity) host.transport)
    (hfirst : ConnectsFirst host action) (hstep : host.step action = some next) :
    Reachable Transport.step (State.create capacity) next.transport := by
  -- Most steps are one of the transport, up to what the core leaves out.
  have hcoreStep {start after : Host} {below : State} {action : Action}
      (hstart : Reachable Transport.step (State.create capacity) start.transport)
      (hbelow : Transport.step start.transport action = some below)
      (hcore : after.core = Host.core { start with transport := below }) :
      Reachable Transport.step (State.create capacity) after.transport := by
    have htrans : after.transport = below := (congrArg Host.transport hcore :)
    rw [htrans]
    exact hstart.tail hbelow
  -- A channel that is registered is opened in the transport.
  have hadds {start added : Host} {role : Role} {server : Option ℕ} {fd : ℕ} {timeouts : Timeouts}
      (hstart : Reachable Transport.step (State.create capacity) start.transport)
      (hadd : Host.add role server fd timeouts start = some added) :
      Reachable Transport.step (State.create capacity) added.transport := by
    obtain ⟨below, hbelow, -, rfl⟩ := add_cases hadd
    rw [transport_register]
    exact hstart.tail hbelow
  have haccepts (start : Host) (now index : ℕ) :
      (start.accept now index).transport = start.transport :=
    (congrArg Host.transport (core_addEvent _ now (.accept index)) :)
  cases action with
  | openChannel role fd timeouts armed now =>
    obtain ⟨added, -, -, hadd, hcases⟩ := h.opens hstep
    have hadded :=
      @hadds { host with descriptors := host.descriptors ++ [fd] } _ _ _ _ _ hreach hadd
    rcases hcases with ⟨below, -, hbelow, hcore, -⟩ | ⟨-, rfl⟩ | rfl
    · exact hcoreStep hadded hbelow hcore
    · rwa [haccepts]
    · exact hadded
  | act action free now =>
    obtain ⟨hpermits, hcases⟩ := step_act hstep
    rcases hcases with hact | ⟨index, after, rfl, hafter, rfl⟩
    · obtain ⟨below, hbelow, hcore, -⟩ := h.act_of_connectsFirst hpermits hfirst hact
      exact hcoreStep hreach hbelow hcore
    · obtain ⟨below, hbelow, hcore, hsane⟩ := h.act_of_connectsFirst hpermits hfirst hafter
      exact hcoreStep hreach hbelow ((Sane.core_timeout hbelow hcore hsane free).trans hcore)
  | complete position result free =>
    obtain ⟨submission, channel, below, hsub, hbelow, hcore, -⟩ := h.complete hfirst hstep
    -- The id of a buffer fits into its field, so that the entry comes back as it was.
    rw [rebuffer_eq hsub fun bufferId hbuf =>
      bufferId_lt hcap hreach (mem_of_getElem? hsub) hbuf] at hbelow
    have htrans : next.transport = below := (congrArg Host.transport hcore :)
    rw [htrans]
    exact hreach.tail hbelow
  | accepted position result acceptor armed free now =>
    obtain ⟨server, -, hfresh, hcases⟩ := accepted_cases hstep
    have hretired : Reachable Transport.step (State.create capacity)
        (host.retireAccept position server result).transport := hreach
    rcases hcases with rfl | ⟨index, channel, taken, hroute, hchan, hclosing, htakes, rfl⟩
    · exact hretired
    · have htaken : Reachable Transport.step (State.create capacity) taken.transport := by
        cases htakes with
        | error => exact hretired
        | connection _ _ hadd => exact hadds hretired hadd
        | closes hpos _ hadd hact =>
          obtain ⟨fd, hfd⟩ := registered_of_route hroute
          obtain ⟨peer, hpeer, hkind⟩ := h.registered .server fd index hfd
          have hlive := h.live_server hchan hpeer hkind hclosing
          obtain ⟨hadded, hfound⟩ := (h.retireAccept position server result).addConnection hpeer
            (h.given_retireAccept hpos (hfresh hpos) position server) hadd
          obtain ⟨below, hbelow, hcore, -⟩ := hadded.closeServer hfound hkind hlive hact
          exact hcoreStep (hadds hretired hadd) hbelow hcore
      split
      · rwa [haccepts]
      · exact htaken
  | finish index =>
    obtain ⟨channel, peer, -, -, -, -, hcases⟩ := finish_cases hstep
    have hleave : Reachable Transport.step (State.create capacity) (host.leave peer).transport := by
      rwa [transport_leave]
    rcases hcases with ⟨-, rfl⟩ | ⟨-, rfl⟩ <;> exact hleave
  | report index =>
    obtain ⟨peer, -, -, -, -, rfl⟩ := report_cases hstep
    have hleave : Reachable Transport.step (State.create capacity) (host.leave peer).transport := by
      rwa [transport_leave]
    exact hleave
  | checkEventTimeouts now free =>
    cases hstep
    have hsame : (host.checkEventTimeouts now free).transport = host.transport :=
      (congrArg Host.transport (host.core_checkEventTimeouts now free) :)
    rwa [hsame]

end Refinement

namespace Armed

theorem core (h : Armed host) (hcore : next.core = host.core) : Armed next := by
  have haccepts : next.accepts = host.accepts := (congrArg Host.accepts hcore :)
  refine ⟨by rw [haccepts]; exact h.nodup, fun server hmem => ?_⟩
  rw [haccepts] at hmem
  obtain ⟨peer, hpeer, hlive⟩ := h.live server hmem
  obtain ⟨found, hfound, heq⟩ := exists_of_core hcore.symm hpeer
  exact ⟨found, hfound, by rw [← hlive, heq]; rfl⟩

/-- A peer changes that does not go, or that has no accept in flight. -/
theorem modifyPeer {index : ℕ} {f : Peer → Peer} (h : Armed host)
    (hf : index ∈ host.accepts → ∀ peer, peer.live = true → (f peer).live = true) :
    Armed (host.modifyPeer index f) := by
  refine ⟨h.nodup, fun server hmem => ?_⟩
  obtain ⟨peer, hpeer, hlive⟩ := h.live server hmem
  by_cases heq : index = server
  · subst heq
    exact ⟨f peer, host.getElem?_modifyPeer_self hpeer f, hf hmem peer hlive⟩
  · exact ⟨peer, (host.getElem?_modifyPeer_of_ne heq f).trans hpeer, hlive⟩

theorem add {role : Role} {server : Option ℕ} {fd : ℕ} {timeouts : Timeouts} (h : Armed host)
    (hadd : Host.add role server fd timeouts host = some next) :
    Armed next ∧ next.accepts = host.accepts := by
  obtain ⟨below, -, -, rfl⟩ := add_cases hadd
  refine ⟨⟨by rw [accepts_register]; exact h.nodup, fun server hmem => ?_⟩, accepts_register ..⟩
  rw [accepts_register] at hmem
  obtain ⟨peer, hpeer, hlive⟩ := h.live server hmem
  rw [peers_register]
  exact ⟨peer, (getElem?_append_left (List.getElem?_eq_some_iff.mp hpeer).1).trans hpeer, hlive⟩

theorem accept (h : Armed host) {index : ℕ} {peer : Peer} (hpeer : host.peers[index]? = some peer)
    (hlive : peer.live = true) (hidx : index ∉ host.accepts) (now : ℕ) :
    Armed (host.accept now index) := by
  have huse (found : Peer) : found.use.live = found.live := by
    rw [Peer.use_eq]
    rfl
  refine Armed.core ?_ (core_addEvent _ now (.accept index))
  refine @Armed.modifyPeer { host with accepts := host.accepts ++ [index] } _ _
    ⟨?_, fun server hmem => ?_⟩ fun _ found hfound => (huse found).trans hfound
  · exact nodup_append.mpr ⟨h.nodup, nodup_singleton index, fun server hmem other hother => by
      rw [mem_singleton.mp hother]
      exact fun heq => hidx (heq ▸ hmem)⟩
  · rcases mem_append.mp hmem with hmem | hmem
    · exact h.live server hmem
    · rw [mem_singleton.mp hmem]
      exact ⟨peer, hpeer, hlive⟩

/-- The completion of an accept comes to its server. -/
theorem route_accept (h : Armed host) (hsane : Sane host) {server : ℕ}
    (hmem : server ∈ host.accepts) :
    host.route (host.data (.accept server)) = some (.notifyAccept server) := by
  obtain ⟨peer, hpeer, hlive⟩ := h.live server hmem
  obtain ⟨found, hfound, hkind⟩ := hsane.accepts server hmem
  obtain rfl := Option.some.inj (hpeer.symm.trans hfound)
  obtain ⟨channel, -, hholds⟩ := hsane.channel hpeer
  have hreg := hholds.registered hlive
  rw [hkind] at hreg
  rw [@data_eq host (.accept server) peer hpeer, eventOf,
    route_of_accept host (hholds.descriptor hlive).2, hreg]
  rfl

theorem openChannel {role : Role} {fd : ℕ} {timeouts : Timeouts} {armed : Bool} {now : ℕ}
    (h : Armed host) (hsane : Sane host)
    (hstep : host.openChannel role fd timeouts armed now = some next) : Armed next := by
  obtain ⟨added, hgiven, -, hadd, hcases⟩ := hsane.opens hstep
  obtain ⟨hadded, haccepts⟩ :=
    @Armed.add { host with descriptors := host.descriptors ++ [fd] } _ _ _ _ _
    ⟨h.nodup, h.live⟩ hadd
  rcases hcases with ⟨below, -, -, hcore, -⟩ | ⟨-, rfl⟩ | rfl
  · exact @Armed.core { added with transport := below } _ ⟨hadded.nodup, hadded.live⟩ hcore
  · refine hadded.accept (hgiven.getElem?_add hadd) rfl ?_ now
    rw [haccepts]
    intro hmem
    obtain ⟨peer, hpeer, -⟩ := h.live _ hmem
    have hlt := (List.getElem?_eq_some_iff.mp hpeer).1
    rw [hsane.length] at hlt
    exact hlt.ne rfl
  · exact hadded

theorem accepted {position : ℕ} {result : ℤ} {acceptor : Option Bool} {armed : Bool}
    {free : ℕ → ℕ} {now : ℕ} (h : Armed host) (hsane : Sane host)
    (hstep : host.accepted position result acceptor armed free now = some next) : Armed next := by
  obtain ⟨server, hsrv, hfresh, hcases⟩ := accepted_cases hstep
  have hmem := mem_of_getElem? hsrv
  have hretired : Armed (host.retireAccept position server result) :=
    ⟨h.nodup.sublist (eraseIdx_sublist _ _), fun other hother =>
      h.live other (mem_of_mem_eraseIdx hother)⟩
  rcases hcases with rfl | ⟨index, channel, taken, hroute, hchan, hclosing, htakes, rfl⟩
  · exact hretired
  · -- The accept was of the server that is told.
    obtain rfl : server = index := Delivery.notifyAccept.inj
      (Option.some.inj ((h.route_accept hsane hmem).symm.trans hroute))
    obtain ⟨peer, hpeer, hkind⟩ := hsane.accepts server hmem
    have hlive := hsane.live_server hchan hpeer hkind hclosing
    have hgiven (hpositive : 0 < result) :=
      hsane.given_retireAccept hpositive (hfresh hpositive) position server
    have hsaneRetired := hsane.retireAccept position server result
    -- Neither the connection nor the close of the server arms an accept.
    have htaken : Armed taken ∧ taken.accepts = host.accepts.eraseIdx position := by
      cases htakes with
      | error => exact ⟨hretired, rfl⟩
      | connection _ _ hadd => exact hretired.add hadd
      | @closes peer added _ _ hpositive _ hadd hact =>
        obtain ⟨hadded, haccepts⟩ := hretired.add hadd
        obtain ⟨hsaneAdded, hfound⟩ := hsaneRetired.addConnection hpeer (hgiven hpositive) hadd
        obtain ⟨below, -, hcore, -⟩ := hsaneAdded.closeServer hfound hkind hlive hact
        exact ⟨@Armed.core { added with transport := below } _ ⟨hadded.nodup, hadded.live⟩
          hcore, (congrArg Host.accepts hcore :).trans haccepts⟩
    obtain ⟨-, found, hfound, -, hfoundLive⟩ := hsaneRetired.takes hpeer hkind hlive hgiven htakes
    split
    -- The server arms its accept again once the old one is out of the list.
    · refine htaken.1.accept hfound hfoundLive ?_ now
      rw [htaken.2]
      obtain ⟨hpos, rfl⟩ := List.getElem?_eq_some_iff.mp hsrv
      exact (nodup_cons.mp
        ((getElem_cons_eraseIdx_perm hpos).nodup_iff.mpr h.nodup)).1
    · exact htaken.1

theorem leave {index : ℕ} {peer : Peer} {f : Peer → Peer} (h : Armed host)
    (hidx : index ∉ host.accepts) : Armed ((host.leave peer).modifyPeer index f) := by
  have hleave : Armed (host.leave peer) :=
    ⟨by rw [accepts_leave]; exact h.nodup, by rw [accepts_leave, peers_leave]; exact h.live⟩
  refine hleave.modifyPeer fun hmem => ?_
  rw [accepts_leave] at hmem
  exact absurd hmem hidx

theorem step {action : HostAction} (h : Armed host) (hsane : Sane host)
    (hfirst : ConnectsFirst host action) (hawaited : AcceptsAwaited host action)
    (hstep : host.step action = some next) : Armed next := by
  cases action with
  | openChannel role fd timeouts armed now => exact h.openChannel hsane hstep
  | act action free now =>
    obtain ⟨hpermits, hcases⟩ := step_act hstep
    rcases hcases with hact | ⟨index, after, rfl, hafter, rfl⟩
    · obtain ⟨below, -, hcore, -⟩ := hsane.act_of_connectsFirst hpermits hfirst hact
      exact @Armed.core { host with transport := below } _ ⟨h.nodup, h.live⟩ hcore
    · obtain ⟨below, hbelow, hcore, hsaneAfter⟩ :=
        hsane.act_of_connectsFirst hpermits hfirst hafter
      exact @Armed.core { host with transport := below } _ ⟨h.nodup, h.live⟩
        ((Sane.core_timeout hbelow hcore hsaneAfter free).trans hcore)
  | complete position result free =>
    obtain ⟨submission, channel, below, -, -, hcore, -⟩ := hsane.complete hfirst hstep
    refine Armed.core ?_ hcore
    exact @Armed.modifyPeer { host with transport := below } _ _ ⟨h.nodup, h.live⟩
      fun _ _ hlive => hlive
  | accepted position result acceptor armed free now => exact h.accepted hsane hstep
  | finish index =>
    obtain ⟨channel, peer, -, -, -, -, hcases⟩ := finish_cases hstep
    rcases hcases with ⟨-, rfl⟩ | ⟨-, rfl⟩ <;> exact h.leave hawaited
  | report index =>
    obtain ⟨peer, hpeer, hrole, -, -, rfl⟩ := report_cases hstep
    refine h.leave fun hmem => ?_
    obtain ⟨found, hfound, hkind⟩ := hsane.accepts index hmem
    obtain rfl := Option.some.inj (hpeer.symm.trans hfound)
    rw [hrole] at hkind
    cases hkind
  | checkEventTimeouts now free =>
    cases hstep
    exact h.core (host.core_checkEventTimeouts now free)

end Armed

section Keys

/-- What is counted once at most is in one place. -/
theorem pairwise_of_countP_le_one {α : Type} {p : α → Bool} {elements : List α}
    (h : elements.countP p ≤ 1) : elements.Pairwise fun a b => ¬(p a = true ∧ p b = true) := by
  induction elements with
  | nil => exact .nil
  | cons element elements ih =>
    rw [countP_cons] at h
    refine pairwise_cons.mpr ⟨fun other hmem hboth => ?_, ih (by omega)⟩
    rw [if_pos hboth.1] at h
    have hpos := countP_pos_iff.mpr ⟨other, hmem, hboth.2⟩
    omega

theorem delivery_connect {submission : Submission} (h : submission.bufferId = none) :
    (Operation.entry submission).delivery = .notifyConnect submission.call.channel := by
  unfold Operation.delivery
  dsimp only
  rw [h]

theorem delivery_data {submission : Submission} {bufferId : ℕ}
    (h : submission.bufferId = some bufferId) : (Operation.entry submission).delivery =
      .notifyData submission.call.channel bufferId submission.call.request.event := by
  unfold Operation.delivery
  dsimp only
  rw [h]

/-- No two entries of the ring are for the same. -/
theorem nodup_entries (hsane : Sane host)
    (hids : (host.transport.submitted.filterMap Submission.bufferId).Nodup) :
    (host.transport.submitted.map fun submission =>
      (Operation.entry submission).delivery).Nodup := by
  have hbufs := pairwise_filterMap.mp hids
  -- A client connects once.
  have hconnects : host.transport.submitted.Pairwise fun a b =>
      a.bufferId = none → b.bufferId = none → a.call.channel ≠ b.call.channel := by
    refine pairwise_iff_getElem.mpr fun i j hi hj hlt hnone hnone' heq => ?_
    obtain ⟨channel, peer, -, -, -, -, hholds⟩ := hsane.submitted (getElem?_eq_getElem hi)
    have hle := hholds.connecting
    unfold connecting at hle
    have hpairs := pairwise_iff_getElem.mp
      (pairwise_of_countP_le_one ((Nat.le_add_left _ _).trans hle)) i j hi hj hlt
    exact hpairs ⟨by simp [hnone], by simp [← heq, hnone']⟩
  refine pairwise_map.mpr (hbufs.and hconnects |>.imp fun {a b} hpair heq => ?_)
  obtain ⟨hids, hchans⟩ := hpair
  cases ha : a.bufferId with
  | none =>
    cases hb : b.bufferId with
    | none =>
      rw [delivery_connect ha, delivery_connect hb] at heq
      exact hchans ha hb (Delivery.notifyConnect.inj heq)
    | some bufferId =>
      rw [delivery_connect ha, delivery_data hb] at heq
      cases heq
  | some bufferId =>
    cases hb : b.bufferId with
    | none =>
      rw [delivery_data ha, delivery_connect hb] at heq
      cases heq
    | some other =>
      rw [delivery_data ha, delivery_data hb] at heq
      exact hids bufferId ha other hb (Delivery.notifyData.inj heq).2.1

/-- Nor are two operations. -/
theorem nodup_deliveries (hsane : Sane host) (harmed : Armed host)
    (hids : (host.transport.submitted.filterMap Submission.bufferId).Nodup) :
    (host.operations.map Operation.delivery).Nodup := by
  unfold operations
  rw [map_append, map_map, map_map]
  refine nodup_append.mpr ⟨nodup_entries hsane hids, ?_, fun delivery hmem other hother heq => ?_⟩
  · exact harmed.nodup.map fun _ _ heq => Delivery.notifyAccept.inj heq
  · obtain ⟨submission, -, rfl⟩ := mem_map.mp hmem
    obtain ⟨server, -, rfl⟩ := mem_map.mp hother
    cases hbuf : submission.bufferId with
    | none =>
      rw [Function.comp_apply, delivery_connect hbuf] at heq
      cases heq
    | some bufferId =>
      rw [Function.comp_apply, delivery_data hbuf] at heq
      cases heq

theorem routes_of_armed {capacity : ℕ} (hcap : capacity ≤ 2 ^ 16) (hsane : Sane host)
    (harmed : Armed host)
    (hreach : Reachable Transport.step (State.create capacity) host.transport) : Routes host := by
  -- Every operation in flight leads back to its own channel.
  have hroute (operation : Operation) (hmem : operation ∈ host.operations) :
      ∃ peer, host.peers[operation.channel]? = some peer ∧ peer.live = true ∧
        host.route (host.data operation) = some operation.delivery := by
    rcases mem_append.mp hmem with hmem | hmem
    · obtain ⟨submission, hsub, rfl⟩ := mem_map.mp hmem
      obtain ⟨position, hpos⟩ := mem_iff_getElem?.mp hsub
      obtain ⟨channel, peer, -, hpeer, -, hlive, -⟩ := hsane.submitted hpos
      refine ⟨peer, hpeer, hlive, ?_⟩
      cases hbuf : submission.bufferId with
      | none => rw [hsane.route_connect hpos hbuf, delivery_connect hbuf]
      | some bufferId =>
        rw [hsane.route_data hpos hbuf, delivery_data hbuf,
          Nat.mod_eq_of_lt (bufferId_lt hcap hreach hsub hbuf)]
    · obtain ⟨server, hsrv, rfl⟩ := mem_map.mp hmem
      obtain ⟨peer, hpeer, hlive⟩ := harmed.live server hsrv
      exact ⟨peer, hpeer, hlive, harmed.route_accept hsane hsrv⟩
  refine ⟨?_, fun operation hmem => ?_⟩
  · -- What is apart behind the registries is apart before them.
    have hids : (host.transport.submitted.filterMap Submission.bufferId).Nodup := by
      obtain ⟨lost, hperm⟩ := exists_lost hreach
      have hnodup := (hperm.nodup_iff.mpr nodup_range).of_append_left
      exact (hnodup.of_append_right).of_append_left
    have hdeliveries := (nodup_deliveries hsane harmed hids).map (Option.some_injective Delivery)
    rw [map_map] at hdeliveries
    have hsame : (host.operations.map fun operation => host.data operation).map host.route =
        host.operations.map (some ∘ Operation.delivery) := by
      rw [map_map]
      exact map_congr_left fun operation hmem => (hroute operation hmem).choose_spec.2.2
    rw [← hsame] at hdeliveries
    exact hdeliveries.of_map
  · obtain ⟨peer, hpeer, hlive, heq⟩ := hroute operation hmem
    exact ⟨peer, hpeer, by rw [heq, if_pos hlive]⟩

end Keys

/-- What every step that awaits the accepts keeps. -/
theorem routed_step {capacity : ℕ} (hcap : capacity ≤ 2 ^ 16) {action : HostAction}
    (h : Sane host ∧ Armed host ∧ Reachable Transport.step (State.create capacity) host.transport)
    (hfirst : ConnectsFirst host action) (hawaited : AcceptsAwaited host action)
    (hstep : host.step action = some next) :
    Sane next ∧ Armed next ∧ Reachable Transport.step (State.create capacity) next.transport :=
  ⟨h.1.step hfirst hstep, h.2.1.step h.1 hfirst hawaited hstep,
    h.1.reachable hcap h.2.2 hfirst hstep⟩

theorem armed_create (capacity : ℕ) : Armed (create capacity) :=
  ⟨nodup_nil, nofun⟩

/-- In every run of a pool that the kernel registers, in which no server ends with an accept in
flight and no unix stream client is closed where its `connect` fails, every completion comes to
where it was issued. -/
theorem routes_of_acceptsAwaited (capacity : ℕ) (hcapacity : capacity ≤ 2 ^ 16)
    (actions : List HostAction) {host : Host}
    (halong : Along step (fun host action => ConnectsFirst host action ∧ AcceptsAwaited host action)
      (create capacity) actions)
    (hrun : run step (create capacity) actions = some host) : Routes host := by
  obtain ⟨hsane, harmed, hreachable⟩ := run_induction
    (fun _ host => Sane host ∧ Armed host ∧
      Reachable Transport.step (State.create capacity) host.transport)
    (fun _ _ _ _ hinv hcond hstep => routed_step hcapacity hinv hcond.1 hcond.2 hstep)
    ⟨sane_create capacity, armed_create capacity, .refl _⟩ halong hrun
  exact routes_of_armed hcapacity hsane harmed hreachable

/-- A connection that reads beside the accept of its server. -/
theorem routes_of_acceptsAwaited_connection :
    ∃ host, run step (create 1)
      [.openChannel .streamServer 5 ⟨-1, none, none⟩ true 0, .accepted 0 6 none true (fun _ => 0) 0,
        .act (.call 1 .connectionRead fun _ => false) (fun _ => 0) 0] = some host ∧
          Routes host := by
  refine ⟨_, rfl, routes_of_acceptsAwaited 1 (by decide)
    [.openChannel .streamServer 5 ⟨-1, none, none⟩ true 0, .accepted 0 6 none true (fun _ => 0) 0,
      .act (.call 1 .connectionRead fun _ => false) (fun _ => 0) 0] ?_ rfl⟩
  refine (along_cons_of_step rfl).mpr ⟨⟨trivial, trivial⟩, ?_⟩
  refine (along_cons_of_step rfl).mpr ⟨⟨trivial, trivial⟩, ?_⟩
  exact (along_cons_of_step rfl).mpr ⟨⟨trivial, trivial⟩, trivial⟩

/-- A server that ends with its accept in flight, and a server that gets its descriptor: the two
accepts have the same user data. -/
theorem routes_false : ¬∀ host, Reachable step (create 1) host → Routes host := by
  intro h
  obtain ⟨host, hrun, hdata⟩ : ∃ host, run step (create 1)
      [.openChannel .streamServer 5 ⟨-1, none, none⟩ true 0, .act (.close 0 false) (fun _ => 0) 0,
        .act (.closedConnections 0) (fun _ => 0) 0, .finish 0,
        .openChannel .streamServer 5 ⟨-1, none, none⟩ true 0] = some host ∧
      ¬(host.operations.map fun operation => host.data operation).Nodup :=
    ⟨_, rfl, by decide +kernel⟩
  exact hdata (h host ⟨_, hrun⟩).1

end FengShui.Transport.Host
