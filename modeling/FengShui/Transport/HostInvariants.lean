import FengShui.Transport.HostMoves

/-!
# What holds between the channels and what is below them

A channel that is not through has its descriptor, and its registry finds it there; its `_closer` and
`_connector` are completed as often as its books say, and its native pointer is destroyed when it is
through. All of it rests on one condition (`ConnectsFirst`): the factory of the unix stream clients
cleans up behind a `connect` that fails, and so does their `close`.
-/

namespace FengShui.Transport

open State

namespace Host

/-- The registry of a class. -/
def registered (kind : Kind) (fd : ℕ) (host : Host) : Option ℕ :=
  match kind with
  | .client => host.clients.get? fd
  | .server => host.servers.get? fd
  | .serverConnection => host.connections.get? fd
  | .file => host.files.get? fd

/-- The `connect` operations of a channel that are in flight. -/
def connecting (index : ℕ) (host : Host) : ℕ :=
  host.transport.submitted.countP fun submission =>
    submission.call.channel = index && submission.bufferId = none

section Registry

variable (host : Host) (kind : Kind) (fd : ℕ)

theorem registered_register_self (index : ℕ) :
    (host.register kind fd index).registered kind fd = some index := by
  cases kind <;> exact DartMap.get?_set_self ..

variable {other : ℕ}

theorem registered_register_of_ne (h : other ≠ fd) (index : ℕ) (kind' : Kind) :
    (host.register kind fd index).registered kind' other = host.registered kind' other := by
  cases kind <;> cases kind' <;> first | rfl | exact DartMap.get?_set_of_ne _ _ h _

theorem registered_of_register {index found : ℕ} {kind' : Kind}
    (h : (host.register kind fd index).registered kind' other = some found) :
    kind' = kind ∧ found = index ∨ host.registered kind' other = some found := by
  by_cases hkind : kind' = kind
  · subst hkind
    by_cases hfd : other = fd
    · subst hfd
      rw [registered_register_self] at h
      exact .inl ⟨rfl, (Option.some.inj h).symm⟩
    · rw [registered_register_of_ne _ _ _ hfd] at h
      exact .inr h
  · cases kind <;> cases kind' <;> first | exact absurd rfl hkind | exact .inr h

theorem registered_unregister_of_ne (h : other ≠ fd) (kind' : Kind) :
    (host.unregister kind fd).registered kind' other = host.registered kind' other := by
  cases kind <;> cases kind' <;> first | rfl | exact DartMap.get?_remove_of_ne _ _ h

theorem registered_of_unregister {found : ℕ} {kind' : Kind}
    (h : (host.unregister kind fd).registered kind' other = some found) :
    host.registered kind' other = some found := by
  cases kind <;> cases kind' <;> first | exact h | exact (DartMap.get?_of_remove _ _ h).2

end Registry

end Host

/-- A channel and what is below it. -/
structure Peer.Holds (host : Host) (index : ℕ) (channel : Channel) (peer : Peer) : Prop where
  kind : channel.kind = peer.role.kind
  finished : peer.finished = true → channel.stage = .closed
  registered : peer.live = true → host.registered peer.role.kind peer.fd = some index
  descriptor : peer.live = true → peer.fd ∈ host.descriptors ∧ peer.fd < 2 ^ 31
  reported : peer.reported = true → peer.role = .unixStreamClient ∧ peer.connector = some false
  refused : peer.role = .unixStreamClient → peer.connector = some false → channel.closing = false
  connecting : peer.connectors + host.connecting index ≤ 1
  connector : peer.connector ≠ none → 0 < peer.connectors
  /-- Nobody has a client that is not connected. -/
  idle : peer.role.connects = true → peer.connector ≠ some true →
    (∀ submission ∈ host.transport.submitted, submission.call.channel = index →
      submission.bufferId = none) ∧
    ∀ call ∈ host.transport.buffers.waiting, call.channel ≠ index
  closers : peer.closers = if channel.closer = true then 1 else 0
  intact : peer.live = true → peer.destroys = []
  destroyed : peer.live = false → peer.role.kind = .client → peer.destroys = [0]
  dangling : peer.dangling = 0

namespace Host

/-- What holds between the steps. -/
structure Sane (host : Host) : Prop where
  linked : host.transport.Linked
  length : host.peers.length = host.transport.channels.length
  holds : ∀ (index : ℕ) (channel : Channel) (peer : Peer),
    host.transport.channels[index]? = some channel → host.peers[index]? = some peer →
      peer.Holds host index channel
  distinct : ∀ (index other : ℕ) (peer found : Peer), host.peers[index]? = some peer →
    host.peers[other]? = some found → peer.live = true → found.live = true → peer.fd = found.fd →
      index = other
  registered : ∀ (kind : Kind) (fd index : ℕ), host.registered kind fd = some index →
    ∃ peer, host.peers[index]? = some peer ∧ peer.role.kind = kind
  accepts : ∀ server ∈ host.accepts, ∃ peer, host.peers[server]? = some peer ∧
    peer.role.kind = .server

theorem sane_create (capacity : ℕ) : Sane (create capacity) where
  linked := linked_create capacity
  length := rfl
  holds _ _ _ h := by cases h
  distinct _ _ _ _ h := by cases h
  registered kind _ _ h := by cases kind <;> cases h
  accepts _ h := by cases h

/-- A unix stream client is not closed before a `connect` that fails, nor behind it. -/
def ConnectsFirst (host : Host) : HostAction → Prop
  | .complete position result _ => ∀ submission channel peer,
    host.transport.submitted[position]? = some submission → submission.bufferId = none →
      host.transport.channels[submission.call.channel]? = some channel →
        host.peers[submission.call.channel]? = some peer → peer.role = .unixStreamClient →
          channel.closing = true → channel.active = true ∧ result = 0
  | .act (.close index _) _ _ => ∀ peer, host.peers[index]? = some peer →
    peer.role = .unixStreamClient → peer.connector ≠ some false
  | _ => True

/-- One peer changes, and keeps its class and its descriptor. -/
theorem sane_modifyPeer {host : Host} {index : ℕ} {f : Peer → Peer}
    (hlinked : host.transport.Linked) (hlen : host.peers.length = host.transport.channels.length)
    (hothers : ∀ (other : ℕ) (channel : Channel) (peer : Peer), other ≠ index →
      host.transport.channels[other]? = some channel → host.peers[other]? = some peer →
        peer.Holds host other channel)
    (hself : ∀ (channel : Channel) (peer : Peer), host.transport.channels[index]? = some channel →
      host.peers[index]? = some peer → (f peer).Holds host index channel)
    (hdistinct : ∀ (index other : ℕ) (peer found : Peer), host.peers[index]? = some peer →
      host.peers[other]? = some found → peer.live = true → found.live = true →
        peer.fd = found.fd → index = other)
    (hreg : ∀ (kind : Kind) (fd index : ℕ), host.registered kind fd = some index →
      ∃ peer, host.peers[index]? = some peer ∧ peer.role.kind = kind)
    (haccepts : ∀ server ∈ host.accepts, ∃ peer, host.peers[server]? = some peer ∧
      peer.role.kind = .server)
    (hf : ∀ peer, (f peer).role = peer.role ∧ (f peer).fd = peer.fd ∧
      ((f peer).live = true → peer.live = true)) : Sane (host.modifyPeer index f) := by
  -- A peer has the descriptor that it had, and is registered only if it was.
  have hback (other : ℕ) (peer : Peer) (hpeer : (host.modifyPeer index f).peers[other]? =
    some peer) :
      ∃ before, host.peers[other]? = some before ∧ before.fd = peer.fd ∧
        (peer.live = true → before.live = true) := by
    rw [getElem?_modifyPeer] at hpeer
    obtain ⟨before, hbefore, rfl⟩ := Option.map_eq_some_iff.mp hpeer
    refine ⟨before, hbefore, ?_⟩
    split
    · exact ⟨(hf before).2.1.symm, (hf before).2.2⟩
    · exact ⟨rfl, id⟩
  -- Its class does not change either.
  have hkind (other : ℕ) (kind : Kind)
      (hpeer : ∃ peer, host.peers[other]? = some peer ∧ peer.role.kind = kind) :
      ∃ peer, (host.modifyPeer index f).peers[other]? = some peer ∧ peer.role.kind = kind := by
    obtain ⟨peer, hpeer, rfl⟩ := hpeer
    rw [getElem?_modifyPeer, hpeer]
    refine ⟨_, rfl, ?_⟩
    split
    · rw [(hf peer).1]
    · rfl
  refine ⟨hlinked, (host.length_modifyPeer index f).trans hlen,
    fun other channel peer hchan hpeer => ?_, fun one other peer found hpeer hfound hlive
      hlive' heq => ?_,
    fun kind fd other hother => hkind other kind (hreg kind fd other hother),
    fun server hmem => hkind server .server (haccepts server hmem)⟩
  · have hholds : peer.Holds host other channel := by
      by_cases hother : other = index
      · subst hother
        rw [getElem?_modifyPeer] at hpeer
        obtain ⟨before, hbefore, rfl⟩ := Option.map_eq_some_iff.mp hpeer
        rw [if_pos rfl]
        exact hself channel before hchan hbefore
      · rw [getElem?_modifyPeer_of_ne _ (Ne.symm hother)] at hpeer
        exact hothers other channel peer hother hchan hpeer
    exact { hholds with }
  · obtain ⟨before, hbefore, hfd, hbeforeLive⟩ := hback one peer hpeer
    obtain ⟨earlier, hearlier, hfd', hearlierLive⟩ := hback other found hfound
    exact hdistinct one other before earlier hbefore hearlier (hbeforeLive hlive)
      (hearlierLive hlive') (by rw [hfd, hfd', heq])

namespace Sane

variable {host next : Host}

/-- What the native functions change does not matter. -/
theorem core (h : Sane host) (hcore : next.core = host.core) : Sane next := by
  have htrans : next.transport = host.transport := (congrArg Host.transport hcore :)
  have hdescriptors : next.descriptors = host.descriptors := (congrArg Host.descriptors hcore :)
  have haccepts : next.accepts = host.accepts := (congrArg Host.accepts hcore :)
  have hreg (kind : Kind) (fd : ℕ) : next.registered kind fd = host.registered kind fd :=
    (congrArg (fun host : Host => host.registered kind fd) hcore :)
  have hconnect (index : ℕ) : next.connecting index = host.connecting index :=
    (congrArg (fun host : Host => host.connecting index) hcore :)
  have hlen : (next.peers.map Peer.settle).length = (host.peers.map Peer.settle).length :=
    (congrArg (fun host : Host => host.peers.length) hcore :)
  -- What is left out of the core does not matter for the clauses, one after the other.
  have hkind (index : ℕ) (kind : Kind)
      (hpeer : ∃ peer, host.peers[index]? = some peer ∧ peer.role.kind = kind) :
      ∃ peer, next.peers[index]? = some peer ∧ peer.role.kind = kind := by
    obtain ⟨peer, hpeer, rfl⟩ := hpeer
    obtain ⟨found, hfound, heq⟩ := exists_of_core hcore.symm hpeer
    exact ⟨found, hfound, by rw [heq]⟩
  refine ⟨by rw [htrans]; exact h.linked, ?_, fun index channel peer hchan hpeer => ?_,
    fun index other peer found hpeer hfound => ?_, fun kind fd index hidx =>
      ?_, fun server hmem => ?_⟩
  · rw [List.length_map, List.length_map] at hlen
    rw [hlen, htrans]
    exact h.length
  · rw [htrans] at hchan
    obtain ⟨before, hbefore, heq⟩ := exists_of_core hcore hpeer
    have hholds := h.holds index channel before hchan hbefore
    rw [heq]
    exact
      { hholds with
        registered := fun hlive => (hreg _ _).trans (hholds.registered hlive)
        descriptor := by rw [hdescriptors]; exact hholds.descriptor
        connecting := by rw [hconnect]; exact hholds.connecting
        idle := by rw [htrans]; exact hholds.idle }
  · obtain ⟨before, hbefore, heq⟩ := exists_of_core hcore hpeer
    obtain ⟨earlier, hearlier, heq'⟩ := exists_of_core hcore hfound
    rw [heq, heq']
    exact h.distinct index other before earlier hbefore hearlier
  · rw [hreg] at hidx
    exact hkind index kind (h.registered kind fd index hidx)
  · rw [haccepts] at hmem
    exact hkind server .server (h.accepts server hmem)

variable {index : ℕ}

/-- Every channel has its peer. -/
theorem peer (h : Sane host) {channel : Channel}
    (hchan : host.transport.channels[index]? = some channel) :
    ∃ peer, host.peers[index]? = some peer ∧ peer.Holds host index channel := by
  have hlt : index < host.peers.length := by
    rw [h.length]
    exact (List.getElem?_eq_some_iff.mp hchan).1
  have hpeer := List.getElem?_eq_getElem hlt
  exact ⟨_, hpeer, h.holds index channel _ hchan hpeer⟩

/-- Every peer has its channel. -/
theorem channel (h : Sane host) {peer : Peer} (hpeer : host.peers[index]? = some peer) :
    ∃ channel, host.transport.channels[index]? = some channel ∧ peer.Holds host index channel := by
  have hlt : index < host.transport.channels.length := by
    rw [← h.length]
    exact (List.getElem?_eq_some_iff.mp hpeer).1
  have hchan := List.getElem?_eq_getElem hlt
  exact ⟨_, hchan, h.holds index _ peer hchan hpeer⟩

theorem sound (h : Sane host) {channel : Channel}
    (hchan : host.transport.channels[index]? = some channel) :
    channel.Sound (inflight index host.transport.submitted) :=
  h.linked.standing.channels index channel hchan

/-- A channel is in its registry until its `close` has come to its end, unless it is a client whose
`connect` has failed. -/
theorem live_of_stage {channel : Channel} {peer : Peer} (hholds : peer.Holds host index channel)
    (hstage : channel.stage ≠ .closed)
    (hconnected : peer.reported = true → peer.connector ≠ some false) : peer.live = true := by
  have hfin : peer.finished = false := by
    by_contra hfin
    exact hstage (hholds.finished (Bool.not_eq_false _ ▸ hfin))
  have hreported : peer.reported = false := by
    by_contra hreported
    have hreported := Bool.not_eq_false _ ▸ hreported
    exact hconnected hreported (hholds.reported hreported).2
  unfold Peer.live
  rw [hfin, hreported]
  rfl

/-- Who closes and is not through is in its registry. -/
theorem live_of_closing {channel : Channel} {peer : Peer} (hholds : peer.Holds host index channel)
    (hstage : channel.stage ≠ .closed) (hclosing : channel.closing = true) : peer.live = true :=
  live_of_stage hholds hstage fun hreported hrefused => by
    have hopen := hholds.refused (hholds.reported hreported).1 hrefused
    rw [hclosing] at hopen
    cases hopen

/-- Who does not close has not come to the end of `close`. -/
theorem stage_of_closing (h : Sane host) {channel : Channel}
    (hchan : host.transport.channels[index]? = some channel) (hclosing : channel.closing = false) :
    channel.stage ≠ .closed := by
  intro hstage
  have hclosed := (h.sound hchan).opened (by rw [hstage]; exact nofun)
  rw [hclosing] at hclosed
  cases hclosed

section Permits

variable {action : Action}

theorem permits_cases (h : host.permits action = true) :
    (∀ kind server, action ≠ .opened kind server) ∧ (∀ index full, action ≠ .connect index full) ∧
      ∀ position result, action ≠ .complete position result := by
  cases action with
  | opened | connect | complete => cases h
  | _ => exact ⟨nofun, nofun, nofun⟩

theorem permits_call {index : ℕ} {member : Member} {full : ℕ → Bool} {peer : Peer}
    (h : host.permits (.call index member full) = true) (hpeer : host.peers[index]? = some peer)
    (hconnects : peer.role.connects = true) : peer.connector = some true := by
  unfold permits at h
  dsimp only at h
  rw [hpeer, Option.any_some, hconnects, Bool.not_true, Bool.false_or] at h
  exact of_decide_eq_true (Bool.and_eq_true_iff.mp h).1

/-- Who goes on is connected, if it is to be. -/
theorem connected_of_advances (h : Sane host) (hpermits : host.permits action = true)
    {below : State}
    (hstep : Transport.step host.transport action = some below) {call : Call} {bufferIds : List ℕ}
    (hadv : advances host.transport action = some (call, bufferIds)) {channel : Channel}
    {peer : Peer} (hchan : host.transport.channels[call.channel]? = some channel)
    (hpeer : host.peers[call.channel]? = some peer) (hconnects : peer.role.connects = true) :
    peer.connector = some true := by
  rcases advances_cases hstep hadv with hmem | hcalls
  · by_contra hconn
    have hidle := (h.holds _ _ _ hchan hpeer).idle hconnects hconn
    exact hidle.2 call hmem rfl
  · cases hcalls with
    | call full => exact permits_call hpermits hpeer hconnects

/-- What a step hands to the ring. -/
theorem entries (h : Sane host) (hpermits : host.permits action = true) {below : State}
    (hstep : Transport.step host.transport action = some below) :
    ∃ entries, below.requests = host.transport.requests ++ entries ∧
      below.submitted = host.transport.submitted ++ entries ∧
      ∀ submission ∈ entries, submission.bufferId ≠ none ∧
        ∃ channel peer, host.transport.channels[submission.call.channel]? = some channel ∧
          host.peers[submission.call.channel]? = some peer ∧ channel.closing = false ∧
          (peer.role.connects = true → peer.connector = some true) := by
  obtain ⟨-, hconnect, hcomplete⟩ := permits_cases hpermits
  obtain ⟨entries, hsubmits, hreqs, hsubm⟩ := submits_step h.linked.standing hstep
  have hrem : remaining host.transport action = host.transport.submitted := by
    unfold remaining
    split
    · exact absurd rfl (hcomplete _ _)
    · rfl
  -- Without a completion nothing leaves the ring.
  rw [hrem] at hsubm
  refine ⟨entries, hreqs, hsubm, fun submission hmem => ?_⟩
  cases hsubmits with
  | none => cases hmem
  | connect haction => exact absurd haction (hconnect _ _)
  | buffers hadv hchan hclosing =>
    obtain ⟨entry, -, rfl⟩ := List.mem_map.mp hmem
    obtain ⟨peer, hpeer, -⟩ := h.peer hchan
    exact ⟨nofun, _, peer, hchan, hpeer, (Bool.or_eq_false_iff.mp hclosing).1,
      h.connected_of_advances hpermits hstep hadv hchan hpeer⟩

/-- Nobody closes a unix stream client whose `connect` has failed. -/
theorem refused_step (h : Sane host) (hpermits : host.permits action = true)
    (hclose : ∀ index graceful, action = .close index graceful → ∀ peer,
      host.peers[index]? = some peer → peer.role = .unixStreamClient → peer.connector ≠ some false)
    {index : ℕ} {before after : Channel} {peer : Peer}
    (hbefore : host.transport.channels[index]? = some before)
    (hpeer : host.peers[index]? = some peer)
    (halters : Alters host.transport index before action after)
    (hrole : peer.role = .unixStreamClient) (hrefused : peer.connector = some false) :
    after.closing = false := by
  have hholds := h.holds index before peer hbefore hpeer
  have hclient : before.kind = .client := by rw [hholds.kind, hrole]; rfl
  by_contra hclosing
  -- Only a step whose target is the client, or its server, could close it.
  rcases halters.closing_cases (Bool.not_eq_false _ ▸ hclosing) with hbefore' | ⟨target,
    htarget, hidx⟩
  · rw [hholds.refused hrole hrefused] at hbefore'
    cases hbefore'
  · rcases hidx with rfl | hsrv
    · cases action with
      | close found graceful =>
        obtain rfl := Option.some.inj htarget
        exact hclose found graceful rfl peer hpeer hrole hrefused
      | closeFailed =>
        obtain ⟨channel, hchan, hkind⟩ := h.linked.closes target (List.mem_of_mem_head? htarget)
        obtain rfl := Option.some.inj (hbefore.symm.trans hchan)
        rw [hclient] at hkind
        cases hkind
      | complete => cases hpermits
      | _ => cases htarget
    · have hkind := (h.linked.server index target before hbefore hsrv).1
      rw [hclient] at hkind
      cases hkind

theorem below (h : Sane host) (hpermits : host.permits action = true)
    (hclose : ∀ index graceful, action = .close index graceful → ∀ peer,
      host.peers[index]? = some peer → peer.role = .unixStreamClient → peer.connector ≠ some false)
    {below : State} (hstep : Transport.step host.transport action = some below) :
    Sane { host with transport := below } := by
  obtain ⟨hopened, -, hcomplete⟩ := permits_cases hpermits
  obtain ⟨entries, -, hsubm, hents⟩ := h.entries hpermits hstep
  refine ⟨h.linked.step hstep, h.length.trans (length_step hstep hopened).symm,
    fun index after peer hafter hpeer => ?_, h.distinct, h.registered, h.accepts⟩
  rcases before_step hstep hafter with ⟨before, hbefore, halters⟩ | ⟨kind, server, haction, -⟩
  · have hholds := h.holds index before peer hbefore hpeer
    exact
      { hholds with
        kind := halters.kind.trans hholds.kind
        finished := fun hfin => halters.closed (h.sound hbefore) (hholds.finished hfin)
        refused := h.refused_step hpermits hclose hbefore hpeer halters
        connecting := by
          have hconnect : Host.connecting index { host with transport := below } =
              host.connecting index := by
            unfold Host.connecting
            dsimp only
            -- Nothing that is submitted here is a `connect`.
            rw [hsubm, List.countP_append, Nat.add_eq_left, List.countP_eq_zero]
            intro submission hmem
            rw [Bool.and_eq_true, decide_eq_true_eq, decide_eq_true_eq]
            exact fun hnone => (hents submission hmem).1 hnone.2
          rw [hconnect]
          exact hholds.connecting
        idle := fun hconnects hconn => by
          obtain ⟨hsubs, hcalls⟩ := hholds.idle hconnects hconn
          refine ⟨fun submission hmem hidx => ?_, fun call hmem hidx => ?_⟩
          · rw [hsubm] at hmem
            rcases List.mem_append.mp hmem with hmem | hmem
            · exact hsubs submission hmem hidx
            · obtain ⟨-, -, found, -, hfound, -, hconnected⟩ := hents submission hmem
              rw [hidx] at hfound
              obtain rfl := Option.some.inj (hpeer.symm.trans hfound)
              -- An operation with a buffer is submitted for connected clients only.
              exact absurd (hconnected hconnects) hconn
          · rcases waiting_step h.linked.standing hstep hmem with hmem | hcall
            · exact hcalls call hmem hidx
            · cases hcall with
              | call full =>
                subst hidx
                exact hconn (permits_call hpermits hpeer hconnects)
        closers := by
          rw [halters.closer fun _ _ _ heq => absurd heq (hcomplete _ _)]
          exact hholds.closers }
  · exact absurd haction (hopened kind server)

end Permits

theorem intact (h : Sane host) {channel : Channel}
    (hchan : host.transport.channels[index]? = some channel)
    (hlive : ∀ peer, host.peers[index]? = some peer → peer.live = true) : host.Intact index :=
  fun peer hpeer => (h.holds index channel peer hchan hpeer).intact (hlive peer hpeer)

/-- The pointer of a channel that awaits its `_closer` is there. -/
theorem intact_of_awaits (h : Sane host) {channel : Channel} {graceful : Bool}
    (hchan : host.transport.channels[index]? = some channel)
    (hstage : channel.stage = .awaits graceful) : host.Intact index := by
  refine h.intact hchan fun peer hpeer => ?_
  refine live_of_closing (h.holds index channel peer hchan hpeer) ?_ ((h.sound hchan).opened ?_)
  all_goals
    rw [hstage]
    exact nofun

theorem act {action : Action} {free : ℕ → ℕ} {now : ℕ} (h : Sane host)
    (hpermits : host.permits action = true)
    (hclose : ∀ index graceful, action = .close index graceful → ∀ peer,
      host.peers[index]? = some peer → peer.role = .unixStreamClient → peer.connector ≠ some false)
    (hstep : host.act action free now = some next) :
    ∃ below, Transport.step host.transport action = some below ∧
      next.core = Host.core { host with transport := below } ∧ Sane next := by
  obtain ⟨below, hbelow, -, hcore⟩ := act_cases hstep
  have hsane := h.below hpermits hclose hbelow
  obtain ⟨entries, hreqs, -, hents⟩ := h.entries hpermits hbelow
  have hnext := hcore (fun submission hmem => ?_) fun index hmem => ?_
  · exact ⟨below, hbelow, hnext, hsane.core hnext⟩
  · rw [hreqs, List.drop_left] at hmem
    obtain ⟨-, channel, peer, hchan, hpeer, hclosing, hconnected⟩ := hents submission hmem
    have hholds := h.holds _ channel peer hchan hpeer
    refine h.intact hchan fun found hfound => ?_
    obtain rfl := Option.some.inj (hpeer.symm.trans hfound)
    refine live_of_stage hholds (h.stage_of_closing hchan hclosing) fun hreported hrefused => ?_
    have htrue := hconnected (by rw [(hholds.reported hreported).1]; rfl)
    rw [hrefused] at htrue
    cases htrue
  · obtain ⟨channel, hchan, hstage⟩ := mem_awaiting hmem
    exact hsane.intact_of_awaits hchan hstage

end Sane

end Host

end FengShui.Transport
