import FengShui.Transport.Completions

/-!
# Where channels come from and go to

What the factories, `notifyAccept` and the ends of `close` do, and that every step keeps what holds
between the channels and what is below them.
-/

namespace FengShui.Transport

open Transition State List

/-- What a step does besides does not matter to a channel that keeps its place. -/
theorem Peer.Holds.frame {host next : Host} {index : ℕ} {channel : Channel} {peer : Peer}
    (h : peer.Holds host index channel)
    (hsubm : next.transport.submitted = host.transport.submitted)
    (hwait : next.transport.buffers = host.transport.buffers)
    (hreg : peer.live = true → next.registered peer.role.kind peer.fd =
      host.registered peer.role.kind peer.fd)
    (hdescriptor : peer.live = true → peer.fd ∈ host.descriptors → peer.fd ∈ next.descriptors) :
    peer.Holds next index channel :=
  { h with
    registered := fun hlive => (hreg hlive).trans (h.registered hlive)
    descriptor := fun hlive => (h.descriptor hlive).imp_left (hdescriptor hlive)
    connecting := by
      have hle := h.connecting
      unfold Host.connecting at hle ⊢
      rwa [hsubm]
    idle := by
      rw [hsubm, hwait]
      exact h.idle }

theorem Peer.use_eq (peer : Peer) : peer.use = { peer with dangling := peer.use.dangling } := by
  unfold Peer.use
  split <;> rfl

theorem Peer.holds_create (host : Host) (role : Role) (server : Option ℕ) {fd : ℕ}
    (timeouts : Timeouts) {index : ℕ} (hfd : fd ∈ host.descriptors) (hlt : fd < 2 ^ 31)
    (hreg : host.registered role.kind fd = some index)
    (hsubm : ∀ submission ∈ host.transport.submitted, submission.call.channel ≠ index)
    (hwait : ∀ call ∈ host.transport.buffers.waiting, call.channel ≠ index) :
    (Peer.create role fd timeouts).Holds host index (.create role.kind server) where
  kind := rfl
  finished h := by cases h
  registered _ := hreg
  descriptor _ := ⟨hfd, hlt⟩
  reported h := by cases h
  refused _ _ := rfl
  connecting := by
    -- No operation is of a channel that is not there yet.
    have hzero : host.connecting index = 0 := countP_eq_zero.mpr fun submission hmem => by
      rw [Bool.and_eq_true, decide_eq_true_eq]
      exact fun h => hsubm submission hmem h.1
    rw [hzero]
    exact Nat.zero_le 1
  connector h := absurd rfl h
  idle _ _ := ⟨fun submission hmem heq => absurd heq (hsubm submission hmem), hwait⟩
  closers := rfl
  intact _ := rfl
  destroyed h := by cases h
  dangling := rfl

namespace Host

variable {host next : Host}

section Registry

variable (host : Host) (kind : Kind) (fd : ℕ)

@[simp]
theorem transport_register (index : ℕ) :
    (host.register kind fd index).transport = host.transport := by cases kind <;> rfl

@[simp]
theorem peers_register (index : ℕ) : (host.register kind fd index).peers = host.peers := by
  cases kind <;> rfl

@[simp]
theorem descriptors_register (index : ℕ) :
    (host.register kind fd index).descriptors = host.descriptors := by cases kind <;> rfl

@[simp]
theorem accepts_register (index : ℕ) : (host.register kind fd index).accepts = host.accepts := by
  cases kind <;> rfl

@[simp]
theorem transport_unregister : (host.unregister kind fd).transport = host.transport := by
  cases kind <;> rfl

@[simp]
theorem peers_unregister : (host.unregister kind fd).peers = host.peers := by cases kind <;> rfl

@[simp]
theorem descriptors_unregister : (host.unregister kind fd).descriptors = host.descriptors := by
  cases kind <;> rfl

@[simp]
theorem accepts_unregister : (host.unregister kind fd).accepts = host.accepts := by
  cases kind <;> rfl

end Registry

/-- A new channel. -/
theorem add_cases {role : Role} {server : Option ℕ} {fd : ℕ} {timeouts : Timeouts}
    (h : add role server fd timeouts host = some next) :
    ∃ below, Transport.step host.transport (.opened role.kind server) = some below ∧
      below = { host.transport with
        channels := host.transport.channels ++ [.create role.kind server] } ∧
      next = register role.kind fd host.transport.channels.length
        { host with transport := below, peers := host.peers ++ [.create role fd timeouts] } := by
  obtain ⟨below, hbelow, rfl⟩ := Option.map_eq_some_iff.mp h
  exact ⟨below, hbelow, (opened_step hbelow).1, rfl⟩

/-- What a factory does. -/
theorem openChannel_cases {role : Role} {fd : ℕ} {timeouts : Timeouts} {armed : Bool} {now : ℕ}
    (h : host.openChannel role fd timeouts armed now = some next) :
    host.fresh fd ∧ ∃ added,
      add role none fd timeouts { host with descriptors := host.descriptors ++ [fd] } = some added ∧
      (role.connects = true ∧ added.act (.connect host.transport.channels.length !armed)
          (fun _ => 0) now = some next ∨
        role = .streamServer ∧ next = added.accept now host.transport.channels.length ∨
        next = added) := by
  unfold openChannel at h
  split at h
  · rename_i hfresh
    obtain ⟨added, hadd, hstep⟩ := Option.bind_eq_some_iff.mp h
    refine ⟨hfresh.1, added, hadd, ?_⟩
    split at hstep
    · rename_i hconnects
      exact .inl ⟨hconnects, hstep⟩
    · split at hstep
      · rename_i hsrv
        exact .inr (.inl ⟨hsrv.1, (Option.some.inj hstep).symm⟩)
      · exact .inr (.inr (Option.some.inj hstep).symm)
  · cases h

variable {index : ℕ}

/-- Only a server is told of an accept. -/
theorem registered_of_route {data : ℕ} (h : host.route data = some (.notifyAccept index)) :
    ∃ fd, host.registered .server fd = some index := by
  unfold route at h
  dsimp only at h
  -- Every other branch of `route` leads to another delivery.
  have hdata {registry : DartMap ℕ ℕ} {fd : ℕ} {f : ℕ → Delivery}
      (hf : ∀ channel, f channel ≠ .notifyAccept index)
      (hmap : (registry.get? fd).map f = some (.notifyAccept index)) : False := by
    obtain ⟨channel, -, heq⟩ := Option.map_eq_some_iff.mp hmap
    exact hf channel heq
  split at h
  · split at h
    · exact (hdata (fun _ h => by cases h) h).elim
    · exact (hdata (fun _ h => by cases h) h).elim
  · split at h
    · split at h
      · exact (hdata (fun _ h => by cases h) h).elim
      · split at h
        · exact (hdata (fun _ h => by cases h) h).elim
        · obtain ⟨channel, hchan, heq⟩ := Option.map_eq_some_iff.mp h
          obtain rfl := Delivery.notifyAccept.inj heq
          exact ⟨_, hchan⟩
    · split at h
      · exact (hdata (fun _ h => by cases h) h).elim
      · cases h

/-- Behind the completion of an accept, before the server is told. -/
def retireAccept (position server : ℕ) (result : ℤ) (host : Host) : Host :=
  retire (.accept server) { host with
    accepts := host.accepts.eraseIdx position
    descriptors :=
      if 0 < result then host.descriptors ++ [result.toNat] else host.descriptors }

/-- A server takes a connection, and its acceptor may close the server. -/
inductive Takes (index : ℕ) (result : ℤ) (acceptor : Option Bool) (free : ℕ → ℕ) (now : ℕ)
    (host : Host) : Host → Prop where
  | error (hresult : ¬0 < result) : Takes index result acceptor free now host host
  | connection {peer : Peer} {added : Host} (hresult : 0 < result) (hacceptor : acceptor = none)
    (hadd : Host.add .connection (some index) result.toNat peer.timeouts host = some added) :
    Takes index result acceptor free now host added
  | closes {peer : Peer} {added closed : Host} {graceful : Bool} (hresult : 0 < result)
    (hacceptor : acceptor = some graceful)
    (hadd : Host.add .connection (some index) result.toNat peer.timeouts host = some added)
    (hact : added.act (.close index graceful) free now = some closed) :
    Takes index result acceptor free now host closed

/-- What the completion of an accept does. -/
theorem accepted_cases {position : ℕ} {result : ℤ} {acceptor : Option Bool} {armed : Bool}
    {free : ℕ → ℕ} {now : ℕ}
    (h : host.accepted position result acceptor armed free now = some next) :
    ∃ server, host.accepts[position]? = some server ∧ (0 < result → host.fresh result.toNat) ∧
      (next = host.retireAccept position server result ∨
        ∃ (index : ℕ) (channel : Channel) (taken : Host),
          host.route (host.data (.accept server)) = some (.notifyAccept index) ∧
          host.transport.channels[index]? = some channel ∧ channel.closing = false ∧
          Takes index result acceptor free now (host.retireAccept position server result) taken ∧
          next = if armed = true then taken.accept now index else taken) := by
  unfold accepted at h
  cases hsrv : host.accepts[position]? with
  | none =>
    rw [hsrv] at h
    cases h
  | some server =>
    rw [hsrv] at h
    dsimp only at h
    split at h
    · rename_i hfresh
      refine ⟨server, rfl, hfresh, ?_⟩
      -- Taking the completion does not touch the channels.
      have htrans : (host.retireAccept position server result).transport = host.transport := rfl
      unfold retireAccept at htrans ⊢
      generalize retire (.accept server) _ = retired at h htrans ⊢
      split at h
      · rename_i index hroute
        unfold notifyAccept at h
        split at h
        · rename_i channel peer hchan hpeer
          split at h
          · exact .inl (Option.some.inj h).symm
          · rename_i hclosing
            obtain ⟨taken, htaken, rfl⟩ := Option.map_eq_some_iff.mp h
            rw [htrans] at hchan
            refine .inr ⟨index, channel, taken, hroute, hchan, Bool.not_eq_true _ ▸ hclosing, ?_,
              rfl⟩
            split at htaken
            · rename_i hpos
              obtain ⟨added, hadd, htaken⟩ := Option.bind_eq_some_iff.mp htaken
              -- The acceptor keeps the connection, or closes the server.
              cases acceptor with
              | none =>
                cases htaken
                exact .connection hpos rfl hadd
              | some graceful => exact .closes hpos rfl hadd htaken
            · rename_i hres
              cases htaken
              exact .error hres
        · exact .inl (Option.some.inj h).symm
      · exact .inl (Option.some.inj h).symm
    · cases h

namespace Sane

theorem add {role : Role} {server : Option ℕ} {fd : ℕ} {timeouts : Timeouts} (h : Sane host)
    (hfd : fd ∈ host.descriptors) (hlt : fd < 2 ^ 31)
    (hfree : ∀ (index : ℕ) (peer : Peer), host.peers[index]? = some peer → peer.live = true →
      peer.fd ≠ fd) (hadd : Host.add role server fd timeouts host = some next) : Sane next := by
  obtain ⟨below, hbelow, hchans, rfl⟩ := add_cases hadd
  have hlinked := h.linked.step hbelow
  subst hchans
  -- A peer is an old one, or the one that is added.
  have hpeers (index : ℕ) (peer : Peer)
      (hpeer : (host.peers ++ [.create role fd timeouts])[index]? = some peer) :
      host.peers[index]? = some peer ∨
        index = host.peers.length ∧ peer = .create role fd timeouts :=
    getElem?_concat_eq_some.mp hpeer
  have hkeeps (index : ℕ) (kind : Kind)
      (hpeer : ∃ peer, host.peers[index]? = some peer ∧ peer.role.kind = kind) :
      ∃ peer, (host.peers ++ [.create role fd timeouts])[index]? = some peer ∧
        peer.role.kind = kind := by
    obtain ⟨peer, hpeer, hkind⟩ := hpeer
    exact ⟨peer, (getElem?_append_left (List.getElem?_eq_some_iff.mp hpeer).1).trans hpeer, hkind⟩
  -- The new descriptor is in no registry, so that the old entries stay and all are distinct.
  refine ⟨?_, ?_, fun index channel peer hchan hpeer => ?_,
    fun index other peer found hpeer hfound hlive hlive' heq => ?_, fun kind other index hidx => ?_,
    fun server hmem => ?_⟩
  · rwa [transport_register]
  · rw [peers_register, transport_register, length_append, length_append, h.length]
    rfl
  · rw [transport_register] at hchan
    rw [peers_register] at hpeer
    rcases hpeers index peer hpeer with hbefore | ⟨hidx, rfl⟩
    · have hlt := (List.getElem?_eq_some_iff.mp hbefore).1
      rw [h.length] at hlt
      rw [getElem?_append_left hlt] at hchan
      have hholds := h.holds index channel peer hchan hbefore
      refine hholds.frame (by rw [transport_register]) (by rw [transport_register])
        (fun hlive => ?_) fun _ hmem => by rwa [descriptors_register]
      exact registered_register_of_ne _ _ _ (hfree index peer hbefore hlive) _ _
    · rw [h.length] at hidx
      subst hidx
      rw [getElem?_concat_length] at hchan
      cases hchan
      refine Peer.holds_create _ role server timeouts (by rwa [descriptors_register]) hlt
        (registered_register_self _ _ _ _) (fun submission hmem => ?_) fun call hmem => ?_
      · rw [transport_register] at hmem
        exact (h.linked.standing.submitted submission hmem).ne
      · rw [transport_register] at hmem
        exact (h.linked.standing.waiting call hmem).ne
  · rw [peers_register] at hpeer hfound
    rcases hpeers index peer hpeer with hbefore | ⟨hidx, rfl⟩ <;>
      rcases hpeers other found hfound with hearlier | ⟨hother, rfl⟩
    · exact h.distinct index other peer found hbefore hearlier hlive hlive' heq
    · exact absurd heq (hfree index peer hbefore hlive)
    · exact absurd heq.symm (hfree other found hearlier hlive')
    · rw [hidx, hother]
  · rw [peers_register]
    rcases registered_of_register _ _ _ hidx with ⟨rfl, rfl⟩ | hbefore
    · refine ⟨.create role fd timeouts, ?_, rfl⟩
      rw [← h.length]
      exact getElem?_concat_length
    · exact hkeeps index kind (h.registered kind other index hbefore)
  · rw [peers_register]
    rw [accepts_register] at hmem
    exact hkeeps server .server (h.accepts server hmem)

/-- A server arms an accept. -/
theorem accept (h : Sane host) {index : ℕ} {peer : Peer} (hpeer : host.peers[index]? = some peer)
    (hkind : peer.role.kind = .server) (hlive : peer.live = true) (now : ℕ) :
    Sane (host.accept now index) := by
  refine Sane.core ?_ (core_addEvent _ now (.accept index))
  refine @sane_modifyPeer { host with accepts := host.accepts ++ [index] } _ _ h.linked h.length
    (fun other channel found _ hchan hfound => ?_) (fun channel found hchan hfound => ?_)
    h.distinct h.registered (fun server hmem => ?_) fun found => ?_
  · exact { h.holds other channel found hchan hfound with }
  · obtain rfl := Option.some.inj (hpeer.symm.trans hfound)
    have hholds := h.holds index channel peer hchan hpeer
    dsimp only
    rw [Peer.use_of_destroys (hholds.intact hlive)]
    exact { hholds with }
  · rcases mem_append.mp hmem with hmem | hmem
    · exact h.accepts server hmem
    · rw [mem_singleton.mp hmem]
      exact ⟨peer, hpeer, hkind⟩
  · dsimp only
    rw [Peer.use_eq]
    exact ⟨rfl, rfl, id⟩

/-- The factory connects a new client. -/
theorem connect (h : Sane host) {index : ℕ} {peer : Peer} {full : Bool} {free : ℕ → ℕ} {now : ℕ}
    (hpeer : host.peers[index]? = some peer) (hlive : peer.live = true)
    (hconnectors : peer.connectors = 0) (hnone : host.connecting index = 0)
    (hstep : host.act (.connect index full) free now = some next) :
    ∃ below, Transport.step host.transport (.connect index full) = some below ∧
      next.core = Host.core { host with transport := below } ∧ Sane next := by
  obtain ⟨below, hbelow, -, hcore⟩ := act_cases hstep
  obtain ⟨entries, hsubmits, hreqs, hsubm⟩ := submits_step h.linked.standing hbelow
  -- At most one operation is submitted, a `connect` of this client.
  have hents : entries = [] ∨ ∃ submission : Submission, entries = [submission] ∧
      submission.call.channel = index ∧ submission.bufferId = none := by
    cases hsubmits with
    | none => exact .inl rfl
    | connect haction =>
      obtain ⟨rfl, rfl⟩ := Action.connect.inj haction
      exact .inr ⟨_, rfl, rfl, rfl⟩
    | buffers hadv => cases hadv
  -- It is counted on top of those in flight.
  have hcount (other : ℕ) : Host.connecting other { host with transport := below } =
      host.connecting other + entries.countP fun submission =>
        submission.call.channel = other && submission.bufferId = none := by
    unfold connecting
    dsimp only
    rw [hsubm]
    exact countP_append
  -- Only the clauses about `connect` and about buffers see the new operation.
  have hsane : Sane { host with transport := below } := by
    refine ⟨h.linked.step hbelow, h.length.trans (length_step hbelow nofun).symm,
      fun other after found hafter hfound => ?_, h.distinct, h.registered, h.accepts⟩
    rcases before_step hbelow hafter with ⟨before, hbefore, halters⟩ | ⟨_, _, haction, -⟩
    · have hholds := h.holds other before found hbefore hfound
      exact
        { hholds with
          kind := halters.kind.trans hholds.kind
          finished := fun hfin => halters.closed (h.sound hbefore) (hholds.finished hfin)
          refused := fun hrole hrefused => by
            by_contra hclosing
            rcases halters.closing_cases (Bool.not_eq_false _ ▸ hclosing) with hclosed | ⟨_,
              htarget, -⟩
            · rw [hholds.refused hrole hrefused] at hclosed
              cases hclosed
            · cases htarget
          connecting := by
            have hle := hholds.connecting
            rw [hcount]
            rcases hents with rfl | ⟨submission, rfl, hidx, hbuf⟩
            · exact hle
            · by_cases hother : index = other
              · subst hother
                obtain rfl := Option.some.inj (hpeer.symm.trans hfound)
                rw [hconnectors, hnone, Nat.zero_add, Nat.zero_add]
                exact countP_le_length
              · rw [countP_singleton, hidx, decide_eq_false hother, Bool.false_and]
                exact hle
          idle := fun hconnects hconn => by
            obtain ⟨hsubs, hcalls⟩ := hholds.idle hconnects hconn
            refine ⟨fun submission hmem hidx => ?_, fun call hmem => ?_⟩
            · rw [hsubm] at hmem
              rcases mem_append.mp hmem with hmem | hmem
              · exact hsubs submission hmem hidx
              · rcases hents with rfl | ⟨entry, rfl, -, hbuf⟩
                · cases hmem
                · rwa [mem_singleton.mp hmem]
            · rcases waiting_step h.linked.standing hbelow hmem with hmem | hcall
              · exact hcalls call hmem
              · cases hcall
          closers := by
            rw [halters.closer nofun]
            exact hholds.closers }
    · cases haction
  -- The pointers that the native calls use are intact.
  have hnext := hcore (fun submission hmem => ?_) fun other hmem => ?_
  · exact ⟨below, hbelow, hnext, hsane.core hnext⟩
  · rw [hreqs, drop_left] at hmem
    rcases hents with rfl | ⟨entry, rfl, hidx, -⟩
    · cases hmem
    · rw [mem_singleton.mp hmem, hidx]
      obtain ⟨channel, -, hholds⟩ := h.channel hpeer
      intro found hfound
      obtain rfl := Option.some.inj (hpeer.symm.trans hfound)
      exact hholds.intact hlive
  · obtain ⟨channel, hchan, hstage⟩ := mem_awaiting hmem
    exact hsane.intact_of_awaits hchan hstage

end Sane

/-- The operations that refer to a channel. -/
theorem references_eq_zero
    (hsubm : ∀ submission ∈ host.transport.submitted, submission.call.channel ≠ index ∧
      host.transport.channels[submission.call.channel]?.bind Channel.server ≠ some index)
    (haccepts : ∀ server ∈ host.accepts, server ≠ index ∧
      host.transport.channels[server]?.bind Channel.server ≠ some index) :
    host.references index = 0 := by
  refine countP_eq_zero.mpr fun operation hmem => ?_
  rw [Bool.or_eq_true, decide_eq_true_eq, decide_eq_true_eq, not_or]
  rcases mem_append.mp hmem with hmem | hmem
  · obtain ⟨submission, hsub, rfl⟩ := mem_map.mp hmem
    exact hsubm submission hsub
  · obtain ⟨server, hsrv, rfl⟩ := mem_map.mp hmem
    exact haccepts server hsrv

theorem modifyPeer_modifyPeer (index : ℕ) (f g : Peer → Peer) (host : Host) :
    (host.modifyPeer index f).modifyPeer index g = host.modifyPeer index (g ∘ f) := by
  unfold modifyPeer
  dsimp only
  rw [modify_modify_eq]

/-- What is behind a channel that goes: its descriptor is closed, and no registry has it. -/
def leave (peer : Peer) (host : Host) : Host :=
  (host.shutdownDescriptor peer.fd).unregister peer.role.kind peer.fd

section Leave

variable (peer : Peer) (host : Host)

@[simp]
theorem transport_leave : (host.leave peer).transport = host.transport := transport_unregister ..

@[simp]
theorem peers_leave : (host.leave peer).peers = host.peers := peers_unregister ..

@[simp]
theorem accepts_leave : (host.leave peer).accepts = host.accepts := accepts_unregister ..

theorem references_leave (index : ℕ) (f : Peer → Peer) :
    ((host.leave peer).modifyPeer index f).references index = host.references index := by
  unfold leave
  cases peer.role.kind <;> rfl

end Leave

namespace Sane

variable {index : ℕ} {channel : Channel}

/-- No operation refers to a client that has none in flight. -/
theorem references_client (h : Sane host)
    (hchan : host.transport.channels[index]? = some channel) (hkind : channel.kind = .client)
    (hnone : ∀ submission ∈ host.transport.submitted, submission.call.channel ≠ index) :
    host.references index = 0 := by
  have hsrv (other : ℕ) :
      host.transport.channels[other]?.bind Channel.server ≠ some index := by
    intro heq
    obtain ⟨connection, hconn, hsrv⟩ := Option.bind_eq_some_iff.mp heq
    obtain ⟨-, found, hfound, hfoundKind⟩ := h.linked.server other index connection hconn hsrv
    obtain rfl := Option.some.inj (hchan.symm.trans hfound)
    rw [hkind] at hfoundKind
    cases hfoundKind
  refine references_eq_zero (fun submission hmem => ⟨hnone submission hmem, hsrv _⟩)
    fun server hmem => ⟨?_, hsrv _⟩
  rintro rfl
  obtain ⟨peer, hpeer, hpeerKind⟩ := h.accepts server hmem
  rw [← (h.holds server channel peer hchan hpeer).kind, hkind] at hpeerKind
  cases hpeerKind

/-- A channel that goes takes nothing of the others. -/
theorem leave (h : Sane host) {peer : Peer} {f : Peer → Peer}
    (hchan : host.transport.channels[index]? = some channel)
    (hpeer : host.peers[index]? = some peer) (hlive : peer.live = true)
    (hself : (f peer).Holds (host.leave peer) index channel)
    (hf : ∀ peer, (f peer).role = peer.role ∧ (f peer).fd = peer.fd ∧ (f peer).live = false) :
    Sane ((host.leave peer).modifyPeer index f) := by
  refine @sane_modifyPeer (host.leave peer) _ _ (by rw [transport_leave]; exact h.linked)
    (by rw [peers_leave, transport_leave]; exact h.length)
    (fun other found other' hne hfound hother => ?_) (fun found other hfound hother => ?_)
    (by rw [peers_leave]; exact h.distinct)
    (fun kind fd other hother => ?_) (fun server hmem => ?_) fun found => ?_
  · rw [transport_leave] at hfound
    rw [peers_leave] at hother
    have hfd (hlive' : other'.live = true) : other'.fd ≠ peer.fd := fun heq =>
      hne (h.distinct other index other' peer hother hpeer hlive' hlive heq)
    refine (h.holds other found other' hfound hother).frame (by rw [transport_leave])
      (by rw [transport_leave])
      (fun hlive' => registered_unregister_of_ne _ _ _ (hfd hlive') _) fun hlive' hmem => ?_
    unfold Host.leave
    rw [descriptors_unregister]
    exact (mem_erase_of_ne (hfd hlive')).mpr hmem
  · rw [transport_leave] at hfound
    rw [peers_leave] at hother
    obtain rfl := Option.some.inj (hchan.symm.trans hfound)
    obtain rfl := Option.some.inj (hpeer.symm.trans hother)
    exact hself
  · rw [peers_leave]
    exact h.registered kind fd other
      (registered_of_unregister (host.shutdownDescriptor peer.fd) _ _ hother)
  · rw [accepts_leave] at hmem
    rw [peers_leave]
    exact h.accepts server hmem
  · obtain ⟨hrole, hfd, hgone⟩ := hf found
    exact ⟨hrole, hfd, fun hlive => by rw [hgone] at hlive; cases hlive⟩

/-- A peer that goes. -/
theorem holds_of_gone {peer after : Peer} (hholds : peer.Holds host index channel)
    (hafter : after = { peer with
      finished := after.finished
      reported := after.reported
      destroys := after.destroys }) (hgone : after.live = false)
    (hfin : after.finished = true → channel.stage = .closed)
    (hreported : after.reported = true → peer.role = .unixStreamClient ∧ peer.connector =
    some false) (hdestr : peer.role.kind = .client → after.destroys = [0]) :
    after.Holds (host.leave peer) index channel := by
  -- What is said of registered channels no longer matters.
  have hvacuous {p : Prop} (hlive : after.live = true) : p := by
    rw [hgone] at hlive
    cases hlive
  have hrole : after.role = peer.role := by rw [hafter]
  have hconn : after.connector = peer.connector := by rw [hafter]
  have hconnect : (host.leave peer).connecting index = host.connecting index := by
    unfold connecting
    rw [transport_leave]
  exact
    { kind := by rw [hrole]; exact hholds.kind
      finished := hfin
      registered := hvacuous
      descriptor := hvacuous
      reported := by rw [hrole, hconn]; exact hreported
      refused := by rw [hrole, hconn]; exact hholds.refused
      connecting := by
        rw [hconnect, hafter]
        exact hholds.connecting
      connector := by
        rw [hafter]
        exact hholds.connector
      idle := by
        rw [hrole, hconn, transport_leave]
        exact hholds.idle
      closers := by
        rw [hafter]
        exact hholds.closers
      intact := hvacuous
      destroyed := fun _ hclient => hdestr (by rwa [hrole] at hclient)
      dangling := by
        rw [hafter]
        exact hholds.dangling }

end Sane

/-- The end of `close`. -/
theorem finish_cases (h : host.finish index = some next) :
    ∃ channel peer, host.transport.channels[index]? = some channel ∧
      host.peers[index]? = some peer ∧ channel.stage = .closed ∧ peer.finished = false ∧
      ((peer.role.kind = .client ∨ peer.role.kind = .server) ∧
          next = (host.leave peer).modifyPeer index (fun peer =>
            Peer.destroy (host.references index) (Peer.use { peer with finished := true })) ∨
        (peer.role.kind = .serverConnection ∨ peer.role.kind = .file) ∧
          next = (host.leave peer).modifyPeer index fun peer =>
              { peer with finished := true }) := by
  unfold finish at h
  cases hchan : host.transport.channels[index]? with
  | none =>
    rw [hchan] at h
    cases h
  | some channel =>
    cases hpeer : host.peers[index]? with
    | none =>
      rw [hchan, hpeer] at h
      cases h
    | some peer =>
      rw [hchan, hpeer] at h
      dsimp only at h
      split at h
      · rename_i hclosed
        refine ⟨channel, peer, rfl, rfl, hclosed.1, hclosed.2.1, ?_⟩
        -- The client and the server are destroyed behind the removal.
        have hdestroy : destroy index (((host.shutdownDescriptor peer.fd).unregister peer.role.kind
            peer.fd).modifyPeer index fun peer => { peer with finished := true }) =
              (host.leave peer).modifyPeer index fun peer =>
                Peer.destroy (host.references index) (Peer.use { peer with finished := true }) := by
          unfold destroy
          rw [modifyPeer_modifyPeer]
          exact congrArg (fun references => (host.leave peer).modifyPeer index fun peer =>
            Peer.destroy references (Peer.use { peer with finished := true }))
              (references_leave peer host index _)
        rw [hdestroy] at h
        cases hkind : peer.role.kind with
        | client =>
          rw [hkind] at h
          exact .inl ⟨.inl rfl, (Option.some.inj h).symm⟩
        | server =>
          rw [hkind] at h
          exact .inl ⟨.inr rfl, (Option.some.inj h).symm⟩
        | serverConnection =>
          rw [hkind] at h
          exact .inr ⟨.inl rfl, by rw [leave, hkind]; exact (Option.some.inj h).symm⟩
        | file =>
          rw [hkind] at h
          exact .inr ⟨.inr rfl, by rw [leave, hkind]; exact (Option.some.inj h).symm⟩
      · cases h

/-- The cleanup behind a `connect` that failed. -/
theorem report_cases (h : host.report index = some next) :
    ∃ peer, host.peers[index]? = some peer ∧ peer.role = .unixStreamClient ∧
      peer.connector = some false ∧ peer.reported = false ∧
      next = (host.leave peer).modifyPeer index fun peer =>
        Peer.destroy (host.references index) (Peer.use { peer with reported := true }) := by
  unfold report at h
  cases hpeer : host.peers[index]? with
  | none =>
    rw [hpeer] at h
    cases h
  | some peer =>
    rw [hpeer] at h
    dsimp only at h
    split at h
    · rename_i hrefused
      refine ⟨peer, rfl, hrefused.1, hrefused.2.1, hrefused.2.2, ?_⟩
      have hkind : peer.role.kind = .client := by rw [hrefused.1]; rfl
      rw [← Option.some.inj h, destroy, modifyPeer_modifyPeer, leave, hkind]
      rfl
    · cases h

namespace Sane

variable {peer : Peer} {index fd now : ℕ} {channel : Channel} {role : Role} {timeouts : Timeouts}
  {armed : Bool} {free : ℕ → ℕ} {result : ℤ}

/-- A peer that is destroyed when it goes. -/
theorem destroy_eq (hdestroys : peer.destroys = []) (references : ℕ) :
    Peer.destroy references peer.use = { peer with destroys := [references] } := by
  rw [Peer.use_of_destroys hdestroys]
  unfold Peer.destroy
  rw [hdestroys]
  rfl

/-- Who comes to the end of `close` is in its registry until then. -/
theorem live_of_closed (h : Sane host) (hchan : host.transport.channels[index]? = some channel)
    (hpeer : host.peers[index]? = some peer) (hstage : channel.stage = .closed)
    (hfin : peer.finished = false) : peer.live = true := by
  have hholds := h.holds index channel peer hchan hpeer
  have hclosing := (h.sound hchan).opened (by rw [hstage]; exact nofun)
  -- A client whose `connect` failed never closes, so that it was not reported.
  have hreported : peer.reported = false := by
    by_contra hreported
    obtain ⟨hrole, hrefused⟩ := hholds.reported (Bool.not_eq_false _ ▸ hreported)
    have hopen := hholds.refused hrole hrefused
    rw [hclosing] at hopen
    cases hopen
  unfold Peer.live
  rw [hfin, hreported]
  rfl

theorem finish (h : Sane host) (hstep : host.finish index = some next) : Sane next := by
  obtain ⟨channel, peer, hchan, hpeer, hstage, hfin, hcases⟩ := finish_cases hstep
  have hholds := h.holds index channel peer hchan hpeer
  have hsound := h.sound hchan
  have hlive := h.live_of_closed hchan hpeer hstage hfin
  rcases hcases with ⟨-, rfl⟩ | ⟨hkind, rfl⟩
  · refine h.leave hchan hpeer hlive ?_ fun found => ?_
    · have hdestroy := @destroy_eq { peer with finished := true } (hholds.intact hlive)
        (host.references index)
      rw [hdestroy]
      refine holds_of_gone hholds rfl rfl (fun _ => hstage) (fun hreport => ?_) fun hclient => ?_
      · exact hholds.reported hreport
      -- At this stage nothing is in flight, and the destroy frees nothing that is used.
      · have hzero := hsound.closed hstage
        have hle := hsound.pending
        have hflight : inflight index host.transport.submitted = 0 := by omega
        rw [h.references_client hchan (hholds.kind.trans hclient) fun submission hmem heq => ?_]
        exact countP_eq_zero.mp hflight submission hmem (decide_eq_true heq)
    · rw [Peer.use_eq]
      exact ⟨rfl, rfl, rfl⟩
  · refine h.leave hchan hpeer hlive ?_ fun found => ⟨rfl, rfl, rfl⟩
    refine holds_of_gone hholds rfl rfl (fun _ => hstage) hholds.reported fun hclient => ?_
    rw [hclient] at hkind
    rcases hkind with hkind | hkind <;> cases hkind

/-- Whose `connect` has failed is in its registry until that is reported. -/
theorem live_of_refused (h : Sane host) (hchan : host.transport.channels[index]? = some channel)
    (hpeer : host.peers[index]? = some peer) (hrole : peer.role = .unixStreamClient)
    (hrefused : peer.connector = some false) (hreported : peer.reported = false) :
    peer.live = true := by
  have hholds := h.holds index channel peer hchan hpeer
  have hstage := h.stage_of_closing hchan (hholds.refused hrole hrefused)
  exact live_of_stage hholds hstage fun hreport => by rw [hreported] at hreport; cases hreport

theorem report (h : Sane host) (hstep : host.report index = some next) : Sane next := by
  obtain ⟨peer, hpeer, hrole, hrefused, hreported, rfl⟩ := report_cases hstep
  obtain ⟨channel, hchan, hholds⟩ := h.channel hpeer
  have hlive := h.live_of_refused hchan hpeer hrole hrefused hreported
  refine h.leave hchan hpeer hlive ?_ fun found => ?_
  · have hdestroy := @destroy_eq { peer with reported := true } (hholds.intact hlive)
      (host.references index)
    rw [hdestroy]
    refine holds_of_gone hholds rfl ?_ (fun hfin => hholds.finished hfin)
      (fun _ => ⟨hrole, hrefused⟩) fun hclient => ?_
    · unfold Peer.live
      exact Bool.and_false _
    · rw [h.references_client hchan (hholds.kind.trans hclient) fun submission hmem heq => ?_]
      -- Its `connect` is through, and it had nothing else.
      have hidle := hholds.idle (by rw [hrole]; rfl) (by rw [hrefused]; exact nofun)
      have hnone := hidle.1 submission hmem heq
      have hpos : 0 < host.connecting index := countP_pos_iff.mpr
        ⟨submission, hmem, by rw [heq, hnone]; simp⟩
      have hconnectors := hholds.connector (by rw [hrefused]; exact nofun)
      have hle := hholds.connecting
      omega
  · rw [Peer.use_eq]
    refine ⟨rfl, rfl, ?_⟩
    unfold Peer.live
    exact Bool.and_false _

/-- The kernel gives descriptors, and accepts end. -/
theorem given (h : Sane host) (descriptors : List ℕ) {accepts : List ℕ}
    (haccepts : ∀ server ∈ accepts, server ∈ host.accepts) :
    Sane { host with descriptors := host.descriptors ++ descriptors, accepts := accepts } where
  linked := h.linked
  length := h.length
  holds index channel peer hchan hpeer := (h.holds index channel peer hchan hpeer).frame rfl rfl
    (fun _ => rfl) fun _ hmem => mem_append_left _ hmem
  distinct := h.distinct
  registered := h.registered
  accepts server hmem := h.accepts server (haccepts server hmem)

/-- A descriptor that the kernel may give is of no channel. -/
theorem free_of_fresh (h : Sane host) (hfresh : fd ∉ host.descriptors) (index : ℕ) (peer : Peer)
    (hpeer : host.peers[index]? = some peer) (hlive : peer.live = true) : peer.fd ≠ fd := by
  rintro rfl
  obtain ⟨channel, -, hholds⟩ := h.channel hpeer
  exact hfresh (hholds.descriptor hlive).1

/-- The peer of a channel that was just made. -/
theorem getElem?_add {server : Option ℕ} (h : Sane host)
    (hadd : Host.add role server fd timeouts host = some next) :
    next.peers[host.transport.channels.length]? = some (.create role fd timeouts) := by
  obtain ⟨below, -, -, rfl⟩ := add_cases hadd
  rw [peers_register, ← h.length]
  exact getElem?_concat_length

/-- What a factory does, where it connects with the step of the transport below. -/
theorem opens (h : Sane host) (hstep : host.openChannel role fd timeouts armed now = some next) :
    ∃ added, Sane { host with descriptors := host.descriptors ++ [fd] } ∧ Sane added ∧
      Host.add role none fd timeouts { host with descriptors := host.descriptors ++ [fd] } =
        some added ∧
      ((∃ below, added.act (.connect host.transport.channels.length !armed) (fun _ => 0) now =
            some next ∧
          Transport.step added.transport (.connect host.transport.channels.length !armed) =
            some below ∧
          next.core = Host.core { added with transport := below } ∧ Sane next) ∨
        role = .streamServer ∧ next = added.accept now host.transport.channels.length ∨
        next = added) := by
  obtain ⟨⟨hnew, hlt⟩, added, hadd, hcases⟩ := openChannel_cases hstep
  have hgiven : Sane { host with descriptors := host.descriptors ++ [fd] } :=
    h.given [fd] fun _ hmem => hmem
  have hadded := hgiven.add (mem_append_right _ (mem_singleton_self fd)) hlt
    (h.free_of_fresh hnew) hadd
  refine ⟨added, hgiven, hadded, hadd, ?_⟩
  rcases hcases with ⟨-, hact⟩ | hcases
  -- A channel that has just been added has submitted nothing.
  · have hnone : added.connecting host.transport.channels.length = 0 := by
      obtain ⟨below, -, hbelow, rfl⟩ := add_cases hadd
      refine countP_eq_zero.mpr fun submission hmem => ?_
      rw [transport_register] at hmem
      rw [hbelow] at hmem
      rw [Bool.and_eq_true, decide_eq_true_eq]
      exact fun heq => (h.linked.standing.submitted submission hmem).ne heq.1
    obtain ⟨below, hbelow, hcore, hsane⟩ :=
      hadded.connect (hgiven.getElem?_add hadd) rfl rfl hnone hact
    exact .inl ⟨below, hact, hbelow, hcore, hsane⟩
  · exact .inr hcases

theorem openChannel (h : Sane host)
    (hstep : host.openChannel role fd timeouts armed now = some next) : Sane next := by
  obtain ⟨added, hgiven, hadded, hadd, hcases⟩ := h.opens hstep
  rcases hcases with ⟨-, -, -, -, hsane⟩ | ⟨rfl, rfl⟩ | rfl
  · exact hsane
  · exact hadded.accept (hgiven.getElem?_add hadd) rfl rfl now
  · exact hadded

/-- A server that does not close is in its registry. -/
theorem live_server (h : Sane host) (hchan : host.transport.channels[index]? = some channel)
    (hpeer : host.peers[index]? = some peer) (hkind : peer.role.kind = .server)
    (hclosing : channel.closing = false) : peer.live = true := by
  have hholds := h.holds index channel peer hchan hpeer
  refine live_of_stage hholds (h.stage_of_closing hchan hclosing) fun hreported => ?_
  rw [(hholds.reported hreported).1] at hkind
  cases hkind

theorem retireAccept (h : Sane host) (position server : ℕ) (result : ℤ) :
    Sane (host.retireAccept position server result) := by
  have haccepts (server : ℕ) (hmem : server ∈ host.accepts.eraseIdx position) :
      server ∈ host.accepts := mem_of_mem_eraseIdx hmem
  unfold Host.retireAccept
  split
  · exact (h.given [result.toNat] haccepts).core rfl
  · have hgiven := h.given [] haccepts
    rw [append_nil] at hgiven
    exact hgiven.core rfl

/-- The acceptor closes its server. -/
theorem closeServer (h : Sane host) {graceful : Bool} (hpeer : host.peers[index]? = some peer)
    (hkind : peer.role.kind = .server) (hlive : peer.live = true)
    (hact : host.act (.close index graceful) free now = some next) :
    ∃ below, Transport.step host.transport (.close index graceful) = some below ∧
      next.core = Host.core { host with transport := below } ∧ Sane next := by
  have hpermits : host.permits (.close index graceful) = true := by
    unfold permits
    dsimp only
    rw [hpeer, Option.any_some]
    exact (Bool.and_eq_true_iff.mp hlive).2
  refine h.act hpermits (fun other _ heq found hother hunix => ?_) hact
  obtain ⟨rfl, -⟩ := Action.close.inj heq
  obtain rfl := Option.some.inj (hpeer.symm.trans hother)
  rw [hunix] at hkind
  cases hkind

/-- The descriptor of a connection is of nobody else. -/
def Given (result : ℤ) (host : Host) : Prop :=
  result.toNat ∈ host.descriptors ∧ result.toNat < 2 ^ 31 ∧
    ∀ (index : ℕ) (peer : Peer), host.peers[index]? = some peer → peer.live = true →
      peer.fd ≠ result.toNat

theorem given_retireAccept (h : Sane host) (hpos : 0 < result) (hfresh : host.fresh result.toNat)
    (position server : ℕ) : Given result (host.retireAccept position server result) := by
  refine ⟨?_, hfresh.2, h.free_of_fresh hfresh.1⟩
  unfold Host.retireAccept retire removeEvent
  dsimp only
  rw [if_pos hpos]
  exact mem_append_right _ (mem_singleton_self _)

/-- A server takes a connection. -/
theorem addConnection {added : Host} (h : Sane host) (hpeer : host.peers[index]? = some peer)
    (hgiven : Given result host)
    (hadd : Host.add .connection (some index) result.toNat timeouts host = some added) :
    Sane added ∧ added.peers[index]? = some peer := by
  refine ⟨h.add hgiven.1 hgiven.2.1 hgiven.2.2 hadd, ?_⟩
  obtain ⟨below, -, -, rfl⟩ := add_cases hadd
  rw [peers_register]
  exact (getElem?_append_left (List.getElem?_eq_some_iff.mp hpeer).1).trans hpeer

theorem takes {acceptor : Option Bool} {taken : Host} (h : Sane host)
    (hpeer : host.peers[index]? = some peer) (hkind : peer.role.kind = .server)
    (hlive : peer.live = true) (hgiven : 0 < result → Given result host)
    (htakes : Takes index result acceptor free now host taken) :
    Sane taken ∧ ∃ found, taken.peers[index]? = some found ∧ found.role.kind = .server ∧
      found.live = true := by
  cases htakes with
  | error => exact ⟨h, peer, hpeer, hkind, hlive⟩
  | connection hpos _ hadd =>
    obtain ⟨hadded, hfound⟩ := h.addConnection hpeer (hgiven hpos) hadd
    exact ⟨hadded, peer, hfound, hkind, hlive⟩
  | closes hpos _ hadd hact =>
    obtain ⟨hadded, hfound⟩ := h.addConnection hpeer (hgiven hpos) hadd
    obtain ⟨below, -, hcore, hclosed⟩ := hadded.closeServer hfound hkind hlive hact
    obtain ⟨after, hafter, heq⟩ := exists_of_core hcore.symm hfound
    exact ⟨hclosed, after, hafter, by rw [← hkind, heq], by rw [← hlive, heq]; rfl⟩

theorem accepted {position : ℕ} {acceptor : Option Bool} (h : Sane host)
    (hstep : host.accepted position result acceptor armed free now = some next) : Sane next := by
  obtain ⟨server, -, hfresh, hcases⟩ := accepted_cases hstep
  have hretired := h.retireAccept position server result
  rcases hcases with rfl | ⟨index, channel, taken, hroute, hchan, hclosing, htakes, rfl⟩
  · exact hretired
  · obtain ⟨fd, hfd⟩ := registered_of_route hroute
    obtain ⟨peer, hpeer, hkind⟩ := h.registered .server fd index hfd
    have hlive := h.live_server hchan hpeer hkind hclosing
    obtain ⟨htaken, found, hfound, hfoundKind, hfoundLive⟩ := hretired.takes hpeer hkind hlive
      (fun hpos => h.given_retireAccept hpos (hfresh hpos) position server) htakes
    split
    · exact htaken.accept hfound hfoundKind hfoundLive now
    · exact htaken

theorem act_of_connectsFirst {action : Action} (h : Sane host)
    (hpermits : host.permits action = true) (hfirst : ConnectsFirst host (.act action free now))
    {free' : ℕ → ℕ} (hstep : host.act action free' now = some next) :
    ∃ below, Transport.step host.transport action = some below ∧
      next.core = Host.core { host with transport := below } ∧ Sane next := by
  refine h.act hpermits (fun index graceful heq peer hpeer hrole => ?_) hstep
  subst heq
  exact hfirst peer hpeer hrole

/-- The cancel behind a timeout. -/
theorem core_timeout {below : State}
    (hbelow : Transport.step host.transport (.timeout index) = some below)
    (hcore : next.core = Host.core { host with transport := below }) (hsane : Sane next)
    (free : ℕ → ℕ) : (next.cancel free index).core = next.core := by
  have htrans : next.transport = below := (congrArg Host.transport hcore :)
  obtain ⟨channel, hchan, hstage⟩ := timeout_step hbelow
  rw [← htrans] at hchan
  exact core_cancel next (hsane.intact_of_awaits hchan hstage) free

/-- Every step that does not close a unix stream client before its `connect` fails, nor behind it,
keeps what holds between the steps. -/
theorem step {action : HostAction} (h : Sane host) (hfirst : ConnectsFirst host action)
    (hstep : host.step action = some next) : Sane next := by
  cases action with
  | openChannel role fd timeouts armed now => exact h.openChannel hstep
  | act action free now =>
    obtain ⟨hpermits, hcases⟩ := step_act hstep
    rcases hcases with hact | ⟨index, after, rfl, hafter, rfl⟩
    · obtain ⟨-, -, -, hsane⟩ := h.act_of_connectsFirst hpermits hfirst hact
      exact hsane
    · obtain ⟨below, hbelow, hcore, hsane⟩ := h.act_of_connectsFirst hpermits hfirst hafter
      exact hsane.core (core_timeout hbelow hcore hsane free)
  | complete position result free =>
    obtain ⟨-, -, -, -, -, -, hsane⟩ := h.complete hfirst hstep
    exact hsane
  | accepted position result acceptor armed free now => exact h.accepted hstep
  | finish index => exact h.finish hstep
  | report index => exact h.report hstep
  | checkEventTimeouts now free =>
    cases hstep
    exact h.core (host.core_checkEventTimeouts now free)

end Sane

end Host

end FengShui.Transport
