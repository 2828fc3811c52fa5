import FengShui.Transport.HostInvariants

/-!
# The way of a completion (`transport/transport.dart`)

While an operation is in flight its channel is in its registry, so `_process` takes the user data
apart into the channel, the buffer and the event of the operation, and the completion is one of the
transport.
-/

namespace FengShui.Transport

open State List

theorem bufferId_userData_mod {fd bufferId event : ℕ} :
    UserData.bufferId (userData fd bufferId event) = bufferId % 2 ^ 16 := by
  have hmod : userData fd bufferId event = userData fd (bufferId % 2 ^ 16) event := by
    unfold userData
    rw [Nat.mod_mod]
  rw [hmod, bufferId_userData (Nat.mod_lt _ (by decide))]

namespace Host

section Route

variable (host : Host) {fd : ℕ} (hfd : fd < 2 ^ 31)

include hfd

theorem route_of_events {kind : Kind} {event : Event} (hevent : event ∈ kind.events)
    (bufferId : ℕ) : host.route (userData fd bufferId (event.bit ||| kind.bit)) =
      (host.registered kind fd).map fun channel => .notifyData channel
      (bufferId % 2 ^ 16) event := by
  have hbits : event.bit ||| kind.bit < 2 ^ 16 := by cases event <;> cases kind <;> decide
  unfold route
  rw [event_userData hbits, fd_userData (hfd.trans (by decide)), bufferId_userData_mod]
  revert hevent
  cases kind <;> cases event <;> intro hevent <;> first | exact absurd hevent (by decide) | rfl

theorem route_of_connect (bufferId : ℕ) :
    host.route (userData fd bufferId (Event.connect.bit ||| Kind.client.bit)) =
      (host.registered .client fd).map .notifyConnect := by
  unfold route
  rw [event_userData (by decide), fd_userData (hfd.trans (by decide))]
  rfl

theorem route_of_accept (bufferId : ℕ) :
    host.route (userData fd bufferId (transportEventAccept ||| transportEventServer)) =
      (host.registered .server fd).map .notifyAccept := by
  unfold route
  rw [event_userData (by decide), fd_userData (hfd.trans (by decide))]
  rfl

end Route

variable {host next : Host}

theorem data_eq {operation : Operation} {peer : Peer}
    (hpeer : host.peers[operation.channel]? = some peer) :
    host.data operation = userData peer.fd operation.bufferId (eventOf operation peer) := by
  unfold data
  rw [hpeer]

theorem connecting_eraseIdx {position : ℕ} {submission : Submission}
    (h : host.transport.submitted[position]? = some submission) (index : ℕ) :
    host.connecting index = (host.transport.submitted.eraseIdx position).countP (fun submission =>
      submission.call.channel = index && submission.bufferId = none) +
        if submission.call.channel = index && submission.bufferId = none then 1 else 0 := by
  obtain ⟨hpos, rfl⟩ := List.getElem?_eq_some_iff.mp h
  have hperm := (getElem_cons_eraseIdx_perm hpos).countP_eq
    fun submission : Submission => submission.call.channel = index && submission.bufferId = none
  rw [countP_cons] at hperm
  exact hperm.symm

namespace Sane

variable {position : ℕ} {submission : Submission}

/-- The channel of an operation in flight. -/
theorem submitted (h : Sane host) (hsub : host.transport.submitted[position]? = some submission) :
    ∃ channel peer, host.transport.channels[submission.call.channel]? = some channel ∧
      host.peers[submission.call.channel]? = some peer ∧ channel.stage ≠ .closed ∧
      peer.live = true ∧ peer.Holds host submission.call.channel channel := by
  obtain ⟨channel, hchan, hstage⟩ := h.linked.standing.channel hsub
  obtain ⟨peer, hpeer, hholds⟩ := h.peer hchan
  refine ⟨channel, peer, hchan, hpeer, hstage, ?_, hholds⟩
  refine live_of_stage hholds hstage fun hreported hrefused => ?_
  -- Behind the failure of its `connect` nothing is in flight.
  have hnone := (hholds.idle (by rw [(hholds.reported hreported).1]; rfl)
    (by rw [hrefused]; exact nofun)).1 submission (mem_of_getElem? hsub) rfl
  have hcount := connecting_eraseIdx hsub submission.call.channel
  rw [hnone, decide_eq_true rfl, decide_eq_true rfl, Bool.and_self, if_pos rfl] at hcount
  have hconnectors := hholds.connector (by rw [hrefused]; exact nofun)
  have hle := hholds.connecting
  omega

theorem fits (h : Sane host) {channel : Channel}
    (hsub : host.transport.submitted[position]? = some submission)
    (hchan : host.transport.channels[submission.call.channel]? = some channel) :
    Fits channel.kind submission :=
  h.linked.submitted submission (mem_of_getElem? hsub) channel hchan

theorem route_connect (h : Sane host)
    (hsub : host.transport.submitted[position]? = some submission)
    (hbuf : submission.bufferId = none) :
    host.route (host.data (.entry submission)) = some (.notifyConnect submission.call.channel) := by
  obtain ⟨channel, peer, hchan, hpeer, -, hlive, hholds⟩ := h.submitted hsub
  have hfits := h.fits hsub hchan
  unfold Fits at hfits
  rw [hbuf] at hfits
  obtain ⟨hevent, hkind⟩ := hfits
  rw [hholds.kind] at hkind
  have hreg := hholds.registered hlive
  rw [hkind] at hreg
  rw [data_eq hpeer, eventOf, hevent, hkind, route_of_connect host (hholds.descriptor hlive).2,
    hreg]
  rfl

theorem route_data (h : Sane host) {bufferId : ℕ}
    (hsub : host.transport.submitted[position]? = some submission)
    (hbuf : submission.bufferId = some bufferId) :
    host.route (host.data (.entry submission)) =
      some (.notifyData submission.call.channel
        (bufferId % 2 ^ 16) submission.call.request.event) := by
  obtain ⟨channel, peer, hchan, hpeer, -, hlive, hholds⟩ := h.submitted hsub
  have hfits := h.fits hsub hchan
  unfold Fits at hfits
  rw [hbuf] at hfits
  rw [hholds.kind] at hfits
  rw [data_eq hpeer, eventOf, route_of_events host (hholds.descriptor hlive).2 hfits,
    hholds.registered hlive, Operation.bufferId, hbuf]
  rfl

end Sane

end Host

theorem Channel.completesCloser_eq {channel : Channel} (h : channel.closer = false) :
    channel.completesCloser = channel.lower.closer := by
  unfold completesCloser lower
  rw [h]
  dsimp only
  split
  · split
    · assumption
    · exact Bool.eq_false_iff.mpr ‹_›
  · rw [Bool.not_false, Bool.and_true]
    split
    · assumption
    · exact Bool.eq_false_iff.mpr ‹_›

/-- What the `notify` functions do with `_closer` and `_connector`. -/
def Peer.notify (channel : Channel) (submission : Submission) (result : ℤ) (peer : Peer) : Peer :=
  { peer with
    closers := peer.closers + if channel.completesCloser then 1 else 0
    connectors := peer.connectors + if submission.bufferId = none then 1 else 0
    connector :=
      if submission.bufferId = none then
        peer.connector.orElse fun _ => some (channel.active && result = 0)
      else peer.connector }

section Notify

variable {channel : Channel} {submission : Submission} {result : ℤ} {peer : Peer}

/-- `_connector` is completed once. -/
theorem Peer.connector_notify {connected : Bool} (h : peer.connector = some connected) :
    (peer.notify channel submission result).connector = some connected := by
  unfold Peer.notify
  dsimp only
  rw [h]
  split <;> rfl

/-- How `_connector` comes to be completed. -/
theorem Peer.connector_of_notify {connected : Bool}
    (h : (peer.notify channel submission result).connector = some connected) :
    peer.connector = some connected ∨
      submission.bufferId = none ∧ (channel.active && decide (result = 0)) = connected := by
  unfold Peer.notify at h
  dsimp only at h
  split at h
  · rename_i hnone
    cases hconn : peer.connector with
    | none =>
      rw [hconn] at h
      exact .inr ⟨hnone, Option.some.inj h⟩
    | some => exact .inl (hconn ▸ hconn ▸ h)
  · exact .inl h

end Notify

namespace Host.Sane

variable {host : Host} {position : ℕ} {result : ℤ} {submission : Submission} {channel : Channel}

theorem closeTarget_complete {target : ℕ}
    (hsub : host.transport.submitted[position]? = some submission)
    (h : closeTarget host.transport (.complete position result) = some target) :
    submission.bufferId ≠ none ∧ target = submission.call.channel := by
  rw [closeTarget, hsub, Option.bind_some] at h
  obtain ⟨bufferId, hbuf, rfl⟩ := Option.map_eq_some_iff.mp h
  exact ⟨by rw [hbuf]; exact fun h => (by cases h), rfl⟩

/-- A completion closes no client whose `connect` has failed. -/
theorem refused_complete (h : Sane host)
    (hsub : host.transport.submitted[position]? = some submission) {index : ℕ}
    {before after : Channel} {peer : Peer}
    (hbefore : host.transport.channels[index]? = some before)
    (hpeer : host.peers[index]? = some peer)
    (halters : Alters host.transport index before (.complete position result) after)
    (hrole : peer.role = .unixStreamClient) (hopen : before.closing = false)
    (hidle : submission.call.channel = index → submission.bufferId = none) :
    after.closing = false := by
  have hholds := h.holds index before peer hbefore hpeer
  by_contra hclosing
  rcases halters.closing_cases (Bool.not_eq_false _ ▸ hclosing) with hclosed | ⟨target,
    htarget, hidx⟩
  · rw [hopen] at hclosed
    cases hclosed
  · obtain ⟨hbuf, rfl⟩ := closeTarget_complete hsub htarget
    rcases hidx with hidx | hsrv
    · exact hbuf (hidle hidx)
    · have hkind := (h.linked.server index _ before hbefore hsrv).1
      rw [hholds.kind, hrole] at hkind
      cases hkind

/-- `_closer` behind a completion. -/
theorem closer_complete (h : Sane host)
    (hsub : host.transport.submitted[position]? = some submission)
    (hchan : host.transport.channels[submission.call.channel]? = some channel) {below : State}
    (hstep : Transport.step host.transport (.complete position result) = some below)
    {after : Channel} (hafter : below.channels[submission.call.channel]? = some after) :
    after.closer = channel.lower.closer := by
  rw [Transport.step, hsub] at hstep
  cases hstep
  obtain ⟨found, hfound, hcompletes⟩ := h.linked.standing.completes hsub result
  obtain rfl := Option.some.inj (hchan.symm.trans hfound)
  obtain ⟨lowered, hgrows, hlowered⟩ := grows_of_outcome hcompletes.outcome
  have hset := @getElem?_set_of_getElem? _ _ _ lowered hchan submission.call.channel
  rw [if_pos rfl] at hset
  rcases hgrows.2 _ after hafter with ⟨before, hbefore, hcloses⟩ | ⟨_, _, hnone, -⟩
  · obtain rfl := Option.some.inj (hset.symm.trans hbefore)
    rw [hcloses.closer, channel.lowered_eq hlowered]
  · rw [hset] at hnone
    cases hnone

section Completes

variable {below : State}

/-- The completion takes its entry, and submits nothing. -/
theorem submitted_complete (h : Sane host)
    (hstep : Transport.step host.transport (.complete position result) = some below) :
    below.submitted = host.transport.submitted.eraseIdx position :=
  (submitted_step h.linked.standing hstep rfl nofun).2

/-- A `connect` that is completed is no longer in flight. -/
theorem connecting_complete (h : Sane host)
    (hsub : host.transport.submitted[position]? = some submission)
    (hstep : Transport.step host.transport (.complete position result) = some below) (index : ℕ) :
    ({ host with transport := below }).connecting index +
        (if submission.call.channel = index ∧ submission.bufferId = none then 1 else 0) =
      host.connecting index := by
  have hconnect := connecting_eraseIdx hsub index
  rw [← h.submitted_complete hstep] at hconnect
  simp only [Bool.and_eq_true, decide_eq_true_eq] at hconnect
  exact hconnect.symm

/-- Who uses no buffer goes on using none. -/
theorem idle_complete (h : Sane host)
    (hstep : Transport.step host.transport (.complete position result) = some below) {index : ℕ}
    (hidle : (∀ submission ∈ host.transport.submitted, submission.call.channel = index →
        submission.bufferId = none) ∧
      ∀ call ∈ host.transport.buffers.waiting, call.channel ≠ index) :
    (∀ submission ∈ below.submitted, submission.call.channel = index → submission.bufferId = none) ∧
      ∀ call ∈ below.buffers.waiting, call.channel ≠ index := by
  refine ⟨fun other hmem => ?_, fun call hmem => ?_⟩
  · rw [h.submitted_complete hstep] at hmem
    exact hidle.1 other (mem_of_mem_eraseIdx hmem)
  · rcases waiting_step h.linked.standing hstep hmem with hmem | hcalls
    · exact hidle.2 call hmem
    · cases hcalls

/-- The channels that the completion is not for. -/
theorem holds_complete_other (h : Sane host)
    (hsub : host.transport.submitted[position]? = some submission)
    (hstep : Transport.step host.transport (.complete position result) = some below) {other : ℕ}
    {after : Channel} {peer : Peer} (hne : other ≠ submission.call.channel)
    (hafter : below.channels[other]? = some after) (hpeer : host.peers[other]? = some peer) :
    peer.Holds { host with transport := below } other after := by
  rcases before_step hstep hafter with ⟨before, hbefore, halters⟩ | ⟨_, _, haction, -⟩
  · have hholds := h.holds other before peer hbefore hpeer
    exact
      { hholds with
        kind := halters.kind.trans hholds.kind
        finished := fun hfin => halters.closed (h.sound hbefore) (hholds.finished hfin)
        refused := fun hrole hrefused =>
          h.refused_complete hsub hbefore hpeer halters hrole (hholds.refused hrole hrefused)
            fun heq => absurd heq.symm hne
        connecting := by
          have hle := hholds.connecting
          have hcount := h.connecting_complete hsub hstep other
          omega
        idle := fun hconnects hconn =>
          h.idle_complete hstep (hholds.idle hconnects hconn)
        closers := by
          -- `_closer` is completed for the channel of the completion only.
          rw [halters.closer fun _ _ found heq hfound heq' => ?_]
          · exact hholds.closers
          · cases heq
            obtain rfl := Option.some.inj (hsub.symm.trans hfound)
            exact hne heq'.symm }
  · cases haction

/-- The channel that it is for, and what `notify` makes of its peer. -/
theorem holds_complete_self (h : Sane host)
    (hsub : host.transport.submitted[position]? = some submission)
    (hchan : host.transport.channels[submission.call.channel]? = some channel)
    (hfirst : submission.bufferId = none → ∀ peer,
      host.peers[submission.call.channel]? = some peer → peer.role = .unixStreamClient →
        channel.closing = true → channel.active = true ∧ result = 0)
    (hstep : Transport.step host.transport (.complete position result) = some below)
    {after : Channel} {peer : Peer}
    (hafter : below.channels[submission.call.channel]? = some after)
    (hpeer : host.peers[submission.call.channel]? = some peer) :
    (peer.notify channel submission result).Holds { host with transport := below }
      submission.call.channel after := by
  rcases before_step hstep hafter with ⟨before, hbefore, halters⟩ | ⟨_, _, haction, -⟩
  · obtain rfl := Option.some.inj (hchan.symm.trans hbefore)
    have hholds := h.holds _ channel peer hbefore hpeer
    have hsound := h.sound hbefore
    rw [inflight_eraseIdx hsub, if_pos rfl] at hsound
    -- An operation is in flight, so that `_closer` cannot be completed.
    have hcloser : channel.closer = false := by
      by_contra hcloser
      have hzero := (hsound.closer (Bool.not_eq_false _ ▸ hcloser)).2
      have hle := hsound.pending
      omega
    have hclosers := hholds.closers
    rw [hcloser, if_neg Bool.false_ne_true] at hclosers
    have hrefused (hrole : peer.role = .unixStreamClient)
        (hrefused : (peer.notify channel submission result).connector = some false) :
        after.closing = false := by
      rcases Peer.connector_of_notify hrefused with hbefore' | ⟨hnone, hres⟩
      · refine h.refused_complete hsub hbefore hpeer halters hrole
          (hholds.refused hrole hbefore') fun _ => ?_
        exact (hholds.idle (by rw [hrole]; rfl) (by rw [hbefore']; exact nofun)).1
          submission (mem_of_getElem? hsub) rfl
      · refine h.refused_complete hsub hbefore hpeer halters hrole ?_ fun _ => hnone
        by_contra hclosing
        obtain ⟨hactive, hzero⟩ := hfirst hnone peer hpeer hrole (Bool.not_eq_false _ ▸ hclosing)
        rw [hactive, decide_eq_true hzero] at hres
        cases hres
    exact
      { hholds with
        kind := halters.kind.trans hholds.kind
        finished := fun hfin => halters.closed (h.sound hbefore) (hholds.finished hfin)
        reported := fun hreported =>
          ⟨(hholds.reported hreported).1, Peer.connector_notify (hholds.reported hreported).2⟩
        refused := hrefused
        connecting := by
          -- `_connector` has been completed instead.
          have hle := hholds.connecting
          have hcount := h.connecting_complete hsub hstep submission.call.channel
          simp only [true_and] at hcount
          unfold Peer.notify
          dsimp only
          omega
        connector := fun hconn => by
          obtain ⟨connected, hconnected⟩ := Option.ne_none_iff_exists'.mp hconn
          unfold Peer.notify
          dsimp only
          rcases Peer.connector_of_notify hconnected with hbefore' | ⟨hnone, -⟩
          · have hpos := hholds.connector (by rw [hbefore']; exact nofun)
            omega
          · rw [if_pos hnone]
            exact Nat.succ_pos _
        idle := fun hconnects hconn => h.idle_complete hstep (hholds.idle hconnects
          fun hconnected => hconn (Peer.connector_notify hconnected))
        closers := by
          rw [h.closer_complete hsub hbefore hstep hafter]
          unfold Peer.notify
          dsimp only
          rw [hclosers, Channel.completesCloser_eq hcloser, Nat.zero_add] }
  · cases haction

/-- A completion of the transport, and what `notify` makes of it. -/
theorem completes (h : Sane host) (hsub : host.transport.submitted[position]? = some submission)
    (hchan : host.transport.channels[submission.call.channel]? = some channel)
    (hfirst : submission.bufferId = none → ∀ peer,
      host.peers[submission.call.channel]? = some peer → peer.role = .unixStreamClient →
        channel.closing = true → channel.active = true ∧ result = 0)
    (hstep : Transport.step host.transport (.complete position result) = some below) :
    Sane (modifyPeer submission.call.channel (Peer.notify channel submission result)
      { host with transport := below }) := by
  have hlen := length_step hstep nofun
  exact @sane_modifyPeer { host with transport := below } _ _ (h.linked.step hstep)
    (h.length.trans hlen.symm)
    (fun _ _ _ hne hafter hpeer => h.holds_complete_other hsub hstep hne hafter hpeer)
    (fun _ _ hafter hpeer =>
      h.holds_complete_self hsub hchan hfirst hstep hafter hpeer)
    h.distinct h.registered h.accepts fun peer => ⟨rfl, rfl, id⟩

end Completes

end Host.Sane

namespace Host

/-- The transport with another buffer in an entry: the user data has 16 bits for it. -/
def rebuffer (position : ℕ) (submission : Submission) (host : Host) : Host :=
  { host with
    transport := { host.transport with
      submitted := host.transport.submitted.set position
        { submission with bufferId := submission.bufferId.map (· % 2 ^ 16) } } }

variable {host : Host} {position : ℕ} {submission : Submission}

theorem countP_set_of_eq {p : Submission → Bool} {submitted : List Submission} {other : Submission}
    (h : submitted[position]? = some submission) (hp : p other = p submission) :
    (submitted.set position other).countP p = submitted.countP p := by
  obtain ⟨hpos, rfl⟩ := List.getElem?_eq_some_iff.mp h
  have hset := (getElem_cons_eraseIdx_perm (l := submitted.set position other)
    (by rwa [length_set])).countP_eq p
  have hsame := (getElem_cons_eraseIdx_perm hpos).countP_eq p
  rw [getElem_set_self, eraseIdx_set_eq, countP_cons, hp] at hset
  rw [countP_cons] at hsame
  exact hset.symm.trans hsame

/-- What counts of an entry is whether it has a buffer. -/
theorem Sane.rebuffer (h : Sane host)
    (hsub : host.transport.submitted[position]? = some submission) :
    Sane (host.rebuffer position submission) := by
  -- The entries have the same calls, and a buffer just when they had one.
  have hmem (other : Submission)
      (hother : other ∈ (host.rebuffer position submission).transport.submitted) :
      ∃ before ∈ host.transport.submitted, other.call = before.call ∧
        (other.bufferId = none ↔ before.bufferId = none) := by
    rcases mem_or_eq_of_mem_set hother with hmem | rfl
    · exact ⟨other, hmem, rfl, Iff.rfl⟩
    · exact ⟨submission, mem_of_getElem? hsub, rfl, Option.map_eq_none_iff⟩
  have hflight (index : ℕ) :
      inflight index (host.rebuffer position submission).transport.submitted =
        inflight index host.transport.submitted := countP_set_of_eq hsub rfl
  have hconnect (index : ℕ) : (host.rebuffer position submission).connecting index =
      host.connecting index := by
    refine countP_set_of_eq hsub ?_
    dsimp only
    rw [decide_eq_decide.mpr Option.map_eq_none_iff]
  have hstand := h.linked.standing
  refine ⟨⟨⟨fun index channel hchan => ?_, fun other hother => ?_, hstand.waiting,
    hstand.whole⟩, h.linked.server, h.linked.closes, fun other hother channel hchan => ?_,
    h.linked.waiting⟩, h.length, fun index channel peer hchan hpeer => ?_, h.distinct, h.registered,
    h.accepts⟩
  · rw [hflight]
    exact hstand.channels index channel hchan
  · obtain ⟨before, hbefore, hcall, -⟩ := hmem other hother
    rw [hcall]
    exact hstand.submitted before hbefore
  · obtain ⟨before, hbefore, hcall, hnone⟩ := hmem other hother
    rw [hcall] at hchan
    have hfits := h.linked.submitted before hbefore channel hchan
    unfold Fits at hfits ⊢
    rw [hcall]
    cases hbuf : before.bufferId with
    | none =>
      rw [hnone.mpr hbuf]
      rwa [hbuf] at hfits
    | some bufferId =>
      obtain ⟨found, hfound⟩ := Option.ne_none_iff_exists'.mp fun h => by
        rw [hnone.mp h] at hbuf
        cases hbuf
      rw [hfound]
      rwa [hbuf] at hfits
  · have hholds := h.holds index channel peer hchan hpeer
    exact
      { hholds with
        connecting := by rw [hconnect]; exact hholds.connecting
        idle := fun hconnects hconn => by
          obtain ⟨hsubs, hcalls⟩ := hholds.idle hconnects hconn
          refine ⟨fun other hother hidx => ?_, hcalls⟩
          obtain ⟨before, hbefore, hcall, hnone⟩ := hmem other hother
          exact hnone.mpr (hsubs before hbefore (hcall ▸ hidx)) }

/-- A completion: it is one of the transport, with what is left of the id of its buffer. -/
theorem Sane.complete_cases (h : Sane host) {result : ℤ} {free : ℕ → ℕ} {next : Host}
    (hstep : host.complete position result free = some next) :
    ∃ (submission : Submission) (channel : Channel) (below : State) (cancels : List ℕ),
      host.transport.submitted[position]? = some submission ∧
      host.transport.channels[submission.call.channel]? = some channel ∧
      Transport.step (host.rebuffer position submission).transport (.complete position result) =
        some below ∧
      (cancels = [] ∨ cancels = awaiting host.transport below) ∧
      next = cancels.foldl (cancel free)
        (modifyPeer submission.call.channel (Peer.notify channel submission result)
          { retire (.entry submission)
              { host with
                transport := { host.transport with
                  submitted := host.transport.submitted.eraseIdx position } } with
            transport := below }) := by
  unfold Host.complete at hstep
  cases hsub : host.transport.submitted[position]? with
  | none =>
    rw [hsub] at hstep
    cases hstep
  | some submission =>
    obtain ⟨channel, peer, hchan, hpeer, hstage, -, -⟩ := h.submitted hsub
    have hpos := (List.getElem?_eq_some_iff.mp hsub).1
    rw [hsub] at hstep
    dsimp only at hstep
    -- The completion of the ring is the one of the transport, for the buffer that is left.
    have hbelow (below : State)
        (hcomplete : State.complete
          { submission with bufferId := submission.bufferId.map (· % 2 ^ 16) } result
          { host.transport with submitted := host.transport.submitted.eraseIdx position } = below) :
        Transport.step (host.rebuffer position submission).transport (.complete position result) =
          some below := by
      unfold Host.rebuffer
      rw [Transport.step]
      dsimp only
      rw [getElem?_set_self hpos]
      dsimp only
      rw [eraseIdx_set_eq, hcomplete]
    have hretired : (retire (.entry submission) { host with
        transport := { host.transport with
          submitted := host.transport.submitted.eraseIdx position } }).transport.channels[
            submission.call.channel]? = some channel := hchan
    unfold State.complete at hbelow
    rw [hchan] at hbelow
    dsimp only at hbelow
    rw [if_neg hstage] at hbelow
    cases hbuf : submission.bufferId with
    | none =>
      -- The user data leads back to the channel, whose `notify` is called.
      rw [h.route_connect hsub hbuf] at hstep
      rw [hbuf] at hbelow
      cases hstep
      refine ⟨submission, channel, _, [], rfl, hchan, hbelow _ rfl, .inl rfl, ?_⟩
      unfold notifyConnect Peer.notify
      rw [hretired, hbuf]
      rfl
    | some bufferId =>
      rw [h.route_data hsub hbuf] at hstep
      rw [hbuf] at hbelow
      cases hstep
      refine ⟨submission, channel, _, _, rfl, hchan, hbelow _ rfl, .inr rfl, ?_⟩
      unfold notifyData Peer.notify
      rw [hretired, hbuf]
      rfl

theorem Sane.complete (h : Sane host) {result : ℤ} {free : ℕ → ℕ} {next : Host}
    (hfirst : ConnectsFirst host (.complete position result free))
    (hstep : host.complete position result free = some next) :
    ∃ (submission : Submission) (channel : Channel) (below : State),
      host.transport.submitted[position]? = some submission ∧
      Transport.step (host.rebuffer position submission).transport (.complete position result) =
        some below ∧
      next.core = (modifyPeer submission.call.channel (Peer.notify channel submission result)
        { host with transport := below }).core ∧ Sane next := by
  obtain ⟨submission, channel, below, cancels, hsub, hchan, hbelow, hcancels, rfl⟩ :=
    h.complete_cases hstep
  have hpos := (List.getElem?_eq_some_iff.mp hsub).1
  -- `notify` looks only at whether there is a buffer.
  have hnotify : Peer.notify channel { submission with
      bufferId := submission.bufferId.map (· % 2 ^ 16) } result =
        Peer.notify channel submission result := by
    unfold Peer.notify
    simp only [Option.map_eq_none_iff]
  have hsane := (h.rebuffer hsub).completes (getElem?_set_self hpos) hchan
    (fun hnone peer hpeer => hfirst submission channel peer hsub
      (Option.map_eq_none_iff.mp hnone) hchan hpeer) hbelow
  rw [hnotify] at hsane
  -- The cancels behind it leave the core as it is.
  have hcore :=
    core_foldl (modifyPeer submission.call.channel (Peer.notify channel submission result)
    { retire (.entry submission) { host with
      transport := { host.transport with
        submitted := host.transport.submitted.eraseIdx position } } with transport := below })
    (fun host _ hintact => core_cancel host hintact free) cancels fun index hmem => by
      have hawaiting : index ∈ awaiting host.transport below := by
        rcases hcancels with heq | heq
        · rw [heq] at hmem
          cases hmem
        · rwa [heq] at hmem
      obtain ⟨found, hfound, hstage⟩ := mem_awaiting hawaiting
      exact hsane.intact_of_awaits hfound hstage
  exact ⟨submission, channel, below, hsub, hbelow, hcore, hsane.core hcore⟩

end Host

end FengShui.Transport
