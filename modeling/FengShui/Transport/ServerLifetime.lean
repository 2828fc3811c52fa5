import FengShui.Transport.HostSteps

/-!
# How a server ends (`transport/server/server.dart`)

`close` counts the datagrams and awaits the connections, but not the accept: it is not in
`_pending`, so `close` neither cancels nor awaits it where nothing else is pending, and destroys the
server with its accept in flight (`outlives_false`). Nor does `notifyAccept` look at `_closing`
again behind the acceptor. Where the last accept is there before the end of `close`, and no acceptor
closes its server, a server ends with nothing in flight (`outlives_of_acceptsFirst`).
-/

namespace FengShui.Transport.Host

open FengShui.Transition State

/-- A native server is destroyed with nothing in flight that refers to it, and behind `close` no
accept was armed for it. -/
def Outlives (host : Host) : Prop :=
  ∀ (index : ℕ) (peer : Peer), host.peers[index]? = some peer → peer.role.kind = .server →
    (∀ references ∈ peer.destroys, references = 0) ∧ peer.rearmed = 0

/-- The accept of a server is there before the end of its `close`, and no acceptor closes its server
and has the next accept armed. -/
def AcceptsFirst (host : Host) : HostAction → Prop
  | .finish index => ∀ peer, host.peers[index]? = some peer → peer.role.kind = .server →
    index ∉ host.accepts
  | .accepted _ result acceptor armed _ _ => 0 < result → armed = true → acceptor = none
  | _ => True

/-- What holds of the servers between the steps. -/
structure Serves (host : Host) : Prop where
  served : host.transport.Served
  outlives : host.Outlives

variable {host next : Host}

theorem outlives_of_core (h : Outlives host) (hcore : next.core = host.core) : Outlives next := by
  intro index peer hpeer hkind
  obtain ⟨before, hbefore, heq⟩ := exists_of_core hcore hpeer
  rw [heq] at hkind ⊢
  exact h index before hbefore hkind

theorem outlives_modifyPeer {index : ℕ} {f : Peer → Peer} (h : Outlives host)
    (hrole : ∀ peer, (f peer).role = peer.role)
    (hf : ∀ peer, host.peers[index]? = some peer → peer.role.kind = .server →
      (∀ references ∈ peer.destroys, references = 0) → peer.rearmed = 0 →
        (∀ references ∈ (f peer).destroys, references = 0) ∧ (f peer).rearmed = 0) :
    Outlives (host.modifyPeer index f) := by
  intro other peer hpeer hkind
  rw [getElem?_modifyPeer] at hpeer
  obtain ⟨before, hbefore, rfl⟩ := Option.map_eq_some_iff.mp hpeer
  split at hkind
  · rename_i heq
    subst heq
    rw [hrole] at hkind
    rw [if_pos rfl]
    obtain ⟨hdestroys, hrearmed⟩ := h index before hbefore hkind
    exact hf before hbefore hkind hdestroys hrearmed
  · rename_i hne
    rw [if_neg hne]
    exact h other before hbefore hkind

namespace Serves

/-- By what the other layers see of a host. -/
theorem core (h : Serves host) (hcore : next.core = host.core) : Serves next := by
  have htrans : next.transport = host.transport := (congrArg Host.transport hcore :)
  exact ⟨by rw [htrans]; exact h.served, outlives_of_core h.outlives hcore⟩

theorem add {role : Role} {server : Option ℕ} {fd : ℕ} {timeouts : Timeouts} (h : Serves host)
    (hsane : Sane host) (hadd : Host.add role server fd timeouts host = some next) :
    Serves next := by
  obtain ⟨below, hbelow, -, rfl⟩ := add_cases hadd
  refine ⟨?_, fun index peer hpeer hkind => ?_⟩
  · rw [transport_register]
    exact h.served.step hsane.linked (fun _ _ _ heq => by cases heq) hbelow
  · rcases getElem?_concat_eq_some.mp (peers_register .. ▸ hpeer) with hpeer | ⟨-, rfl⟩
    · exact h.outlives index peer hpeer hkind
    · exact ⟨nofun, rfl⟩

theorem accept (h : Serves host) {index : ℕ} {channel : Channel}
    (hchan : host.transport.channels[index]? = some channel) (hclosing : channel.closing = false)
    (now : ℕ) : Serves (host.accept now index) := by
  refine Serves.core ?_ (core_addEvent _ now (.accept index))
  refine ⟨h.served, @outlives_modifyPeer { host with accepts := host.accepts ++ [index] } _ _
    h.outlives (fun peer => ?_) fun peer _ _ hdestroys hrearmed => ?_⟩
  · dsimp only
    rw [Peer.use_eq]
  · dsimp only
    rw [Peer.use_eq, hchan, Option.map_some, hclosing, Option.getD_some,
      if_neg Bool.false_ne_true]
    exact ⟨hdestroys, hrearmed⟩

/-- A server closes behind its connections. -/
theorem awaits_of_permits {action : Action} (hsane : Sane host)
    (hpermits : host.permits action = true) : AwaitsConnections host.transport action := by
  rintro index server connection rfl hconn hsrv
  unfold permits at hpermits
  have hall := List.all_eq_true.mp hpermits connection (List.mem_of_getElem? hconn)
  rw [Bool.or_eq_true, Bool.or_eq_true, decide_eq_true_eq, decide_eq_true_eq] at hall
  rcases hall with (hne | hcloser) | hpend
  · exact absurd hsrv hne
  · exact ((hsane.sound hconn).closer hcloser).2.le
  · exact hpend

/-- A step of the transport, with its native calls. -/
theorem act {action : Action} (h : Serves host) (hsane : Sane host)
    (hawaits : AwaitsConnections host.transport action) {below : State}
    (hstep : Transport.step host.transport action = some below)
    (hcore : next.core = Host.core { host with transport := below }) : Serves next :=
  @Serves.core { host with transport := below } _
    ⟨h.served.step hsane.linked hawaits hstep, h.outlives⟩ hcore

variable {index : ℕ}

/-- No operation refers to a server whose connections are through. -/
theorem references_server (h : Serves host) (hsane : Sane host) {channel : Channel}
    (hchan : host.transport.channels[index]? = some channel) (hstage : channel.stage = .closed)
    (haccepts : index ∉ host.accepts) : host.references index = 0 := by
  have hnone {other : ℕ} {found : Channel} (hfound : host.transport.channels[other]? = some found)
      (hpend : found.pending ≤ 0) (submission : Submission)
      (hmem : submission ∈ host.transport.submitted) : submission.call.channel ≠ other := by
    have hle := (hsane.sound hfound).pending
    have hzero : inflight other host.transport.submitted = 0 := by omega
    exact fun heq => List.countP_eq_zero.mp hzero submission hmem (decide_eq_true heq)
  refine references_eq_zero (fun submission hmem => ⟨?_, fun hsrv => ?_⟩)
    fun server hmem => ⟨fun heq => haccepts (heq ▸ hmem), fun hsrv => ?_⟩
  · exact hnone hchan ((hsane.sound hchan).closed hstage).le submission hmem
  · obtain ⟨connection, hconn, hsrv⟩ := Option.bind_eq_some_iff.mp hsrv
    have hpend := h.served _ index connection channel hconn hsrv hchan
      (by rw [hstage]; rfl)
    exact hnone hconn hpend submission hmem rfl
  · obtain ⟨connection, hconn, hsrv⟩ := Option.bind_eq_some_iff.mp hsrv
    have hkind := (hsane.linked.server _ index connection hconn hsrv).1
    obtain ⟨peer, hpeer, hpeerKind⟩ := hsane.accepts server hmem
    rw [(hsane.holds server connection peer hconn hpeer).kind, hpeerKind] at hkind
    cases hkind

theorem leave (h : Serves host) {peer : Peer} {f : Peer → Peer}
    (hrole : ∀ peer, (f peer).role = peer.role)
    (hf : ∀ peer, host.peers[index]? = some peer → peer.role.kind = .server →
      (∀ references ∈ peer.destroys, references = 0) → peer.rearmed = 0 →
        (∀ references ∈ (f peer).destroys, references = 0) ∧ (f peer).rearmed = 0) :
    Serves ((host.leave peer).modifyPeer index f) := by
  have houtlives : Outlives (host.leave peer) := by
    intro other found hfound hkind
    rw [peers_leave] at hfound
    exact h.outlives other found hfound hkind
  refine ⟨?_, outlives_modifyPeer houtlives hrole fun found hfound => ?_⟩
  · have hserved : (host.leave peer).transport.Served := by
      rw [transport_leave]
      exact h.served
    exact hserved
  · rw [peers_leave] at hfound
    exact hf found hfound

theorem finish (h : Serves host) (hsane : Sane host) {index : ℕ}
    (hfirst : AcceptsFirst host (.finish index)) (hstep : host.finish index = some next) :
    Serves next := by
  obtain ⟨channel, peer, hchan, hpeer, hstage, -, hcases⟩ := finish_cases hstep
  rcases hcases with ⟨-, rfl⟩ | ⟨-, rfl⟩
  · refine h.leave (fun found => ?_) fun found hfound hkind hdestroys hrearmed => ?_
    · rw [Peer.use_eq]
      rfl
    · have hzero := h.references_server hsane hchan hstage (hfirst found hfound hkind)
      rw [Peer.use_eq, hzero]
      refine ⟨fun references hmem => ?_, hrearmed⟩
      rcases List.mem_append.mp hmem with hmem | hmem
      · exact hdestroys references hmem
      · exact List.mem_singleton.mp hmem
  · exact h.leave (fun _ => rfl) fun _ _ _ hdestroys hrearmed => ⟨hdestroys, hrearmed⟩

theorem report (h : Serves host) (hstep : host.report index = some next) : Serves next := by
  obtain ⟨peer, hpeer, hrole, -, -, rfl⟩ := report_cases hstep
  refine h.leave (fun found => ?_) fun found hfound hkind => ?_
  · rw [Peer.use_eq]
    rfl
  · obtain rfl := Option.some.inj (hpeer.symm.trans hfound)
    rw [hrole] at hkind
    cases hkind

theorem openChannel {role : Role} {fd : ℕ} {timeouts : Timeouts} {armed : Bool} {now : ℕ}
    (h : Serves host) (hsane : Sane host)
    (hstep : host.openChannel role fd timeouts armed now = some next) : Serves next := by
  obtain ⟨added, hgiven, hsaneAdded, hadd, hcases⟩ := hsane.opens hstep
  have hadded : Serves added :=
    @Serves.add { host with descriptors := host.descriptors ++ [fd] } _ _ _ _ _
      ⟨h.served, h.outlives⟩ hgiven hadd
  rcases hcases with ⟨below, -, hbelow, hcore, -⟩ | ⟨rfl, rfl⟩ | rfl
  · exact hadded.act hsaneAdded (fun _ _ _ heq => by cases heq) hbelow hcore
  · obtain ⟨below, -, hbelow, rfl⟩ := add_cases hadd
    refine @Serves.accept _ hadded _ (.create .server none) ?_ rfl now
    rw [transport_register]
    rw [hbelow]
    exact List.getElem?_concat_length
  · exact hadded

theorem accepted {position : ℕ} {result : ℤ} {acceptor : Option Bool} {armed : Bool}
    {free : ℕ → ℕ} {now : ℕ} (h : Serves host) (hsane : Sane host)
    (hfirst : AcceptsFirst host (.accepted position result acceptor armed free now))
    (hstep : host.accepted position result acceptor armed free now = some next) : Serves next := by
  obtain ⟨server, -, hfresh, hcases⟩ := accepted_cases hstep
  have hretired : Serves (host.retireAccept position server result) := ⟨h.served, h.outlives⟩
  have hsaneRetired := hsane.retireAccept position server result
  rcases hcases with rfl | ⟨index, channel, taken, hroute, hchan, hclosing, htakes, rfl⟩
  · exact hretired
  -- The new connection stands behind the server in the list of channels.
  · have hlt := (List.getElem?_eq_some_iff.mp hchan).1
    cases htakes with
    | error =>
      split
      · exact hretired.accept hchan hclosing now
      · exact hretired
    | connection _ _ hadd =>
      have hadded := hretired.add hsaneRetired hadd
      split
      · obtain ⟨below, -, hbelow, rfl⟩ := add_cases hadd
        refine hadded.accept ?_ hclosing now
        rw [transport_register]
        rw [hbelow]
        exact (List.getElem?_append_left hlt).trans hchan
      · exact hadded
    | closes hpos hacceptor hadd hact =>
      split
      · rename_i harmed
        -- A server that is armed again was not closed by the acceptor.
        rw [hfirst hpos harmed] at hacceptor
        cases hacceptor
      · obtain ⟨fd, hfd⟩ := registered_of_route hroute
        obtain ⟨peer, hpeer, hkind⟩ := hsane.registered .server fd index hfd
        have hlive := hsane.live_server hchan hpeer hkind hclosing
        obtain ⟨hsaneAdded, hfound⟩ := hsaneRetired.addConnection hpeer
          (hsane.given_retireAccept hpos (hfresh hpos) position server) hadd
        obtain ⟨below, hbelow, hcore, -⟩ := hsaneAdded.closeServer hfound hkind hlive hact
        exact (hretired.add hsaneRetired hadd).act hsaneAdded (fun _ _ _ heq => by cases heq) hbelow
          hcore

theorem complete {position : ℕ} {result : ℤ} {free : ℕ → ℕ} (h : Serves host) (hsane : Sane host)
    (hfirst : ConnectsFirst host (.complete position result free))
    (hstep : host.complete position result free = some next) : Serves next := by
  obtain ⟨submission, channel, below, hsub, hbelow, hcore, -⟩ := hsane.complete hfirst hstep
  refine @Serves.core (modifyPeer submission.call.channel
    (Peer.notify channel submission result) { host with transport := below }) _ ⟨?_, ?_⟩ hcore
  · exact @State.Served.step (host.rebuffer position submission).transport _ _ h.served
      (hsane.rebuffer hsub).linked (fun _ _ _ heq => by cases heq) hbelow
  · exact @outlives_modifyPeer { host with transport := below } _ _ h.outlives (fun _ => rfl)
      fun _ _ _ hdestroys hrearmed => ⟨hdestroys, hrearmed⟩

/-- Every step keeps servers behind their connections. -/
theorem step {action : HostAction} (h : Serves host) (hsane : Sane host)
    (hconnects : ConnectsFirst host action) (haccepts : AcceptsFirst host action)
    (hstep : host.step action = some next) : Serves next := by
  cases action with
  | openChannel role fd timeouts armed now => exact h.openChannel hsane hstep
  | act action free now =>
    obtain ⟨hpermits, hcases⟩ := step_act hstep
    have hawaits := awaits_of_permits hsane hpermits
    rcases hcases with hact | ⟨index, after, rfl, hafter, rfl⟩
    · obtain ⟨below, hbelow, hcore, -⟩ := hsane.act_of_connectsFirst hpermits hconnects hact
      exact h.act hsane hawaits hbelow hcore
    · obtain ⟨below, hbelow, hcore, hsaneAfter⟩ :=
        hsane.act_of_connectsFirst hpermits hconnects hafter
      exact (h.act hsane hawaits hbelow hcore).core (Sane.core_timeout hbelow hcore hsaneAfter free)
  | complete position result free => exact h.complete hsane hconnects hstep
  | accepted position result acceptor armed free now => exact h.accepted hsane haccepts hstep
  | finish index => exact h.finish hsane haccepts hstep
  | report index => exact h.report hstep
  | checkEventTimeouts now free =>
    cases hstep
    exact h.core (host.core_checkEventTimeouts now free)

end Serves

theorem serves_create (capacity : ℕ) : Serves (create capacity) :=
  ⟨fun _ _ _ _ h => (by cases h), fun _ _ h => by cases h⟩

/-- In every run in which the accepts of a server are there before the end of its `close`, and no
acceptor closes its server, every server outlives what refers to it. -/
theorem outlives_of_acceptsFirst (capacity : ℕ) (actions : List HostAction) {host : Host}
    (halong : Along step (fun host action => ConnectsFirst host action ∧ AcceptsFirst host action)
      (create capacity) actions)
    (hrun : run step (create capacity) actions = some host) : Outlives host := by
  have hinv := run_induction (fun _ host => Sane host ∧ Serves host)
    (fun _ _ _ _ hinv hfirst hstep =>
      ⟨hinv.1.step hfirst.1 hstep, hinv.2.step hinv.1 hfirst.1 hfirst.2 hstep⟩)
    ⟨sane_create capacity, serves_create capacity⟩ halong hrun
  exact hinv.2.outlives

/-- A server whose accept comes to an error before `close` is through. -/
theorem outlives_of_acceptsFirst_error :
    ∃ host, run step (create 1)
      [.openChannel .streamServer 5 ⟨-1, none, none⟩ true 0, .act (.close 0 false) (fun _ => 0) 0,
        .accepted 0 (-125) none true (fun _ => 0) 0, .act (.closedConnections 0) (fun _ => 0) 0,
        .finish 0] = some host ∧ Outlives host := by
  refine ⟨_, rfl, outlives_of_acceptsFirst 1
    [.openChannel .streamServer 5 ⟨-1, none, none⟩ true 0, .act (.close 0 false) (fun _ => 0) 0,
      .accepted 0 (-125) none true (fun _ => 0) 0, .act (.closedConnections 0) (fun _ => 0) 0,
      .finish 0] ?_ rfl⟩
  refine (along_cons_of_step rfl).mpr ⟨⟨trivial, trivial⟩, ?_⟩
  refine (along_cons_of_step rfl).mpr ⟨⟨fun peer hpeer hrole => ?_, trivial⟩, ?_⟩
  · cases hpeer
    cases hrole
  refine (along_cons_of_step rfl).mpr ⟨⟨trivial, fun _ _ => rfl⟩, ?_⟩
  refine (along_cons_of_step rfl).mpr ⟨⟨trivial, trivial⟩, ?_⟩
  refine (along_cons_of_step rfl).mpr ⟨⟨trivial, fun peer hpeer _ hmem => ?_⟩, trivial⟩
  cases hmem

/-- A server with no connection is destroyed while its accept is in flight. -/
theorem outlives_false : ¬∀ host, Reachable step (create 1) host → Outlives host := by
  intro h
  obtain ⟨host, hrun, peer, hpeer, hkind, hmem⟩ : ∃ host, run step (create 1)
      [.openChannel .streamServer 5 ⟨-1, none, none⟩ true 0, .act (.close 0 false) (fun _ => 0) 0,
        .act (.closedConnections 0) (fun _ => 0) 0, .finish 0] = some host ∧
      ∃ peer, host.peers[0]? = some peer ∧ peer.role.kind = .server ∧ 1 ∈ peer.destroys :=
    ⟨_, rfl, _, rfl, rfl, by decide +kernel⟩
  exact absurd ((h host ⟨_, hrun⟩ 0 peer hpeer hkind).1 1 hmem) (by decide)

end FengShui.Transport.Host
