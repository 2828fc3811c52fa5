import FengShui.Transport.HostSteps
import Mathlib.Logic.Function.Basic

/-!
# The paths of Unix sockets (`client.c`, `server.c` and `factory.dart` of `transport`)

A Unix server is found by the file to which it is bound. `transport_client_destroy` unlinks the path
of its client, which is the path of the server that the client connects to. The host is taken with
the paths and with the files that are there: `teardown_of_clear` says when a client that is torn
down takes nothing that belongs to others.
-/

namespace FengShui.Transport

open FengShui.Transition Host

/-- A host, with the paths of its sockets. -/
structure Sockets where
  host : Host
  /-- `sun_path` of the clients and servers of the family `AF_UNIX`. -/
  sunPaths : ℕ → Option String
  /-- The servers that are bound to the files. -/
  files : String → Option ℕ

inductive SocketsAction where
  | openChannel (role : Role) (fd : ℕ) (timeouts : Timeouts) (armed : Bool) (now : ℕ)
    (path : Option String)
  /-- `transport_client_initialize_unix_stream` gets no socket, and the factory destroys the
  client. -/
  | refused (path : String)
  | host (action : HostAction)

namespace Host

/-! ## Servers from step to step -/

variable {host next last : Host}

/-- The servers that are open were so before. -/
def Succeeds (host next : Host) : Prop :=
  ∀ (index : ℕ) (peer : Peer), next.peers[index]? = some peer → peer.role = .streamServer →
    peer.live = true → ∃ before, host.peers[index]? = some before ∧ before.role = .streamServer ∧
      before.live = true

namespace Succeeds

theorem of_peers (h : next.peers = host.peers) : Succeeds host next := by
  intro index peer hpeer hrole hlive
  rw [h] at hpeer
  exact ⟨peer, hpeer, hrole, hlive⟩

theorem trans (h : Succeeds host next) (h' : Succeeds next last) : Succeeds host last := by
  intro index peer hpeer hrole hlive
  obtain ⟨middle, hmid, hrole', hlive'⟩ := h' index peer hpeer hrole hlive
  exact h index middle hmid hrole' hlive'

theorem of_core (h : next.core = host.core) : Succeeds host next := by
  intro index peer hpeer hrole hlive
  obtain ⟨before, hbefore, heq⟩ := exists_of_core h hpeer
  rw [heq] at hrole hlive
  exact ⟨before, hbefore, hrole, hlive⟩

/-- The channels do not matter. -/
theorem of_below {below : State} (h : next.core = Host.core { host with transport := below }) :
    Succeeds host next := @of_core { host with transport := below } next h

theorem modifyPeer (host : Host) (index : ℕ) {f : Peer → Peer}
    (hf : ∀ peer, (f peer).role = peer.role ∧ ((f peer).live = true → peer.live = true)) :
    Succeeds host (host.modifyPeer index f) := by
  intro other peer hpeer hrole hlive
  rw [getElem?_modifyPeer] at hpeer
  obtain ⟨before, hbefore, rfl⟩ := Option.map_eq_some_iff.mp hpeer
  refine ⟨before, hbefore, ?_⟩
  split_ifs at hrole hlive
  · exact ⟨(hf before).1.symm.trans hrole, (hf before).2 hlive⟩
  · exact ⟨hrole, hlive⟩

theorem accept (host : Host) (now index : ℕ) : Succeeds host (host.accept now index) := by
  refine trans ?_ (of_core (core_addEvent _ now (.accept index)))
  refine Succeeds.modifyPeer { host with accepts := host.accepts ++ [index] } index fun peer => ?_
  rw [Peer.use_eq]
  exact ⟨rfl, id⟩

end Succeeds

variable {role : Role} {fd index : ℕ} {timeouts : Timeouts} {peer : Peer}

/-- A new channel is behind the others. -/
theorem getElem?_of_add {server : Option ℕ} (hadd : add role server fd timeouts host = some next)
    (hpeer : next.peers[index]? = some peer) :
    host.peers[index]? = some peer ∨ index = host.peers.length ∧ peer.role = role := by
  obtain ⟨below, -, -, rfl⟩ := add_cases hadd
  rw [peers_register] at hpeer
  refine (getElem?_concat_eq_some.mp hpeer).imp_right ?_
  rintro ⟨hidx, rfl⟩
  exact ⟨hidx, rfl⟩

/-- A peer that is destroyed keeps its class. -/
theorem destroy_use (references : ℕ) (peer : Peer) :
    (Peer.destroy references peer.use).role = peer.role ∧
      (Peer.destroy references peer.use).live = peer.live := by
  rw [Peer.use_eq]
  exact ⟨rfl, rfl⟩

/-- Servers come from the factory alone. -/
theorem Succeeds.add {server : Option ℕ}
    (hadd : Host.add role server fd timeouts host = some next) (hsrv : role ≠ .streamServer) :
    Succeeds host next := by
  intro index peer hpeer hrole hlive
  rcases getElem?_of_add hadd hpeer with hbefore | ⟨-, hnew⟩
  · exact ⟨peer, hbefore, hrole, hlive⟩
  · exact absurd (hnew.symm.trans hrole) hsrv

theorem Succeeds.leave (host : Host) (peer : Peer) (index : ℕ) {f : Peer → Peer}
    (hf : ∀ peer, (f peer).role = peer.role ∧ ((f peer).live = true → peer.live = true)) :
    Succeeds host ((host.leave peer).modifyPeer index f) :=
  trans (of_peers (peers_leave peer host)) (Succeeds.modifyPeer _ index hf)

theorem Sane.succeeds_accepted {position : ℕ} {result : ℤ} {acceptor : Option Bool} {armed : Bool}
    {free : ℕ → ℕ} {now : ℕ} (h : Sane host)
    (hstep : host.accepted position result acceptor armed free now = some next) :
    Succeeds host next := by
  obtain ⟨server, -, hfresh, hcases⟩ := accepted_cases hstep
  have hretired : Succeeds host (host.retireAccept position server result) := .of_peers rfl
  rcases hcases with rfl | ⟨index, channel, taken, hroute, hchan, hclosing, htakes, rfl⟩
  · exact hretired
  have htaken : Succeeds host taken := by
    cases htakes with
    | error => exact hretired
    | connection _ _ hadd => exact hretired.trans (.add hadd nofun)
    | closes hpos _ hadd hact =>
      obtain ⟨fd, hfd⟩ := registered_of_route hroute
      obtain ⟨peer, hpeer, hkind⟩ := h.registered .server fd index hfd
      have hlive := h.live_server hchan hpeer hkind hclosing
      obtain ⟨hadded, hfound⟩ := (h.retireAccept position server result).addConnection hpeer
        (h.given_retireAccept hpos (hfresh hpos) position server) hadd
      obtain ⟨below, -, hcore, -⟩ := hadded.closeServer hfound hkind hlive hact
      exact (hretired.trans (.add hadd nofun)).trans (.of_below hcore)
  split
  · exact htaken.trans (.accept taken now index)
  · exact htaken

/-- No step but that of a factory opens a server. -/
theorem Sane.succeeds {action : HostAction} (h : Sane host) (hfirst : ConnectsFirst host action)
    (hopens : ∀ role fd timeouts armed now, action ≠ .openChannel role fd timeouts armed now)
    (hstep : host.step action = some next) : Succeeds host next := by
  cases action with
  | openChannel role fd timeouts armed now => exact absurd rfl (hopens role fd timeouts armed now)
  | act action free now =>
    obtain ⟨hpermits, hcases⟩ := step_act hstep
    rcases hcases with hact | ⟨index, after, rfl, hafter, rfl⟩
    · obtain ⟨below, -, hcore, -⟩ := h.act_of_connectsFirst hpermits hfirst hact
      exact .of_below hcore
    · obtain ⟨below, hbelow, hcore, hsane⟩ := h.act_of_connectsFirst hpermits hfirst hafter
      exact .of_below ((core_timeout hbelow hcore hsane free).trans hcore)
  | complete position result free =>
    obtain ⟨submission, channel, below, -, -, hcore, -⟩ := h.complete hfirst hstep
    have hnotify := Succeeds.modifyPeer { host with transport := below } submission.call.channel
      (f := Peer.notify channel submission result) fun peer => ⟨rfl, id⟩
    exact hnotify.trans (.of_core hcore)
  | accepted position result acceptor armed free now => exact h.succeeds_accepted hstep
  | finish index =>
    obtain ⟨channel, peer, -, -, -, -, hcases⟩ := finish_cases hstep
    rcases hcases with ⟨-, rfl⟩ | ⟨-, rfl⟩
    · refine .leave host peer index fun found => ?_
      obtain ⟨hrole, hlive⟩ := destroy_use (host.references index) { found with finished := true }
      refine ⟨hrole, fun hyes => ?_⟩
      rw [hlive] at hyes
      cases hyes
    · refine .leave host peer index fun peer => ⟨rfl, fun hlive => ?_⟩
      cases hlive
  | report index =>
    obtain ⟨peer, -, -, -, -, rfl⟩ := report_cases hstep
    refine .leave host peer index fun found => ?_
    obtain ⟨hrole, hlive⟩ := destroy_use (host.references index) { found with reported := true }
    refine ⟨hrole, fun hyes => ?_⟩
    rw [hlive, Peer.live, Bool.not_true, Bool.and_false] at hyes
    cases hyes
  | checkEventTimeouts now free =>
    obtain rfl := Option.some.inj hstep
    exact .of_core (host.core_checkEventTimeouts now free)

/-- Behind the end of `close` nobody is in a registry. -/
theorem live_of_finish (hstep : host.finish index = some next)
    (hpeer : next.peers[index]? = some peer) : peer.live = false := by
  obtain ⟨channel, before, -, -, -, -, hcases⟩ := finish_cases hstep
  rcases hcases with ⟨-, rfl⟩ | ⟨-, rfl⟩
  · rw [getElem?_modifyPeer] at hpeer
    obtain ⟨found, -, rfl⟩ := Option.map_eq_some_iff.mp hpeer
    rw [if_pos rfl, (destroy_use _ { found with finished := true }).2]
    rfl
  · rw [getElem?_modifyPeer] at hpeer
    obtain ⟨found, -, rfl⟩ := Option.map_eq_some_iff.mp hpeer
    rw [if_pos rfl]
    rfl

/-- A server that is there behind a factory was there before, or is the new one. -/
theorem Sane.server_openChannel {armed : Bool} {now : ℕ} (h : Sane host)
    (hstep : host.openChannel role fd timeouts armed now = some next)
    (hpeer : next.peers[index]? = some peer) (hrole : peer.role = .streamServer)
    (hlive : peer.live = true) :
    (∃ before, host.peers[index]? = some before ∧ before.role = .streamServer ∧
      before.live = true) ∨
      index = host.transport.channels.length ∧ role = .streamServer := by
  obtain ⟨added, -, -, hadd, hcases⟩ := h.opens hstep
  have hadded : Succeeds added next := by
    rcases hcases with ⟨below, -, -, hcore, -⟩ | ⟨-, rfl⟩ | rfl
    · exact .of_below hcore
    · exact .accept added now _
    · exact .of_peers rfl
  obtain ⟨middle, hmid, hmidRole, hmidLive⟩ := hadded index peer hpeer hrole hlive
  rcases getElem?_of_add hadd hmid with hbefore | ⟨hidx, hnew⟩
  · exact .inl ⟨middle, hbefore, hmidRole, hmidLive⟩
  · exact .inr ⟨hidx.trans h.length, hnew.symm.trans hmidRole⟩

end Host

namespace Sockets

def create (capacity : ℕ) : Sockets := ⟨.create capacity, fun _ => none, fun _ => none⟩

/-- Unix clients have a path, and servers may have one; `bind` finds a file of the path, or makes
it. -/
def Bindable (role : Role) (path : Option String) (sockets : Sockets) : Prop :=
  match role, path with
  | .unixStreamClient, some _ => True
  | .streamServer, some path => sockets.files path = none
  | .unixStreamClient, none => False
  | _, path => path = none

instance (role : Role) (path : Option String) (sockets : Sockets) :
    Decidable (sockets.Bindable role path) := by
  unfold Bindable
  split <;> infer_instance

def bind (role : Role) (path : Option String) (index : ℕ) (sockets : Sockets) : Sockets :=
  let sockets := { sockets with sunPaths := Function.update sockets.sunPaths index path }
  match role, path with
  | .streamServer, some path =>
    { sockets with files := Function.update sockets.files path (some index) }
  | _, _ => sockets

/-- `unlink`. -/
def unlink (path : String) (sockets : Sockets) : Sockets :=
  { sockets with files := Function.update sockets.files path none }

/-- `transport_client_destroy` and `transport_server_destroy`. -/
def destroy (index : ℕ) (sockets : Sockets) : Sockets :=
  match sockets.sunPaths index with
  | some path => sockets.unlink path
  | none => sockets

/-- The client or server that a step destroys, if it may be of the family `AF_UNIX`. -/
def destroyed (sockets : Sockets) : HostAction → Option ℕ
  | .finish index => if (sockets.host.peers[index]?).any fun peer =>
      peer.role = .unixStreamClient || peer.role = .streamServer then some index else none
  | .report index => some index
  | _ => none

def step (sockets : Sockets) : SocketsAction → Option Sockets
  | .openChannel role fd timeouts armed now path =>
    if sockets.Bindable role path then
      (sockets.host.openChannel role fd timeouts armed now).map fun host =>
        { sockets with host := host }.bind role path sockets.host.transport.channels.length
    else none
  | .refused path => some (sockets.unlink path)
  | .host (.openChannel ..) => none
  | .host action =>
    (sockets.host.step action).map fun host =>
      match sockets.destroyed action with
      | some index => { sockets with host := host }.destroy index
      | none => { sockets with host := host }

/-! ## What belongs to whom -/

/-- An open server at a path. -/
def Listens (sockets : Sockets) (index : ℕ) (path : String) : Prop :=
  ∃ peer, sockets.host.peers[index]? = some peer ∧ peer.role = .streamServer ∧ peer.live = true ∧
    sockets.sunPaths index = some path

/-- While a server is open, its path leads to it. -/
def Found (sockets : Sockets) : Prop :=
  ∀ index path, sockets.Listens index path → sockets.files path = some index

/-- The descriptor of a channel that is not through. -/
def Owns (sockets : Sockets) (index fd : ℕ) : Prop :=
  ∃ peer, sockets.host.peers[index]? = some peer ∧ peer.live = true ∧ peer.fd = fd

/-- The client that a step tears down; one that got no socket is not among the channels. -/
def tornDown (sockets : Sockets) : SocketsAction → Option ℕ
  | .refused _ => some sockets.host.peers.length
  | .host (.report index) => some index
  | .host (.finish index) =>
    if (sockets.host.peers[index]?).any fun peer => peer.role.kind =
      .client then some index else none
  | _ => none

/-- A client that is torn down closes its own descriptor, goes from the registry where it is,
destroys a native client that is there, and leaves the files of the open servers. -/
structure TakesOwn (before after : Sockets) (index : ℕ) : Prop where
  descriptors : ∀ fd ∈ before.host.descriptors, fd ∈ after.host.descriptors ∨ before.Owns index fd
  registries : ∀ kind fd, after.host.registered kind fd = before.host.registered kind fd ∨
    kind = .client ∧ before.Owns index fd ∧ before.host.registered kind fd = some index
  memory : ∀ peer, before.host.peers[index]? = some peer → peer.destroys = []
  files : ∀ server path, before.Listens server path → after.files path = before.files path

/-- Every client that a step tears down takes what is its own. -/
def TearsOwn (sockets : Sockets) (action : SocketsAction) : Prop :=
  ∀ index next, sockets.tornDown action = some index → sockets.step action = some next →
    TakesOwn sockets next index

/-- No server is open at the path. -/
def Unserved (sockets : Sockets) (path : String) : Prop := ∀ server, ¬sockets.Listens server path

/-- No Unix client is torn down at the path of an open server, and none is closed before its
`connect` fails, nor behind it. -/
def Clear (sockets : Sockets) : SocketsAction → Prop
  | .openChannel .. => True
  | .refused path => sockets.Unserved path
  | .host action => ConnectsFirst sockets.host action ∧
    ∀ index path, sockets.tornDown (.host action) = some index →
      sockets.sunPaths index = some path →
      sockets.Unserved path

variable {sockets next : Sockets}

/-! ## Paths from step to step -/

@[simp]
theorem host_destroy (index : ℕ) (sockets : Sockets) :
    (sockets.destroy index).host = sockets.host := by
  unfold destroy
  split <;> rfl

@[simp]
theorem sunPaths_destroy (index : ℕ) (sockets : Sockets) :
    (sockets.destroy index).sunPaths = sockets.sunPaths := by
  unfold destroy
  split <;> rfl

variable {index : ℕ} {path : String} {action : HostAction}

/-- A file goes with the path of what is destroyed. -/
theorem files_destroy (h : ∀ own, sockets.sunPaths index = some own → path ≠ own) :
    (sockets.destroy index).files path = sockets.files path := by
  unfold destroy
  split
  · rename_i own hown
    exact Function.update_of_ne (h own hown) _ _
  · rfl

/-- A step of the host. -/
theorem step_host (h : sockets.step (.host action) = some next) :
    (∀ role fd timeouts armed now, action ≠ .openChannel role fd timeouts armed now) ∧
      ∃ host, sockets.host.step action = some host ∧ next.host = host ∧
        next.sunPaths = sockets.sunPaths ∧
        next.files = match sockets.destroyed action with
          | some index => (sockets.destroy index).files
          | none => sockets.files := by
  have hopens : ∀ role fd timeouts armed now, action ≠ .openChannel role fd timeouts armed now := by
    rintro role fd timeouts armed now rfl
    cases h
  have hmap : sockets.step (.host action) = (sockets.host.step action).map fun host =>
      match sockets.destroyed action with
      | some index => { sockets with host := host }.destroy index
      | none => { sockets with host := host } := by
    cases action with
    | openChannel role fd timeouts armed now => exact absurd rfl (hopens role fd timeouts armed now)
    | _ => rfl
  rw [hmap] at h
  obtain ⟨host, hhost, rfl⟩ := Option.map_eq_some_iff.mp h
  refine ⟨hopens, host, hhost, ?_⟩
  cases sockets.destroyed action with
  | none => exact ⟨rfl, rfl, rfl⟩
  | some index =>
    refine ⟨host_destroy _ _, sunPaths_destroy _ _, ?_⟩
    dsimp only
    unfold destroy
    dsimp only
    split <;> rfl

/-- Who listens was listening. -/
theorem Listens.before (hsucc : Succeeds sockets.host next.host)
    (hpaths : next.sunPaths = sockets.sunPaths) (h : next.Listens index path) :
    sockets.Listens index path := by
  obtain ⟨peer, hpeer, hrole, hlive, hpath⟩ := h
  obtain ⟨before, hbefore, hrole', hlive'⟩ := hsucc index peer hpeer hrole hlive
  rw [hpaths] at hpath
  exact ⟨before, hbefore, hrole', hlive', hpath⟩

@[simp]
theorem host_bind (role : Role) (path : Option String) (index : ℕ) (sockets : Sockets) :
    (sockets.bind role path index).host = sockets.host := by
  unfold bind
  dsimp only
  split <;> rfl

@[simp]
theorem sunPaths_bind (role : Role) (path : Option String) (index : ℕ) (sockets : Sockets) :
    (sockets.bind role path index).sunPaths = Function.update sockets.sunPaths index path := by
  unfold bind
  dsimp only
  split <;> rfl

/-- A server gets a file that was not there; the others are as they were. -/
theorem files_bind {role : Role} {path : Option String} (h : sockets.Bindable role path) (index : ℕ)
    {other : String} {server : ℕ} (hother : sockets.files other = some server) :
    (sockets.bind role path index).files other = some server := by
  unfold bind
  dsimp only
  split
  · rename_i own
    refine (Function.update_of_ne ?_ _ _).trans hother
    rintro rfl
    rw [show sockets.files other = none from h] at hother
    cases hother
  · exact hother

theorem Found.openChannel {role : Role} {fd : ℕ} {timeouts : Timeouts} {armed : Bool} {now : ℕ}
    {path : Option String} (h : sockets.Found) (hsane : Sane sockets.host)
    (hstep : sockets.step (.openChannel role fd timeouts armed now path) = some next) :
    next.Found ∧ Sane next.host := by
  unfold step at hstep
  dsimp only at hstep
  split_ifs at hstep with hbindable
  obtain ⟨host, hhost, rfl⟩ := Option.map_eq_some_iff.mp hstep
  refine ⟨fun index other hlistens => ?_, ?_⟩
  · obtain ⟨peer, hpeer, hrole, hlive, hpath⟩ := hlistens
    rw [host_bind] at hpeer
    rw [sunPaths_bind] at hpath
    rcases hsane.server_openChannel hhost hpeer hrole hlive with ⟨before, hbefore, hlistens⟩ |
      ⟨rfl, rfl⟩
    · have hlt := (List.getElem?_eq_some_iff.mp hbefore).1
      rw [hsane.length] at hlt
      rw [Function.update_of_ne hlt.ne] at hpath
      exact @files_bind { sockets with host := host } _ _ hbindable _ _ _
        (h index other ⟨before, hbefore, hlistens.1, hlistens.2, hpath⟩)
    · rw [Function.update_self] at hpath
      subst hpath
      exact Function.update_self ..
  · rw [host_bind]
    exact hsane.openChannel hhost

theorem Found.refused (h : sockets.Found) (hunserved : sockets.Unserved path) :
    (sockets.unlink path).Found := by
  intro index other hlistens
  have hbefore : sockets.Listens index other := hlistens
  have hne : other ≠ path := by
    rintro rfl
    exact hunserved index hbefore
  exact (Function.update_of_ne hne _ _).trans (h index other hbefore)

theorem Found.host (h : sockets.Found) (hsane : Sane sockets.host)
    (hclear : sockets.Clear (.host action)) (hstep : sockets.step (.host action) = some next) :
    next.Found ∧ Sane next.host := by
  obtain ⟨hopens, host, hhost, rfl, hpaths, hfiles⟩ := step_host hstep
  have hsucc := hsane.succeeds hclear.1 hopens hhost
  refine ⟨fun index path hlistens => ?_, hsane.step hclear.1 hhost⟩
  have hbefore := hlistens.before hsucc hpaths
  rw [hfiles, ← h index path hbefore]
  split
  · rename_i gone hgone
    refine files_destroy fun own hown heq => ?_
    subst heq
    -- What is destroyed is a client, whose path is nobody's, or the server itself.
    cases action with
    | finish closed =>
      unfold destroyed at hgone
      dsimp only at hgone
      split_ifs at hgone with hfamily
      obtain rfl := Option.some.inj hgone
      obtain ⟨channel, peer, hchan, hpeer, hstage, hfin, -⟩ := finish_cases hhost
      rw [hpeer, Option.any_some, Bool.or_eq_true, decide_eq_true_eq, decide_eq_true_eq] at hfamily
      rcases hfamily with hrole | hrole
      · have htorn : sockets.tornDown (.host (.finish closed)) = some closed := by
          unfold tornDown
          dsimp only
          rw [hpeer, Option.any_some, hrole]
          rfl
        exact hclear.2 closed path htorn hown index hbefore
      · have hlive := hsane.live_of_closed hchan hpeer hstage hfin
        have hself := h closed path ⟨peer, hpeer, hrole, hlive, hown⟩
        obtain rfl := Option.some.inj (hself.symm.trans (h index path hbefore))
        obtain ⟨after, hafter, -, hlive', -⟩ := hlistens
        rw [live_of_finish hhost hafter] at hlive'
        cases hlive'
    | report failed =>
      obtain rfl := Option.some.inj hgone
      exact hclear.2 failed path rfl hown index hbefore
    | _ => cases hgone
  · rfl

theorem Clear.step {action : SocketsAction} (hclear : sockets.Clear action) (hfound : sockets.Found)
    (hsane : Sane sockets.host) (hstep : sockets.step action = some next) :
    next.Found ∧ Sane next.host := by
  cases action with
  | openChannel role fd timeouts armed now path => exact hfound.openChannel hsane hstep
  | refused path =>
    obtain rfl := Option.some.inj hstep
    exact ⟨hfound.refused hclear, hsane⟩
  | host action => exact hfound.host hsane hclear hstep

/-! ## What a client that is torn down takes -/

/-- A client leaves with its descriptor and its entry. -/
theorem takesOwn_leave (hsane : Sane sockets.host) {peer : Peer} {f : Peer → Peer}
    (hpeer : sockets.host.peers[index]? = some peer) (hkind : peer.role.kind = .client)
    (hlive : peer.live = true) (hhost : next.host = (sockets.host.leave peer).modifyPeer index f)
    (hfiles : ∀ server path, sockets.Listens server path → next.files path = sockets.files path) :
    TakesOwn sockets next index := by
  obtain ⟨channel, -, hholds⟩ := hsane.channel hpeer
  have howns : sockets.Owns index peer.fd := ⟨peer, hpeer, hlive, rfl⟩
  refine ⟨fun fd hfd => ?_, fun kind fd => ?_, fun found hfound => ?_, hfiles⟩
  · by_cases hown : fd = peer.fd
    · exact .inr (hown ▸ howns)
    · refine .inl ?_
      rw [hhost]
      have herase : ((sockets.host.leave peer).modifyPeer index f).descriptors =
          sockets.host.descriptors.erase peer.fd := by
        unfold Host.leave
        exact descriptors_unregister ..
      rw [herase]
      exact (List.mem_erase_of_ne hown).mpr hfd
  · rw [hhost]
    have hsame : ((sockets.host.leave peer).modifyPeer index f).registered kind fd =
        (sockets.host.leave peer).registered kind fd := by
      cases kind <;> rfl
    rw [hsame]
    by_cases hown : fd = peer.fd
    · subst hown
      by_cases hclient : kind = .client
      · subst hclient
        have hreg := hholds.registered hlive
        rw [hkind] at hreg
        exact .inr ⟨rfl, howns, hreg⟩
      · refine .inl ?_
        unfold Host.leave
        rw [hkind]
        cases kind with
        | client => exact absurd rfl hclient
        | _ => rfl
    · exact .inl (registered_unregister_of_ne _ _ _ hown kind)
  · obtain rfl := Option.some.inj (hpeer.symm.trans hfound)
    exact hholds.intact hlive

/-- What is destroyed is what is torn down. -/
theorem destroyed_eq {gone : ℕ} (htorn : sockets.tornDown (.host action) = some index)
    (hgone : sockets.destroyed action = some gone) : gone = index := by
  cases action with
  | finish closed =>
    unfold tornDown at htorn
    unfold destroyed at hgone
    dsimp only at htorn hgone
    split_ifs at htorn hgone
    exact (Option.some.inj hgone).symm.trans (Option.some.inj htorn)
  | report failed => exact (Option.some.inj hgone).symm.trans (Option.some.inj htorn)
  | _ => cases htorn

theorem Clear.tearsOwn {action : SocketsAction} (hclear : sockets.Clear action)
    (hsane : Sane sockets.host) : sockets.TearsOwn action := by
  intro index next htorn hstep
  cases action with
  | openChannel => cases htorn
  | refused path =>
    obtain rfl := Option.some.inj htorn
    obtain rfl := Option.some.inj hstep
    refine ⟨fun _ hfd => .inl hfd, fun _ _ => .inl rfl, fun peer hpeer => ?_,
      fun server other hlistens => ?_⟩
    · rw [List.getElem?_eq_none le_rfl] at hpeer
      cases hpeer
    · refine Function.update_of_ne ?_ _ _
      rintro rfl
      exact hclear server hlistens
  | host action =>
    obtain ⟨-, host, hhost, hnext, -, hfiles⟩ := step_host hstep
    -- Its path is nobody's.
    have hkept : ∀ server path, sockets.Listens server path →
        next.files path = sockets.files path := by
      intro server path hlistens
      rw [hfiles]
      split
      · rename_i gone hgone
        refine files_destroy fun own hown heq => ?_
        subst heq
        obtain rfl := destroyed_eq htorn hgone
        exact hclear.2 gone path htorn hown server hlistens
      · rfl
    cases action with
    | finish closed =>
      unfold tornDown at htorn
      dsimp only at htorn
      split_ifs at htorn with hclient
      obtain rfl := Option.some.inj htorn
      obtain ⟨channel, peer, hchan, hpeer, hstage, hfin, hcases⟩ := finish_cases hhost
      rw [hpeer, Option.any_some, decide_eq_true_eq] at hclient
      have hlive := hsane.live_of_closed hchan hpeer hstage hfin
      rcases hcases with ⟨-, hleave⟩ | ⟨-, hleave⟩
      · exact takesOwn_leave hsane hpeer hclient hlive (hnext.trans hleave) hkept
      · exact takesOwn_leave hsane hpeer hclient hlive (hnext.trans hleave) hkept
    | report failed =>
      obtain rfl := Option.some.inj htorn
      obtain ⟨peer, hpeer, hrole, hrefused, hreported, hleave⟩ := report_cases hhost
      obtain ⟨channel, hchan, -⟩ := hsane.channel hpeer
      have hlive := hsane.live_of_refused hchan hpeer hrole hrefused hreported
      have hkind : peer.role.kind = .client := by rw [hrole]; rfl
      exact takesOwn_leave hsane hpeer hkind hlive (hnext.trans hleave) hkept
    | _ => cases htorn

/-- In every run in which no Unix client is torn down at the path of an open server, and none is
closed before its `connect` fails, nor behind it: a client that is torn down takes what is its own,
and every open server is found. -/
theorem teardown_of_clear (capacity : ℕ) (actions : List SocketsAction)
    (halong : Along step Clear (create capacity) actions)
    (hrun : run step (create capacity) actions = some sockets) :
    Along step TearsOwn (create capacity) actions ∧ sockets.Found := by
  have hstart : (create capacity).Found ∧ Sane (create capacity).host := by
    refine ⟨fun index path hlistens => ?_, sane_create capacity⟩
    obtain ⟨peer, hpeer, -⟩ := hlistens
    cases hpeer
  constructor
  · exact halong.of_invariant (fun sockets => sockets.Found ∧ Sane sockets.host)
      (fun _ _ _ hinv hclear hstep => hclear.step hinv.1 hinv.2 hstep)
      (fun _ _ hinv hclear => hclear.tearsOwn hinv.2) hstart
  · exact (run_induction (fun _ sockets => sockets.Found ∧ Sane sockets.host)
      (fun _ _ _ _ hinv hclear hstep => hclear.step hinv.1 hinv.2 hstep) hstart halong hrun).1

/-- A client whose `connect` finds no server, next to an open server at another path. -/
theorem teardown_of_clear_refused : ∃ sockets actions,
    run step (create 1) actions = some sockets ∧ sockets.Listens 0 "t" ∧
      Along step TearsOwn (create 1) actions ∧ sockets.Found := by
  have hrun : run step (create 1) [.openChannel .streamServer 5 ⟨-1, none, none⟩ true 0 (some "t"),
      .openChannel .unixStreamClient 6 ⟨-1, none, none⟩ true 0 (some "s"),
      .host (.complete 0 (-111) fun _ => 0), .host (.report 1)] = some _ := rfl
  refine ⟨_, _, hrun, ⟨_, rfl, rfl, rfl, rfl⟩, teardown_of_clear 1 _ ?_ hrun⟩
  refine (along_cons_of_step rfl).mpr ⟨trivial, (along_cons_of_step rfl).mpr ⟨trivial, ?_⟩⟩
  refine (along_cons_of_step rfl).mpr ⟨⟨?_, nofun⟩,
    (along_cons_of_step rfl).mpr ⟨⟨trivial, ?_⟩, trivial⟩⟩
  · intro submission channel peer hsubmission _ hchannel _ _ hclosing
    obtain rfl := Option.some.inj hsubmission
    obtain rfl := Option.some.inj hchannel
    cases hclosing
  · rintro index path htorn hpath server ⟨peer, hpeer, hrole, -, hlistens⟩
    obtain rfl := Option.some.inj htorn
    obtain rfl := Option.some.inj hpath
    have hserver := (congrArg (Option.map Peer.role) hpeer).trans (congrArg some hrole)
    clear hpeer hrole
    rcases server with _ | _ | server
    · exact absurd (Option.some.inj hlistens) (by decide)
    · exact absurd hserver (by decide)
    · cases hserver

/-- A client that is connected, and is closed: its server is not found any more. -/
theorem not_teardown : ¬∀ (capacity : ℕ) (actions : List SocketsAction) (sockets : Sockets),
    run step (create capacity) actions = some sockets →
      Along step TearsOwn (create capacity) actions ∧ sockets.Found := by
  intro h
  have hrun : run step (create 1)
      [.openChannel .streamServer 5 ⟨-1, none, none⟩ true 0 (some "s"),
        .openChannel .unixStreamClient 6 ⟨-1, none, none⟩ true 0 (some "s"),
        .host (.complete 0 0 fun _ => 0), .host (.act (.close 1 false) (fun _ => 0) 0),
        .host (.finish 1)] = some _ := rfl
  have hfound := (h 1 _ _ hrun).2 0 "s" ⟨_, rfl, rfl, rfl, rfl⟩
  cases hfound

end Sockets

end FengShui.Transport
