import FengShui.Transport.Host
import FengShui.Transport.Lifetimes

/-!
# What the native functions touch

Behind the table of events, the cancels and the errors that `close` throws there is a core, which
decides about the lives of the channels (`Host.core`). The native functions that add, remove and
cancel leave it as it is, so a step of the transport with its native calls is that step.
-/

namespace FengShui.Transport

open State

namespace Peer

/-- A peer without what a cancel answered. -/
def settle (peer : Peer) : Peer := { peer with failed := false }

theorem use_of_destroys {peer : Peer} (h : peer.destroys = []) : peer.use = peer := if_pos h

end Peer

namespace Host

/-- What decides about the lives of the channels. -/
def core (host : Host) : Host :=
  { host with peers := host.peers.map Peer.settle, events := none, canceled := [] }

/-- The native pointer of a channel is not destroyed. -/
def Intact (index : ℕ) (host : Host) : Prop :=
  ∀ peer, host.peers[index]? = some peer → peer.destroys = []

section Core

variable {host other : Host}

theorem getElem?_core (h : other.core = host.core) (index : ℕ) :
    other.peers[index]?.map Peer.settle = host.peers[index]?.map Peer.settle := by
  have hpeers : other.peers.map Peer.settle = host.peers.map Peer.settle := congrArg Host.peers h
  rw [← List.getElem?_map, ← List.getElem?_map, hpeers]

/-- The peer of before. -/
theorem exists_of_core (h : other.core = host.core) {index : ℕ} {peer : Peer}
    (hpeer : other.peers[index]? = some peer) :
    ∃ before, host.peers[index]? = some before ∧ peer = { before with failed := peer.failed } := by
  have hmap := getElem?_core h index
  rw [hpeer] at hmap
  obtain ⟨before, hbefore, heq⟩ := Option.map_eq_some_iff.mp hmap.symm
  refine ⟨before, hbefore, ?_⟩
  calc peer = { peer.settle with failed := peer.failed } := rfl
    _ = { before.settle with failed := peer.failed } := by rw [heq]
    _ = { before with failed := peer.failed } := rfl

theorem Intact.core {index : ℕ} (hintact : host.Intact index) (h : other.core = host.core) :
    other.Intact index := by
  intro peer hpeer
  obtain ⟨before, hbefore, heq⟩ := exists_of_core h hpeer
  rw [heq]
  exact hintact before hbefore

end Core

section Modify

variable (host : Host)

theorem getElem?_modifyPeer (index other : ℕ) (f : Peer → Peer) :
    (host.modifyPeer index f).peers[other]? =
      host.peers[other]?.map fun peer => if index = other then f peer else peer :=
  List.getElem?_modify ..

variable {index : ℕ}

theorem getElem?_modifyPeer_self {peer : Peer} (h : host.peers[index]? = some peer)
    (f : Peer → Peer) : (host.modifyPeer index f).peers[index]? = some (f peer) := by
  rw [getElem?_modifyPeer, h, Option.map_some, if_pos rfl]

theorem getElem?_modifyPeer_of_ne {other : ℕ} (h : index ≠ other) (f : Peer → Peer) :
    (host.modifyPeer index f).peers[other]? = host.peers[other]? := by
  rw [getElem?_modifyPeer]
  simp only [if_neg h]
  exact Option.map_id_fun' ▸ rfl

theorem length_modifyPeer (index : ℕ) (f : Peer → Peer) :
    (host.modifyPeer index f).peers.length = host.peers.length := List.length_modify ..

/-- A peer changes only in what a cancel answered. -/
theorem core_modifyPeer {f : Peer → Peer}
    (h : ∀ peer, host.peers[index]? = some peer → (f peer).settle = peer.settle) :
    (host.modifyPeer index f).core = host.core := by
  have hpeers : (host.modifyPeer index f).peers.map Peer.settle = host.peers.map Peer.settle := by
    refine List.ext_getElem? fun other => ?_
    rw [List.getElem?_map, List.getElem?_map, getElem?_modifyPeer, Option.map_map]
    cases hpeer : host.peers[other]? with
    | none => rfl
    | some peer =>
      rw [Option.map_some, Option.map_some]
      dsimp only [Function.comp_apply]
      split
      · rename_i heq
        subst heq
        rw [h peer hpeer]
      · rfl
  unfold core
  rw [hpeers]
  rfl

theorem core_use (h : host.Intact index) : (host.modifyPeer index Peer.use).core = host.core :=
  host.core_modifyPeer fun peer hpeer => by rw [Peer.use_of_destroys (h peer hpeer)]

end Modify

section Native

variable (host : Host)

theorem core_addEvent (now : ℕ) (operation : Operation) :
    (host.addEvent now operation).core = host.core := by
  unfold addEvent
  split <;> rfl

theorem core_cancelByFd (fd free : ℕ) : (host.cancelByFd fd free).2.core = host.core := by
  unfold cancelByFd
  dsimp only
  split <;> rfl

theorem core_checkEventTimeouts (now : ℕ → ℕ) (free : ℕ) :
    (host.checkEventTimeouts now free).core = host.core := by
  unfold checkEventTimeouts
  split <;> rfl

theorem core_submit {submission : Submission} (h : host.Intact submission.call.channel) (now : ℕ) :
    (host.submit now submission).core = host.core := by
  have hadd := host.core_addEvent now (.entry submission)
  have huse := (core_use _ (h.core hadd)).trans hadd
  unfold submit
  cases submission.call.request.event with
  | receiveMessage | sendMessage | connect => exact huse
  | read | write => exact hadd

theorem core_cancel {index : ℕ} (h : host.Intact index) (free : ℕ → ℕ) :
    (host.cancel free index).core = host.core := by
  unfold cancel
  cases host.peers[index]? with
  | none => rfl
  | some peer =>
    have hcancel := host.core_cancelByFd peer.fd (free index)
    have hintact := h.core hcancel
    dsimp only
    cases peer.role.kind with
    | client =>
      refine (core_modifyPeer _ fun peer hpeer => ?_).trans hcancel
      rw [Peer.use_of_destroys (hintact peer hpeer)]
      rfl
    | server => exact (core_use _ hintact).trans hcancel
    | serverConnection | file => exact hcancel

/-- What every element of a fold leaves as it is. -/
theorem core_foldl {α : Type} {f : Host → α → Host} {channel : α → ℕ}
    (hf : ∀ host element, Intact (channel element) host → (f host element).core = host.core)
    (elements : List α) (h : ∀ element ∈ elements, host.Intact (channel element)) :
    (elements.foldl f host).core = host.core := by
  induction elements generalizing host with
  | nil => rfl
  | cons element elements ih =>
    have hfirst := hf host element (h element List.mem_cons_self)
    exact (ih (f host element) fun other hmem =>
      (h other (List.mem_cons_of_mem element hmem)).core hfirst).trans hfirst

end Native

/-- A step of the transport with its native calls, on channels whose pointers are there. -/
theorem act_cases {host next : Host} {action : Action} {free : ℕ → ℕ} {now : ℕ}
    (h : host.act action free now = some next) :
    ∃ below, Transport.step host.transport action = some below ∧
      next = (awaiting host.transport below).foldl (cancel free)
        ((below.requests.drop host.transport.requests.length).foldl (submit now)
          { host with transport := below }) ∧
      ((∀ submission ∈ below.requests.drop host.transport.requests.length,
          host.Intact submission.call.channel) →
        (∀ index ∈ awaiting host.transport below, host.Intact index) →
          next.core = Host.core { host with transport := below }) := by
  obtain ⟨below, hbelow, rfl⟩ := Option.map_eq_some_iff.mp h
  refine ⟨below, hbelow, rfl, fun hsubmits hcancels => ?_⟩
  have hsubmit := core_foldl { host with transport := below }
    (fun host _ hintact => core_submit host hintact now) _ hsubmits
  refine (core_foldl _ (fun host _ hintact => core_cancel host hintact free) _
    fun index hmem => ?_).trans hsubmit
  exact @Intact.core { host with transport := below } _ _ (hcancels index hmem) hsubmit

/-- The timeout of a graceful `close` cancels as well. -/
theorem step_act {host next : Host} {action : Action} {free : ℕ → ℕ} {now : ℕ}
    (h : host.step (.act action free now) = some next) :
    host.permits action = true ∧
      (host.act action free now = some next ∨
        ∃ index after, action = .timeout index ∧ host.act (.timeout index) free now = some after ∧
          next = after.cancel free index) := by
  unfold step at h
  dsimp only at h
  split at h
  · rename_i hpermits
    refine ⟨hpermits, ?_⟩
    cases action with
    | timeout index =>
      obtain ⟨after, hafter, rfl⟩ := Option.map_eq_some_iff.mp h
      exact .inr ⟨index, after, rfl, hafter, rfl⟩
    | _ => exact .inl h
  · cases h

/-- Behind the timeout the channel awaits its `_closer`. -/
theorem timeout_step {state next : State} {index : ℕ}
    (h : Transport.step state (.timeout index) = some next) :
    ∃ channel, next.channels[index]? = some channel ∧ channel.stage = .awaits true := by
  rw [Transport.step] at h
  split at h
  · rename_i channel hchan
    split at h
    · rename_i hstage
      cases h
      exact ⟨_, List.getElem?_set_self (List.getElem?_eq_some_iff.mp hchan).1, hstage⟩
    · cases h
  · cases h

/-- A channel that a step brings to `await _closer.future`. -/
theorem mem_awaiting {before after : State} {index : ℕ} (h : index ∈ awaiting before after) :
    ∃ channel, after.channels[index]? = some channel ∧ channel.stage = .awaits false := by
  obtain ⟨-, hstage⟩ := List.mem_filter.mp h
  rw [decide_eq_true_eq] at hstage
  exact Option.map_eq_some_iff.mp hstage.2

end Host

end FengShui.Transport
