import FengShui.Transport.HostSteps

/-!
# How a client ends (`transport/client/client.dart`, `transport/client/factory.dart`)

The factory of the unix stream clients cleans up behind a `connect` that fails: it closes the
descriptor, takes the client from the registry and destroys the native client. `close` does the same
when its last completion is there, whether or not that was the `connect`, so a client that was
closed while it connected is destroyed twice (`closesOnce_false`). A client that is not closed
before its `connect` fails, nor behind it, ends once (`closesOnce_of_connectsFirst`).
-/

namespace FengShui.Transport.Host

open FengShui.Transition

/-- `_closer` and `_connector` of a client are completed at most once, its native pointer is
destroyed at most once and with nothing in flight, and nobody uses it behind that. -/
def ClosesOnce (host : Host) : Prop :=
  ∀ (index : ℕ) (peer : Peer), host.peers[index]? = some peer → peer.role.kind = .client →
    peer.closers ≤ 1 ∧ peer.connectors ≤ 1 ∧ (peer.destroys = [] ∨ peer.destroys = [0]) ∧
      peer.dangling = 0

theorem Sane.closesOnce {host : Host} (h : Sane host) : ClosesOnce host := by
  intro index peer hpeer hkind
  obtain ⟨channel, -, hholds⟩ := h.channel hpeer
  refine ⟨?_, ?_, ?_, hholds.dangling⟩
  · rw [hholds.closers]
    split
    · exact le_rfl
    · exact Nat.zero_le 1
  · have hle := hholds.connecting
    omega
  · cases hlive : peer.live with
    | true => exact .inl (hholds.intact hlive)
    | false => exact .inr (hholds.destroyed hlive hkind)

/-- In every run in which no unix stream client is closed before its `connect` fails, nor behind it,
every client ends once. -/
theorem closesOnce_of_connectsFirst (capacity : ℕ) (actions : List HostAction) {host : Host}
    (halong : Along step ConnectsFirst (create capacity) actions)
    (hrun : run step (create capacity) actions = some host) : ClosesOnce host :=
  (run_induction (fun _ => Sane) (fun _ _ _ _ hsane hfirst hstep => hsane.step hfirst hstep)
    (sane_create capacity) halong hrun).closesOnce

/-- A client that is connected when it is closed. -/
theorem closesOnce_of_connectsFirst_connected :
    ∃ host, run step (create 1)
      [.openChannel .unixStreamClient 5 ⟨-1, none, none⟩ true 0, .complete 0 0 fun _ => 0,
        .act (.close 0 false) (fun _ => 0) 0, .finish 0] = some host ∧ ClosesOnce host := by
  refine ⟨_, rfl, closesOnce_of_connectsFirst 1
    [.openChannel .unixStreamClient 5 ⟨-1, none, none⟩ true 0, .complete 0 0 fun _ => 0,
      .act (.close 0 false) (fun _ => 0) 0, .finish 0] ?_ rfl⟩
  refine (along_cons_of_step rfl).mpr ⟨trivial, ?_⟩
  refine (along_cons_of_step rfl).mpr ⟨?_, ?_⟩
  · intro submission channel peer hsubmission _ hchannel _ _ hclosing
    cases hsubmission
    cases hchannel
    cases hclosing
  refine (along_cons_of_step rfl).mpr ⟨?_, ?_⟩
  · intro peer hpeer _ hrefused
    cases hpeer
    cases hrefused
  exact (along_cons_of_step rfl).mpr ⟨trivial, trivial⟩

/-- A client that is closed while it connects: its `close` destroys it, and behind the error of its
`connect` its factory does so again. -/
theorem closesOnce_false : ¬∀ host, Reachable step (create 1) host → ClosesOnce host := by
  intro h
  have hclient := h _ ⟨[.openChannel .unixStreamClient 5 ⟨-1, none, none⟩ true 0,
    .act (.close 0 false) (fun _ => 1) 0, .complete 0 (-125) fun _ => 0,
      .act (.closed 0) (fun _ => 0) 0,
    .finish 0, .report 0], rfl⟩
  exact absurd (hclient 0 _ rfl rfl).2.2.1 (by decide)

end FengShui.Transport.Host
