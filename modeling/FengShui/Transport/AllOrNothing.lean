import FengShui.Transport.PoolInvariants

/-!
# Pools are all or nothing, where they are swept (`transport/client/factory.dart`)

A pool completes when all its clients are connected. When it fails, the tcp factory leaves its
clients to themselves, and the unix stream factory cleans up behind the connects that failed, but
not behind the others; a client that is closed meanwhile is cleaned up at the end of that. So
nothing is left of a failed pool just where every client is cleaned up by the one or by the other
(`allOrNothing_iff`).
-/

namespace FengShui.Transport.Pool

open FengShui.Transition

/-- The future completes with so many connected clients. -/
def Completes (size : ℕ) (pool : Pool) : Prop :=
  pool.thrown = none ∧ pool.clients.length = size ∧
    ∀ client ∈ pool.clients, client.connector = some true

/-- The future fails. -/
def Fails (pool : Pool) : Prop :=
  pool.thrown ≠ none ∨ ∃ client ∈ pool.clients, client.refused = true

/-- Nothing is left of the pool: no client is registered, what was opened is closed once and nothing
else is, and the native clients are freed once. -/
structure Cleaned (pool : Pool) : Prop where
  unregistered : ∀ fd, pool.registry.get? fd = none
  closed : ∀ fd, closings fd pool.trace = (opened pool.trace).count fd
  destroyed : ∀ client ∈ pool.clients, client.destroys = 1
  freed : frees pool.trace = pool.natives

def AllOrNothing (size : ℕ) (pool : Pool) : Prop :=
  pool.Completes size ∨ pool.Fails ∧ pool.Cleaned

/-- All connects have completed, and what follows from that has run: the `onError` of the factory
and the `close` functions that do not throw. -/
structure Settled (pool : Pool) : Prop where
  connected : ∀ client ∈ pool.clients, client.connecting = false
  reported : pool.kind = .unixStream →
    ∀ client ∈ pool.clients, client.refused = true → client.reported = true
  finished : ∀ client ∈ pool.clients, client.channel.closing = true →
    client.finished = true ∨ client.failed = true

/-- No option is refused, or where it is nothing is lost by that, and those clients are closed that
the factory does not clean up, and they only. The flags are what was recorded of the answers to the
options (`lost`), of the result of a connect (`refused`) and of the call of `close` (`closing`,
`failed`). -/
structure Swept (pool : Pool) : Prop where
  options : ∀ traced ∈ pool.trace, traced.lost = false
  closes : ∀ client ∈ pool.clients, client.channel.closing = true ∧ client.failed = false ↔
    ¬(pool.kind = .unixStream ∧ client.refused = true)

variable {pool : Pool}

/-- Every client cleans up for one descriptor, where each was cleaned up once. -/
theorem sum_closings (h : ∀ client ∈ pool.clients, client.destroys = 1) (fd : ℤ) :
    (pool.clients.map (PoolClient.closings fd)).sum =
      (pool.clients.map PoolClient.fd).count fd := by
  generalize pool.clients = clients at h
  induction clients with
  | nil => rfl
  | cons client clients ih =>
    obtain ⟨hclient, hclients⟩ := List.forall_mem_cons.mp h
    rw [List.map_cons, List.map_cons, List.sum_cons, List.count_cons, ih hclients,
      PoolClient.closings, hclient, Nat.add_comm]
    by_cases hsame : client.fd = fd
    · rw [if_pos hsame, if_pos (beq_iff_eq.mpr hsame)]
    · rw [if_neg hsame, if_neg fun h => hsame (beq_iff_eq.mp h)]

theorem sum_destroys (h : ∀ client ∈ pool.clients, client.destroys = 1) :
    (pool.clients.map PoolClient.destroys).sum = pool.clients.length := by
  rw [List.map_congr_left h, List.map_const', List.sum_replicate_nat, Nat.mul_one]

/-- What was cleaned up had its descriptors. -/
theorem Opened.options (h : pool.Opened) (hcleaned : pool.Cleaned) :
    ∀ traced ∈ pool.trace, traced.lost = false := by
  have hcount (fd : ℤ) :
      (opened pool.trace).count fd = (pool.clients.map PoolClient.fd).count fd := by
    rw [← hcleaned.closed, h.sound.closings, sum_closings hcleaned.destroyed]
  rcases h.matched with hmatched | ⟨-, hlost⟩
  · exact hmatched.2
  · have hperm : (opened pool.trace).Perm (pool.clients.map PoolClient.fd) :=
      List.perm_iff_count.mpr hcount
    have hlen := hperm.length_eq
    have hzero := hcount 0
    rw [List.length_map] at hlen
    omega

/-- Nothing is left of a settled pool just where it was swept. -/
theorem Opened.cleaned_iff (h : pool.Opened) (hsettled : pool.Settled) :
    pool.Cleaned ↔ pool.Swept := by
  constructor
  · intro hcleaned
    refine ⟨h.options hcleaned, fun client hclient => ?_⟩
    have hsound := h.sound.clients client hclient
    -- A client is destroyed once for each of the two ways.
    have hone := hsound.destroys.symm.trans (hcleaned.destroyed client hclient)
    constructor
    · rintro ⟨hclosing, hfailed⟩ ⟨hkind, hrefused⟩
      have hreported := hsettled.reported hkind client hclient hrefused
      have hfin := (hsettled.finished client hclient hclosing).resolve_right
        (by rw [hfailed]; exact Bool.false_ne_true)
      rw [hreported, hfin] at hone
      cases hone
    · intro hnot
      have hreported : client.reported = false :=
        Bool.eq_false_iff.mpr fun hreported => hnot (hsound.reported hreported)
      have hfin : client.finished = true := by
        rw [hreported] at hone
        by_contra hfin
        rw [Bool.not_eq_true] at hfin
        rw [hfin] at hone
        cases hone
      have hclosed := hsound.finished hfin
      exact ⟨hsound.closing (by rw [hclosed]; exact nofun), hsound.closed hclosed⟩
  · intro hswept
    have hdestr : ∀ client ∈ pool.clients, client.destroys = 1 := by
      intro client hclient
      have hsound := h.sound.clients client hclient
      have hcloses := hswept.closes client hclient
      rw [hsound.destroys]
      by_cases hrefused : pool.kind = .unixStream ∧ client.refused = true
      · have hreported := hsettled.reported hrefused.1 client hclient hrefused.2
        have hfin : client.finished = false := by
          refine Bool.eq_false_iff.mpr fun hfin => ?_
          have hclosed := hsound.finished hfin
          exact hcloses.mp ⟨hsound.closing (by rw [hclosed]; exact nofun),
            hsound.closed hclosed⟩ hrefused
        rw [hreported, hfin]
        rfl
      · obtain ⟨hclosing, hfailed⟩ := hcloses.mpr hrefused
        have hreported : client.reported = false :=
          Bool.eq_false_iff.mpr fun hreported => hrefused (hsound.reported hreported)
        have hfin := (hsettled.finished client hclient hclosing).resolve_right
          (by rw [hfailed]; exact Bool.false_ne_true)
        rw [hreported, hfin]
        rfl
    refine ⟨fun fd => ?_, fun fd => ?_, hdestr, ?_⟩
    · by_contra hent
      obtain ⟨index, hget⟩ := Option.ne_none_iff_exists'.mp hent
      obtain ⟨client, hclient, -, hfin, hreported⟩ := h.sound.registered fd index hget
      have hmem := List.mem_of_getElem? hclient
      have hzero := (h.sound.clients client hmem).destroys
      rw [hfin, hreported, hdestr client hmem] at hzero
      cases hzero
    -- No option was refused, so that no descriptor is lost.
    · have hmatched : pool.Matched := h.matched.resolve_right fun hlost => by
        obtain ⟨⟨traced, htr, hlost⟩, -⟩ := hlost
        rw [hswept.options traced htr] at hlost
        cases hlost
      rw [h.sound.closings, sum_closings hdestr, hmatched.1]
    · have hfrees := h.sound.frees
      rw [sum_destroys hdestr] at hfrees
      omega

/-- A pool is all or nothing just where all its clients connect, or where it fails and those clients
are closed meanwhile that the factory does not clean up, and no descriptor was lost in its loop. -/
theorem allOrNothing_iff (kernel : Kernel) (configuration : SocketConfiguration)
    (connectTimeout : Option ℤ) (kind : PoolKind) (size : ℕ) (actions : List PoolAction)
    {pool : Pool}
    (hrun : run step (create kernel configuration connectTimeout kind size) actions = some pool)
    (hsettled : pool.Settled) :
    pool.AllOrNothing size ↔ pool.Completes size ∨ pool.Fails ∧ pool.Swept :=
  or_congr_right (and_congr_right fun _ => (opened_of_run hrun).cleaned_iff hsettled)

/-- A unix stream pool of which both connects fail, in the other order. -/
theorem allOrNothing_iff_refused :
    ∃ pool, run step (create (.refusing fun _ => false) (.ofFlags 0) (some 60) .unixStream 2)
      [.connected 1 (-111), .report 1, .connected 0 (-111), .report 0] = some pool ∧
        pool.AllOrNothing 2 := by
  refine ⟨_, rfl, (allOrNothing_iff (.refusing fun _ => false) (.ofFlags 0) (some 60) .unixStream 2
    [.connected 1 (-111), .report 1, .connected 0 (-111), .report 0] rfl ⟨?_, ?_, ?_⟩).mpr
    (.inr ⟨.inr ?_, ?_, ?_⟩)⟩
  · decide
  · exact fun _ => by decide
  · decide
  · decide
  · decide
  · decide

/-- A tcp pool of which one connect fails: the other client stays connected, and both stay in the
registry. -/
theorem not_allOrNothing : ¬∀ (kernel : Kernel) (configuration : SocketConfiguration)
    (connectTimeout : Option ℤ) (kind : PoolKind) (size : ℕ) (actions : List PoolAction)
    (pool : Pool),
    run step (create kernel configuration connectTimeout kind size) actions = some pool →
      pool.Settled → pool.AllOrNothing size := by
  intro h
  rcases h (.refusing fun _ => false) (.ofFlags 0) (some 60) .tcp 2
    [.connected 0 0, .connected 1 (-111)] _ rfl
    ⟨by decide, nofun, by decide⟩ with ⟨-, -, hconnected⟩ | ⟨-, hcleaned⟩
  · exact absurd hconnected (by decide)
  · exact absurd (hcleaned.unregistered 3) (by decide)

end FengShui.Transport.Pool
