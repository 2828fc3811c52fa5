import FengShui.Transport.FailedInitialization
import FengShui.Transport.Lifetimes
import FengShui.Transport.Pool

/-!
# What a pool has opened and cleaned up

The loop of a pool opens descriptors and has a client for each, unless an option was refused: then a
descriptor is lost (`Opened`). Behind it a client is cleaned up by its factory or at the end of its
`close`, and the trace has as many closings of a descriptor as its clients were cleaned up
(`opened_of_run`).
-/

namespace FengShui.Transport

open FengShui.Transition List

/-- How often the calls have freed a native structure. -/
def frees (trace : List Traced) : ℕ := trace.countP fun traced => traced.call = .destroy

theorem frees_append (front back : List Traced) :
    frees (front ++ back) = frees front + frees back :=
  countP_append

theorem frees_of_asks {calls : List Traced} (h : ∀ traced ∈ calls, traced.asks = true) :
    frees calls = 0 := by
  unfold frees
  rw [countP_eq_zero]
  intro traced htr hfrees
  exact Traced.call_ne_of_asks (h traced htr) (fun _ => rfl) (of_decide_eq_true hfrees)

theorem frees_socket {kind : SocketKind} {answer : ℤ} {calls : List Traced}
    (hasks : ∀ traced ∈ calls, traced.asks = true) :
    frees (⟨.socket kind, answer⟩ :: calls) = 0 := by
  have happend := frees_append [⟨.socket kind, answer⟩] calls
  rw [frees_of_asks hasks] at happend
  exact happend

variable {α : Type}

/-- What is left as it is by an update stays so in the list. -/
theorem map_modify_of_eq {β : Type} {g : α → β} {f : α → α} (h : ∀ a, g (f a) = g a)
    (list : List α) (index : ℕ) : (list.modify index f).map g = list.map g := by
  refine ext_getElem? fun other => ?_
  rw [getElem?_map, getElem?_map, getElem?_modify]
  cases list[other]? with
  | none => rfl
  | some a =>
    split
    · exact congrArg some (h a)
    · rfl

/-- The sum of a list of which one element is updated. -/
theorem sum_modify (g : α → ℕ) (f : α → α) {list : List α} {index : ℕ} {a : α}
    (h : list[index]? = some a) :
    ((list.modify index f).map g).sum + g a = (list.map g).sum + g (f a) := by
  induction list generalizing index with
  | nil => cases h
  | cons first list ih =>
    cases index with
    | zero =>
      cases h
      rw [modify_zero_cons, map_cons, map_cons, sum_cons, sum_cons]
      omega
    | succ index =>
      have hrest := ih h
      rw [modify_succ_cons, map_cons, map_cons, sum_cons, sum_cons]
      omega

/-- What holds of all elements, and of the one that is updated. -/
theorem forall_mem_modify {p : α → Prop} {f : α → α} {list : List α} {index : ℕ} {a : α}
    (ha : list[index]? = some a) (h : ∀ b ∈ list, p b) (hf : p (f a)) :
    ∀ b ∈ list.modify index f, p b := by
  intro b hb
  obtain ⟨other, hother⟩ := mem_iff_getElem?.mp hb
  rw [getElem?_modify] at hother
  obtain ⟨old, hold, rfl⟩ := Option.map_eq_some_iff.mp hother
  split
  · rename_i heq
    rw [← heq, ha] at hold
    cases hold
    exact hf
  · exact h old (mem_of_getElem? hold)

namespace Traced

/-- Refused, and lost on the way to the factory. -/
def lost (traced : Traced) : Bool := traced.refused && !traced.isSocket && !traced.unseen 0

end Traced

namespace PoolClient

/-- How often its cleaning up closed a descriptor. -/
def closings (fd : ℤ) (client : PoolClient) : ℕ := if client.fd = fd then client.destroys else 0

/-- What holds of a client on its way. -/
structure Sound (kind : PoolKind) (client : PoolClient) : Prop where
  destroys : client.destroys = client.finished.toNat + client.reported.toNat
  reported : client.reported = true → kind = .unixStream ∧ client.refused = true
  finished : client.finished = true → client.channel.stage = .closed
  closed : client.channel.stage = .closed → client.failed = false
  closing : client.channel.stage ≠ .opened → client.channel.closing = true

/-- A client that is new. -/
structure Fresh (client : PoolClient) : Prop where
  destroys : client.destroys = 0
  reported : client.reported = false
  finished : client.finished = false
  stage : client.channel.stage = .opened

theorem Fresh.sound {client : PoolClient} (h : client.Fresh) (kind : PoolKind) :
    client.Sound kind where
  destroys := by rw [h.destroys, h.finished, h.reported]; rfl
  reported hreported := by rw [h.reported] at hreported; cases hreported
  finished hfinished := by rw [h.finished] at hfinished; cases hfinished
  closed hclosed := by rw [h.stage] at hclosed; cases hclosed
  closing hopened := absurd h.stage hopened

end PoolClient

namespace Pool

/-! ## The loop -/

variable {kernel : Kernel} {configuration : SocketConfiguration} {connectTimeout : Option ℤ}
  {pool : Pool}

/-- What a round of the loop comes to. -/
inductive Round (pool : Pool) : Pool → Prop
  /-- The kernel gives no socket. -/
  | noSocket {calls : List Traced} {message : Thrown} (hopened : opened calls = [])
      (hclosings : ∀ fd, closings fd calls = 0) (hfrees : frees calls = 1)
      (hlost : ∀ traced ∈ calls, traced.lost = false) :
    Round pool { pool with
      natives := pool.natives + 1, thrown := some message, trace := pool.trace ++ calls }
  /-- A refused option is seen: its descriptor is left open. -/
  | noOption {fd : ℤ} {calls : List Traced} {message : Thrown} (hopened : opened calls = [fd])
      (hclosings : ∀ fd, closings fd calls = 0) (hfrees : frees calls = 1)
      (hlost : ∃ traced ∈ calls, traced.lost = true) :
    Round pool { pool with
      natives := pool.natives + 1, thrown := some message, trace := pool.trace ++ calls }
  /-- A client is there. It has the descriptor that was opened, or 0 behind an option that was
  refused unseen. -/
  | added {fd : ℤ} {calls : List Traced} {client : PoolClient} {thrown : Option Thrown}
      (hfresh : client.Fresh) (hopened : opened calls = [fd])
      (hclosings : ∀ fd, closings fd calls = 0) (hfrees : frees calls = 0)
      (hfd : client.fd = fd ∧ (∀ traced ∈ calls, traced.lost = false) ∨
        client.fd = 0 ∧ fd ≠ 0 ∧ ∃ traced ∈ calls, traced.lost = true) :
    Round pool
      { kind := pool.kind
        clients := pool.clients ++ [client]
        registry := pool.registry.set client.fd pool.clients.length
        natives := pool.natives + 1
        thrown := thrown
        trace := pool.trace ++ calls }

variable {calls : List Traced}

/-- A client is registered and connects, if it can. -/
theorem round_of_ok {fd : ℤ} {native : Native} {result : List Traced}
    (heq : pool.kind.factory.initialized kernel configuration pool.trace = (.ok native, result))
    (hres : result = pool.trace ++ calls) (hopened : opened calls = [fd])
    (hclosings : ∀ fd, closings fd calls = 0) (hfrees : frees calls = 0)
    (hfd : native.fd = fd ∧ (∀ traced ∈ calls, traced.lost = false) ∨
      native.fd = 0 ∧ fd ≠ 0 ∧ ∃ traced ∈ calls, traced.lost = true) :
    Round pool (pool.openClient kernel configuration connectTimeout) := by
  subst hres
  unfold openClient
  rw [heq]
  dsimp only
  have hround (client : PoolClient) (thrown : Option Thrown) (hfresh : client.Fresh)
      (hclient : client.fd = native.fd) :
      Round pool
        { kind := pool.kind
          clients := pool.clients ++ [client]
          registry := pool.registry.set client.fd pool.clients.length
          natives := pool.natives + 1
          thrown := thrown
          trace := pool.trace ++ calls } :=
    .added hfresh hopened hclosings hfrees (hclient.symm ▸ hfd)
  cases connectTimeout with
  | none => exact hround _ _ ⟨rfl, rfl, rfl, rfl⟩ rfl
  | some seconds =>
    have hadd := hround
      { PoolClient.create native.fd with
        channel := { Channel.create .client none with pending := 0 + 1 }, connecting := true }
      pool.thrown ⟨rfl, rfl, rfl, rfl⟩ rfl
    exact hadd

/-! The calls of a round that registers a client. -/

section Registered

variable {kind : SocketKind} {fd : ℤ} {calls : List Traced} (hfd : 0 ≤ fd)
  (hasks : ∀ traced ∈ calls, traced.asks = true) (registered : ℤ)

include hasks

include hfd in
theorem opened_registered :
    opened (⟨.socket kind, fd⟩ :: calls ++ [⟨.register registered, 0⟩]) = [fd] := by
  rw [opened_append, opened_socket hfd hasks]
  rfl

theorem closings_registered (other : ℤ) :
    closings other (⟨.socket kind, fd⟩ :: calls ++ [⟨.register registered, 0⟩]) = 0 := by
  rw [closings_append, closings_socket hasks]
  rfl

theorem frees_registered :
    frees (⟨.socket kind, fd⟩ :: calls ++ [⟨.register registered, 0⟩]) = 0 := by
  rw [frees_append, frees_socket hasks]
  rfl

omit hasks in
theorem lost_registered (hlost : ∀ traced ∈ calls, traced.lost = false) :
    ∀ traced ∈ ⟨.socket kind, fd⟩ :: calls ++ [⟨.register registered, 0⟩], traced.lost = false := by
  rw [forall_mem_append]
  refine ⟨forall_mem_cons.mpr ⟨?_, hlost⟩, forall_mem_singleton.mpr rfl⟩
  unfold Traced.lost Traced.isSocket
  rw [Bool.not_true, Bool.and_false, Bool.false_and]

end Registered

theorem round_openClient (kernel : Kernel) (configuration : SocketConfiguration)
    (connectTimeout : Option ℤ) (pool : Pool) :
    Round pool (pool.openClient kernel configuration connectTimeout) := by
  obtain ⟨opening, hopening, heq⟩ :=
    pool.kind.factory.initialized_spec kernel configuration pool.trace
  have hfails (calls : List Traced) {message : Thrown}
      (hfailed : openNative pool.kind.factory.label opening =
        (.error message, pool.trace ++ calls)) :
      pool.openClient kernel configuration connectTimeout = { pool with
        natives := pool.natives + 1, thrown := some message, trace := pool.trace ++ calls } := by
    unfold openClient
    rw [heq, hfailed]
  cases hopening with
  | noSocket kind =>
    have hfailed := hfails ([⟨.socket kind, -1⟩] ++ [⟨.destroy, 0⟩]) (by
      rw [← append_assoc]
      rfl)
    rw [hfailed]
    refine .noSocket rfl (fun fd => rfl) rfl ?_
    exact forall_mem_cons.mpr ⟨rfl, forall_mem_singleton.mpr rfl⟩
  | @noOption kind fd calls option hsocket hfd hasks hunseen hrefused =>
    obtain ⟨traced, htr, hrefused⟩ := hrefused
    have hnot := Traced.not_isSocket_of_asks (hasks traced htr)
    by_cases hseen : (-2 ^ option.bit : ℤ).bmod (2 ^ 8) < 0
    · -- The structure has no descriptor to close.
      have hfailed := hfails (⟨.socket kind, fd⟩ :: calls ++ [⟨.destroy, 0⟩]) (by
        rw [← append_assoc]
        unfold openNative
        dsimp only
        rw [if_pos hseen, if_neg (by decide)])
      rw [hfailed]
      have hopened : opened (⟨.socket kind, fd⟩ :: calls ++ [⟨.destroy, 0⟩]) = [fd] := by
        rw [opened_append, opened_socket hfd.1 hasks]
        rfl
      refine .noOption hopened (fun other => ?_) ?_ ⟨traced, ?_, ?_⟩
      · rw [closings_append, closings_socket hasks]
        rfl
      · rw [frees_append, frees_socket hasks]
        rfl
      · exact mem_append_left _ (mem_cons_of_mem _ htr)
      · have hno : traced.unseen 0 = false := by
          refine Bool.eq_false_iff.mpr fun hzero => ?_
          have hle := (seen_iff option).mp hseen
          have hlt := ((hunseen traced htr hrefused 0).mp hzero).2
          omega
        rw [Traced.lost, hrefused, hnot, hno]
        rfl
    · have hbit : 7 < option.bit := Nat.lt_of_not_le fun hle => hseen ((seen_iff option).mpr hle)
      have hopening : openNative pool.kind.factory.label (⟨0, (-2 ^ option.bit : ℤ).bmod (2 ^ 8)⟩,
          pool.trace ++ ⟨.socket kind, fd⟩ :: calls) =
          (.ok ⟨0, (-2 ^ option.bit : ℤ).bmod (2 ^ 8)⟩,
            pool.trace ++ (⟨.socket kind, fd⟩ :: calls ++ [⟨.register 0, 0⟩])) := by
        unfold openNative
        dsimp only
        rw [if_neg hseen, ← append_assoc]
      have hlost : fd ≠ 0 → ∃ traced ∈ ⟨.socket kind, fd⟩ :: calls ++ [⟨.register 0, 0⟩],
          traced.lost = true := by
        intro hne
        refine ⟨traced, mem_append_left _ (mem_cons_of_mem _ htr), ?_⟩
        have hno : traced.unseen 0 = false :=
          Bool.eq_false_iff.mpr fun hzero => hne ((hunseen traced htr hrefused 0).mp hzero).1
        rw [Traced.lost, hrefused, hnot, hno]
        rfl
      refine round_of_ok (heq.trans hopening) rfl (opened_registered hfd.1 hasks 0)
        (closings_registered hasks 0) (frees_registered hasks 0) ?_
      by_cases hzero : fd = 0
      · refine .inl ⟨hzero.symm, lost_registered 0 fun other hother => ?_⟩
        -- What is refused on descriptor 0 is not seen, and the descriptor is there all the same.
        unfold Traced.lost
        cases hfails : other.refused with
        | false => rfl
        | true =>
          rw [(hunseen other hother hfails 0).mpr ⟨hzero, hbit⟩, Bool.not_true, Bool.and_false]
      · exact .inr ⟨rfl, hzero, hlost hzero⟩
  | noCall hcalls =>
    refine absurd ?_ hcalls
    cases pool.kind <;> rfl
  | @complete kind fd calls hsocket hfd hasks hdone =>
    have hopening : openNative pool.kind.factory.label (⟨fd, 0⟩,
        pool.trace ++ ⟨.socket kind, fd⟩ :: calls) =
        (.ok ⟨fd, 0⟩, pool.trace ++ (⟨.socket kind, fd⟩ :: calls ++ [⟨.register fd, 0⟩])) := by
      unfold openNative
      dsimp only
      rw [if_neg (by decide), ← append_assoc]
    refine round_of_ok (heq.trans hopening) rfl (opened_registered hfd.1 hasks fd)
      (closings_registered hasks fd) (frees_registered hasks fd) (.inl ⟨rfl, lost_registered fd ?_⟩)
    intro traced htr
    rw [Traced.lost, hdone traced htr]
    rfl

/-- The clients have the descriptors that were opened. -/
def Matched (pool : Pool) : Prop :=
  opened pool.trace = pool.clients.map PoolClient.fd ∧ ∀ traced ∈ pool.trace, traced.lost = false

/-- A descriptor that was opened is lost: a client has 0 for it, or there is no client. -/
def Mismatched (pool : Pool) : Prop :=
  (∃ traced ∈ pool.trace, traced.lost = true) ∧
    ((opened pool.trace).count 0 < (pool.clients.map PoolClient.fd).count 0 ∨
      pool.clients.length < (opened pool.trace).length)

/-- What a pool and its clients are like behind every step. -/
structure Sound (pool : Pool) : Prop where
  clients : ∀ client ∈ pool.clients, client.Sound pool.kind
  registered : ∀ (fd : ℤ) (index : ℕ), pool.registry.get? fd = some index →
    ∃ client, pool.clients[index]? = some client ∧ client.fd = fd ∧ client.finished = false ∧
      client.reported = false
  closings : ∀ fd, closings fd pool.trace = (pool.clients.map (PoolClient.closings fd)).sum
  frees : frees pool.trace + pool.clients.length =
    (pool.clients.map PoolClient.destroys).sum + pool.natives

/-- A pool whose loop has not thrown yet. -/
structure Opening (pool : Pool) : Prop where
  sound : pool.Sound
  length : (opened pool.trace).length = pool.clients.length
  matched : pool.Matched ∨ (∃ traced ∈ pool.trace, traced.lost = true) ∧
    (opened pool.trace).count 0 < (pool.clients.map PoolClient.fd).count 0

structure Opened (pool : Pool) : Prop where
  sound : pool.Sound
  matched : pool.Matched ∨ pool.Mismatched

theorem Opening.opened (h : pool.Opening) : pool.Opened where
  sound := h.sound
  matched := h.matched.imp_right fun hlost => ⟨hlost.1, .inl hlost.2⟩

theorem opening_empty (kind : PoolKind) : (empty kind).Opening where
  sound := {
    clients := fun client hclient => by cases hclient
    registered := fun fd index h => by cases h
    closings := fun fd => rfl
    frees := rfl }
  length := rfl
  matched := .inl ⟨rfl, nofun⟩

/-- A round that throws without a client. -/
theorem Sound.thrown (h : pool.Sound) {thrown : Option Thrown}
    (hclosings : ∀ fd, Transport.closings fd calls = 0) (hfrees : Transport.frees calls = 1) :
    Sound { pool with
      natives := pool.natives + 1, thrown := thrown, trace := pool.trace ++ calls } where
  clients := h.clients
  registered := h.registered
  closings fd := by
    have hbefore := h.closings fd
    rw [closings_append, hclosings, Nat.add_zero]
    exact hbefore
  frees := by
    have hbefore := h.frees
    rw [frees_append, hfrees]
    dsimp only
    omega

/-- A round that adds a client. -/
theorem Sound.added (h : pool.Sound) {client : PoolClient} (hfresh : client.Fresh)
    {thrown : Option Thrown} (hclosings : ∀ fd, Transport.closings fd calls = 0)
    (hfrees : Transport.frees calls = 0) :
    Sound
      { kind := pool.kind
        clients := pool.clients ++ [client]
        registry := pool.registry.set client.fd pool.clients.length
        natives := pool.natives + 1
        thrown := thrown
        trace := pool.trace ++ calls } where
  clients := forall_mem_append.mpr ⟨h.clients, forall_mem_singleton.mpr (hfresh.sound _)⟩
  registered fd index hget := by
    -- The entry is of the new client, or was there.
    rcases DartMap.get?_of_set _ _ hget with ⟨rfl, rfl⟩ | ⟨-, hget⟩
    · refine ⟨client, ?_, rfl, hfresh.finished, hfresh.reported⟩
      exact getElem?_concat_length
    · obtain ⟨other, hother, hfd, hlive⟩ := h.registered fd index hget
      refine ⟨other, ?_, hfd, hlive⟩
      obtain ⟨hlt, -⟩ := List.getElem?_eq_some_iff.mp hother
      exact (getElem?_append_left hlt).trans hother
  closings fd := by
    have hbefore := h.closings fd
    have hnew : client.closings fd = 0 := by
      rw [PoolClient.closings, hfresh.destroys, ite_self]
    have hsum : ((pool.clients ++ [client]).map (PoolClient.closings fd)).sum =
        (pool.clients.map (PoolClient.closings fd)).sum := by
      rw [map_append, sum_append, map_singleton, sum_singleton, hnew,
        Nat.add_zero]
    rw [closings_append, hclosings, Nat.add_zero]
    exact hbefore.trans hsum.symm
  frees := by
    have hbefore := h.frees
    have hsum : ((pool.clients ++ [client]).map PoolClient.destroys).sum =
        (pool.clients.map PoolClient.destroys).sum := by
      rw [map_append, sum_append, map_singleton, sum_singleton,
        hfresh.destroys, Nat.add_zero]
    rw [frees_append, hfrees]
    dsimp only
    rw [hsum, length_append, length_singleton]
    omega

theorem Round.opened {after : Pool} (hround : Round pool after) (h : pool.Opening) :
    after.Opened ∧ (after.thrown = none → after.Opening) := by
  have hlost {calls : List Traced} (hcalls : ∀ traced ∈ calls, traced.lost = false)
      (htrace : ∀ traced ∈ pool.trace, traced.lost = false) :
      ∀ traced ∈ pool.trace ++ calls, traced.lost = false :=
    forall_mem_append.mpr ⟨htrace, hcalls⟩
  cases hround with
  | @noSocket calls message hopened hclosings hfrees hcalls =>
    refine ⟨⟨h.sound.thrown hclosings hfrees, ?_⟩, nofun⟩
    have hsame : Transport.opened (pool.trace ++ calls) = Transport.opened pool.trace := by
      rw [opened_append, hopened, append_nil]
    -- A round without a socket changes nothing of what is open.
    rcases h.matched with ⟨hfds, htrace⟩ | ⟨⟨traced, htr, htrLost⟩, hcount⟩
    · exact .inl ⟨hsame.trans hfds, hlost hcalls htrace⟩
    · exact .inr ⟨⟨traced, mem_append_left _ htr, htrLost⟩,
        .inl (hsame.symm ▸ hcount)⟩
  | @noOption fd calls message hopened hclosings hfrees hcalls =>
    obtain ⟨traced, htr, htrLost⟩ := hcalls
    refine ⟨⟨h.sound.thrown hclosings hfrees, .inr ⟨⟨traced, mem_append_right _ htr,
      htrLost⟩, .inr ?_⟩⟩, nofun⟩
    dsimp only
    rw [opened_append, hopened, length_append, h.length]
    exact Nat.lt_succ_self _
  | @added fd calls client thrown hfresh hopened hclosings hfrees hfd =>
    suffices hafter : Opening
        { kind := pool.kind
          clients := pool.clients ++ [client]
          registry := pool.registry.set client.fd pool.clients.length
          natives := pool.natives + 1
          thrown := thrown
          trace := pool.trace ++ calls } from ⟨hafter.opened, fun _ => hafter⟩
    have hopens : Transport.opened (pool.trace ++ calls) = Transport.opened pool.trace ++ [fd] := by
      rw [opened_append, hopened]
    have hfds : (pool.clients ++ [client]).map PoolClient.fd =
        pool.clients.map PoolClient.fd ++ [client.fd] := map_append
    refine ⟨h.sound.added hfresh hclosings hfrees, ?_, ?_⟩
    · rw [hopens, length_append, length_append, h.length]
      rfl
    · have hle : (Transport.opened pool.trace).count 0 ≤
          (pool.clients.map PoolClient.fd).count 0 := by
        rcases h.matched with hmatched | hmatched
        · exact (congrArg (List.count 0) hmatched.1).le
        · exact hmatched.2.le
      rcases hfd with ⟨hsame, hcalls⟩ | ⟨hzero, hne, traced, htr, htrLost⟩
      · rcases h.matched with ⟨hmatched, htrace⟩ | ⟨⟨traced, htr, htrLost⟩, hcount⟩
        · refine .inl ⟨?_, hlost hcalls htrace⟩
          rw [hopens, hfds, hmatched, hsame]
        · refine .inr ⟨⟨traced, mem_append_left _ htr, htrLost⟩, ?_⟩
          rw [hopens, hfds, hsame, count_append, count_append]
          exact Nat.add_lt_add_right hcount _
      · refine .inr ⟨⟨traced, mem_append_right _ htr, htrLost⟩, ?_⟩
        -- The descriptor is lost for a client that has zero.
        have hnone : List.count 0 [fd] = 0 := count_eq_zero.mpr fun hmem =>
          hne (mem_singleton.mp hmem).symm
        have hone : List.count 0 [client.fd] = 1 := by
          rw [hzero]
          rfl
        rw [hopens, hfds, count_append, count_append, hnone, hone]
        omega

theorem opened_openClients (kernel : Kernel) (configuration : SocketConfiguration)
    (connectTimeout : Option ℤ) (rounds : ℕ) (h : pool.Opening) :
    (pool.openClients kernel configuration connectTimeout rounds).Opened := by
  induction rounds generalizing pool with
  | zero => exact h.opened
  | succ rounds ih =>
    obtain ⟨hopened, hopening⟩ :=
      (round_openClient kernel configuration connectTimeout pool).opened h
    rw [openClients]
    split
    · exact hopened
    · rename_i hnone
      exact ih (hopening (Option.not_isSome_iff_eq_none.mp hnone))

theorem opened_create (kernel : Kernel) (configuration : SocketConfiguration)
    (connectTimeout : Option ℤ) (kind : PoolKind) (size : ℕ) :
    (create kernel configuration connectTimeout kind size).Opened :=
  opened_openClients kernel configuration connectTimeout size (opening_empty kind)

/-! ## Behind the loop -/

section Moves

variable {index : ℕ} {client : PoolClient} {f : PoolClient → PoolClient}

/-- A client behind an update of one of them. -/
theorem getElem?_modifyClient {other : ℕ} {old : PoolClient} (h : pool.clients[other]? = some old)
    (f : PoolClient → PoolClient) :
    (pool.modifyClient index f).clients[other]? = some (if index = other then f old else old) := by
  unfold modifyClient
  dsimp only
  rw [getElem?_modify, h]
  split <;> rfl

/-- A step that cleans nothing up. -/
theorem Opened.modifyClient (h : pool.Opened) (hclient : pool.clients[index]? = some client)
    (hfd : ∀ client, (f client).fd = client.fd)
    (hdestroys : ∀ client, (f client).destroys = client.destroys)
    (hlive : ∀ client, (f client).finished = client.finished ∧
      (f client).reported = client.reported)
    (hsound : (f client).Sound pool.kind) : (pool.modifyClient index f).Opened := by
  have hfds : (pool.clients.modify index f).map PoolClient.fd = pool.clients.map PoolClient.fd :=
    map_modify_of_eq hfd pool.clients index
  have hlen : (pool.clients.modify index f).length = pool.clients.length := length_modify ..
  refine ⟨⟨forall_mem_modify hclient h.sound.clients hsound, fun fd other hget => ?_, fun fd => ?_,
    ?_⟩, ?_⟩
  · obtain ⟨old, hold, hsame, hfin, hreported⟩ := h.sound.registered fd other hget
    refine ⟨_, getElem?_modifyClient hold f, ?_⟩
    -- The entry is of this client, or of another.
    split
    · exact ⟨(hfd old).trans hsame, (hlive old).1.trans hfin, (hlive old).2.trans hreported⟩
    · exact ⟨hsame, hfin, hreported⟩
  · have hsum := map_modify_of_eq (g := PoolClient.closings fd) (f := f) (fun client => by
      rw [PoolClient.closings, PoolClient.closings, hfd, hdestroys]) pool.clients index
    exact (h.sound.closings fd).trans (congrArg List.sum hsum.symm)
  · have hsum := map_modify_of_eq hdestroys pool.clients index
    have hfrees := h.sound.frees
    unfold Pool.modifyClient
    dsimp only
    rw [hsum, hlen]
    exact hfrees
  · rcases h.matched with ⟨hmatched, htrace⟩ | ⟨hlost, hcount⟩
    · exact .inl ⟨hmatched.trans hfds.symm, htrace⟩
    · refine .inr ⟨hlost, ?_⟩
      unfold Pool.modifyClient
      dsimp only
      rw [hfds, hlen]
      exact hcount

/-- A step that cleans a client up. -/
theorem Opened.cleanUp (h : pool.Opened) (hclient : pool.clients[index]? = some client)
    (hfd : ∀ client, (f client).fd = client.fd)
    (hdestroys : ∀ client, (f client).destroys = client.destroys)
    (hsound : (f client).destroy.Sound pool.kind) :
    ((pool.modifyClient index f).cleanUp index client.fd).Opened := by
  have hclients : ((pool.modifyClient index f).cleanUp index client.fd).clients =
      pool.clients.modify index (PoolClient.destroy ∘ f) := modify_modify_eq ..
  generalize hafter : (pool.modifyClient index f).cleanUp index client.fd = after at hclients ⊢
  have htrace :
      after.trace = pool.trace ++ [⟨.shutdownDescriptor client.fd, 0⟩, ⟨.destroy, 0⟩] := by
    rw [← hafter]
    rfl
  have hregistry : after.registry = pool.registry.remove client.fd := by
    rw [← hafter]
    rfl
  have hkind : after.kind = pool.kind := by
    rw [← hafter]
    rfl
  have hnatives : after.natives = pool.natives := by
    rw [← hafter]
    rfl
  have hfds : after.clients.map PoolClient.fd = pool.clients.map PoolClient.fd := by
    rw [hclients]
    exact map_modify_of_eq (f := PoolClient.destroy ∘ f) hfd pool.clients index
  have hlen : after.clients.length = pool.clients.length := by
    rw [hclients]
    exact length_modify ..
  have hopened : Transport.opened after.trace = Transport.opened pool.trace := by
    rw [htrace, opened_append]
    exact append_nil _
  refine ⟨⟨?_, fun fd other hget => ?_, fun fd => ?_, ?_⟩, ?_⟩
  · rw [hclients, hkind]
    exact forall_mem_modify hclient h.sound.clients hsound
  · -- No other client has the entry.
    rw [hregistry] at hget
    obtain ⟨hne, hget⟩ := DartMap.get?_of_remove _ _ hget
    obtain ⟨old, hold, hsame, hlive⟩ := h.sound.registered fd other hget
    have hother : index ≠ other := by
      rintro rfl
      rw [hclient] at hold
      cases hold
      exact hne hsame.symm
    refine ⟨old, ?_, hsame, hlive⟩
    rw [hclients, getElem?_modify_ne _ _ hother]
    exact hold
  · have hbefore := h.sound.closings fd
    have hsum := sum_modify (PoolClient.closings fd) (PoolClient.destroy ∘ f) hclient
    have hnew : ((PoolClient.destroy ∘ f) client).closings fd = client.closings fd +
        Transport.closings fd [⟨.shutdownDescriptor client.fd, 0⟩, ⟨.destroy, 0⟩] := by
      unfold PoolClient.closings PoolClient.destroy
      rw [Function.comp_apply]
      dsimp only
      rw [hfd, hdestroys, Transport.closings, countP_cons, countP_singleton]
      -- The descriptor that is closed is the one of the client.
      by_cases hsame : client.fd = fd
      · rw [if_pos hsame, if_pos hsame, hsame]
        simp
      · rw [if_neg hsame, if_neg hsame]
        simp [hsame]
    rw [htrace, closings_append, hclients]
    omega
  · have hbefore := h.sound.frees
    have hsum := sum_modify PoolClient.destroys (PoolClient.destroy ∘ f) hclient
    have hnew : ((PoolClient.destroy ∘ f) client).destroys = client.destroys + 1 :=
      congrArg (· + 1) (hdestroys client)
    have hone : Transport.frees [⟨.shutdownDescriptor client.fd, 0⟩, ⟨.destroy, 0⟩] = 1 := rfl
    rw [htrace, frees_append, hone, hnatives, hlen, hclients]
    omega
  · have hlost (traced : Traced) (hmem : traced ∈ after.trace) :
        traced ∈ pool.trace ∨ traced.lost = false := by
      rw [htrace, mem_append] at hmem
      refine hmem.imp_right fun hnew => ?_
      simp only [mem_cons, not_mem_nil, or_false] at hnew
      rcases hnew with rfl | rfl <;> rfl
    rcases h.matched with ⟨hmatched, hnone⟩ | ⟨⟨traced, htr, htrLost⟩, hcount⟩
    · exact .inl ⟨hopened.trans (hmatched.trans hfds.symm), fun traced htr =>
        (hlost traced htr).elim (hnone traced) id⟩
    · refine .inr ⟨⟨traced, htrace ▸ mem_append_left _ htr, htrLost⟩, ?_⟩
      rw [hopened, hfds, hlen]
      exact hcount

end Moves

end Pool

/-- A `close` that is at its end at once had nothing to wait for. -/
theorem Channel.pending_of_stage_close {channel : Channel} {graceful : Bool}
    (hopened : channel.stage = .opened) (hclosed : (channel.close graceful).stage = .closed) :
    ¬0 < channel.pending := by
  intro hpend
  unfold close at hclosed
  split at hclosed
  · rw [hopened] at hclosed
    cases hclosed
  · split at hclosed
    · cases hclosed
    · rw [beginClose, if_pos hpend] at hclosed
      cases hclosed

namespace PoolClient

section Close

variable (graceful cancels : Bool) (client : PoolClient)

theorem fd_close : (client.close graceful cancels).fd = client.fd := by
  unfold close
  split <;> rfl

theorem destroys_close : (client.close graceful cancels).destroys = client.destroys := by
  unfold close
  split <;> rfl

theorem live_close : (client.close graceful cancels).finished = client.finished ∧
    (client.close graceful cancels).reported = client.reported := by
  unfold close
  split <;> exact ⟨rfl, rfl⟩

end Close

end PoolClient

namespace PoolClient.Sound

variable {client : PoolClient} {kind : PoolKind} (h : client.Sound kind)

include h

/-- The ring has its `connect` no more. -/
theorem arrive : Sound kind { client with connecting := false } :=
  ⟨h.destroys, h.reported, h.finished, h.closed, h.closing⟩

theorem notifyConnect (result : ℤ) : (client.notifyConnect result).Sound kind where
  destroys := h.destroys
  reported hreported := by
    obtain ⟨hkind, hrefused⟩ := h.reported hreported
    refine ⟨hkind, decide_eq_true ?_⟩
    unfold PoolClient.notifyConnect
    dsimp only
    rw [of_decide_eq_true hrefused]
    rfl
  finished hfinished := (Channel.stage_lower _).trans (h.finished hfinished)
  closed hclosed := h.closed ((Channel.stage_lower _).symm.trans hclosed)
  closing hstage := by
    have hclosing := h.closing fun hopened => hstage ((Channel.stage_lower _).trans hopened)
    exact (Channel.closing_lower _).trans hclosing

theorem close (graceful cancels : Bool) : (client.close graceful cancels).Sound kind := by
  unfold PoolClient.close
  by_cases hclosing : client.channel.closing = true
  · rw [if_pos hclosing]
    exact h
  · rw [if_neg hclosing]
    have hopened : client.channel.stage = .opened := by
      by_contra hstage
      exact hclosing (h.closing hstage)
    refine ⟨h.destroys, h.reported, fun hfin => ?_, fun hclosed => ?_, fun _ => ?_⟩
    · have hstage := h.finished hfin
      rw [hopened] at hstage
      cases hstage
    · have hpend := Channel.pending_of_stage_close hopened hclosed
      dsimp only
      rw [decide_eq_false hpend, Bool.false_and, Bool.false_and]
    · exact Channel.closing_close _ _

theorem timeout (cancels : Bool) (hstage : client.channel.stage = .awaits true) :
    (client.timeout cancels).Sound kind where
  destroys := h.destroys
  reported := h.reported
  finished hfinished := by
    have hclosed := h.finished hfinished
    rw [hstage] at hclosed
    cases hclosed
  closed hclosed := by cases hclosed
  closing _ := h.closing (by rw [hstage]; exact nofun)

theorem end_close (hclosing : client.channel.closing = true) (hfailed : client.failed = false) :
    client.closed.Sound kind where
  destroys := h.destroys
  reported := h.reported
  finished _ := rfl
  closed _ := hfailed
  closing _ := hclosing

/-- `close` has come to its end. -/
theorem finish (hstage : client.channel.stage = .closed) (hfin : client.finished = false) :
    (PoolClient.destroy { client with finished := true }).Sound kind where
  destroys := by
    have hdestroys := h.destroys
    rw [hfin, Bool.toNat_false, Nat.zero_add] at hdestroys
    unfold PoolClient.destroy
    dsimp only
    rw [hdestroys, Bool.toNat_true, Nat.add_comm]
  reported := h.reported
  finished _ := hstage
  closed := h.closed
  closing := h.closing

/-- The factory has cleaned up. -/
theorem report (hkind : kind = .unixStream) (hrefused : client.refused = true)
    (hreported : client.reported = false) :
    (PoolClient.destroy { client with reported := true }).Sound kind where
  destroys := by
    have hdestroys := h.destroys
    rw [hreported, Bool.toNat_false, Nat.add_zero] at hdestroys
    unfold PoolClient.destroy
    dsimp only
    rw [hdestroys, Bool.toNat_true]
  reported _ := ⟨hkind, hrefused⟩
  finished := h.finished
  closed := h.closed
  closing := h.closing

end PoolClient.Sound

namespace Pool

variable {kernel : Kernel} {configuration : SocketConfiguration} {connectTimeout : Option ℤ}
  {pool : Pool}

/-- The steps keep what the loop has made. -/
theorem Opened.step {action : PoolAction} {after : Pool} (h : pool.Opened)
    (hstep : step pool action = some after) : after.Opened := by
  have hsound {index : ℕ} {client : PoolClient} (hclient : pool.clients[index]? = some client) :
      client.Sound pool.kind := h.sound.clients client (mem_of_getElem? hclient)
  cases action with
  | connected index result =>
    obtain ⟨client, hclient, -, rfl⟩ := proceed_eq_some.mp hstep
    have hquiet := h.modifyClient hclient (f := fun client => { client with connecting := false })
      (fun _ => rfl) (fun _ => rfl) (fun _ => ⟨rfl, rfl⟩) (hsound hclient).arrive
    unfold complete
    dsimp only
    -- The completion goes to the client that the registry has for the descriptor.
    split
    · rename_i target hget
      obtain ⟨other, hother, -, -⟩ := hquiet.sound.registered client.fd target hget
      refine hquiet.modifyClient hother (fun _ => rfl) (fun _ => rfl) (fun _ => ⟨rfl, rfl⟩) ?_
      exact (hquiet.sound.clients other (mem_of_getElem? hother)).notifyConnect result
    · exact hquiet
  | report index =>
    obtain ⟨client, hclient, henabled, rfl⟩ := proceed_eq_some.mp hstep
    rw [Bool.and_eq_true, Bool.and_eq_true, decide_eq_true_eq, Bool.not_eq_true'] at henabled
    obtain ⟨⟨hkind, hrefused⟩, hreported⟩ := henabled
    exact h.cleanUp hclient (fun _ => rfl) (fun _ => rfl)
      ((hsound hclient).report hkind hrefused hreported)
  | close index graceful cancels =>
    obtain ⟨client, hclient, -, rfl⟩ := proceed_eq_some.mp hstep
    exact h.modifyClient hclient (PoolClient.fd_close graceful cancels)
      (PoolClient.destroys_close graceful cancels) (PoolClient.live_close graceful cancels)
      ((hsound hclient).close graceful cancels)
  | timeout index cancels =>
    obtain ⟨client, hclient, henabled, rfl⟩ := proceed_eq_some.mp hstep
    rw [Bool.and_eq_true, decide_eq_true_eq] at henabled
    exact h.modifyClient hclient (fun _ => rfl) (fun _ => rfl) (fun _ => ⟨rfl, rfl⟩)
      ((hsound hclient).timeout cancels henabled.1)
  | closed index =>
    obtain ⟨client, hclient, henabled, rfl⟩ := proceed_eq_some.mp hstep
    rw [Bool.and_eq_true, Bool.and_eq_true, Bool.not_eq_true', Bool.or_eq_true, decide_eq_true_eq,
      decide_eq_true_eq] at henabled
    obtain ⟨⟨-, hfailed⟩, hstage⟩ := henabled
    have hclosing : client.channel.closing = true := (hsound hclient).closing fun hopened => by
      rw [hopened] at hstage
      rcases hstage with hstage | hstage <;> cases hstage
    exact h.modifyClient hclient (fun _ => rfl) (fun _ => rfl) (fun _ => ⟨rfl, rfl⟩)
      ((hsound hclient).end_close hclosing hfailed)
  | finish index =>
    obtain ⟨client, hclient, henabled, rfl⟩ := proceed_eq_some.mp hstep
    rw [Bool.and_eq_true, decide_eq_true_eq, Bool.not_eq_true'] at henabled
    exact h.cleanUp hclient (fun _ => rfl) (fun _ => rfl)
      ((hsound hclient).finish henabled.1 henabled.2)

theorem opened_of_run {kind : PoolKind} {size : ℕ} {actions : List PoolAction}
    (hrun : run step (create kernel configuration connectTimeout kind size) actions = some pool) :
    pool.Opened :=
  run_invariant Opened (fun _ _ _ hopened hstep => hopened.step hstep)
    (opened_create kernel configuration connectTimeout kind size) hrun

end Pool

end FengShui.Transport
