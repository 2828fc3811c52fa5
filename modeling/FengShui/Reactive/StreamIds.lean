import FengShui.Lib.Transition
import FengShui.Reactive.Supplier
import Mathlib.Algebra.Ring.Int.Parity
import Mathlib.Data.Finset.Card
import Mathlib.Logic.Function.Iterate

/-!
# The supply of stream ids

A supplier stands at one of the places of a cycle: place `0` is its initial value, which it leaves
for good, and the places from `1` to `idCount` are the ids of its parity in order. A round of the
loop goes one place on, from the last id to the first. So the rounds of a call meet every id, and
meet none twice before all are met.
-/

namespace FengShui.Reactive

open FengShui.Transition

namespace ReactiveStreamIdSupplier

/-- The number of ids between the initial value and the mask. -/
def idCount (supplier : ReactiveStreamIdSupplier) : ℕ :=
  ((reactiveStreamIdMask - supplier.initial) / reactiveStreamIdIncrement).toNat

/-- The supplier stands at the place of its cycle. -/
structure At (supplier : ReactiveStreamIdSupplier) (place : ℕ) : Prop where
  initial : supplier.initial = reactiveClientInitialStreamId ∨
    supplier.initial = reactiveServerInitialStreamId
  place_le : place ≤ supplier.idCount
  current : supplier.current = supplier.initial + reactiveStreamIdIncrement * place

/-- An id of the supplier's parity that a stream can have. -/
def IsId (supplier : ReactiveStreamIdSupplier) (id : ℤ) : Prop :=
  0 < id ∧ id ≤ reactiveStreamIdMask ∧ id % 2 = supplier.initial % 2

theorem increment_eq : reactiveStreamIdIncrement = 2 := rfl

theorem client_at : client.At 0 := ⟨.inl rfl, Nat.zero_le _, rfl⟩

theorem server_at : server.At 0 := ⟨.inr rfl, Nat.zero_le _, rfl⟩

@[simp]
theorem initial_advance (supplier : ReactiveStreamIdSupplier) :
    supplier.advance.initial = supplier.initial := rfl

theorem current_advance (supplier : ReactiveStreamIdSupplier) :
    supplier.advance.current =
      if supplier.current + reactiveStreamIdIncrement > reactiveStreamIdMask then
        supplier.initial + reactiveStreamIdIncrement
      else supplier.current + reactiveStreamIdIncrement := rfl

namespace At

variable {supplier : ReactiveStreamIdSupplier} {place : ℕ}

/-- There are ids. -/
theorem idCount_pos (hat : supplier.At place) : 0 < supplier.idCount := by
  rcases hat.initial with hinit | hinit <;> rw [idCount, hinit] <;> decide

/-- The last id is the last number of the parity up to the mask. -/
theorem lastId (hat : supplier.At place) :
    supplier.initial + reactiveStreamIdIncrement * supplier.idCount ≤ reactiveStreamIdMask ∧
      reactiveStreamIdMask < supplier.initial + reactiveStreamIdIncrement *
        (supplier.idCount + 1) := by
  rcases hat.initial with hinit | hinit <;> rw [idCount, hinit] <;> decide

/-- A round goes one place on, from the last to the first. -/
theorem advance (hat : supplier.At place) : supplier.advance.At (place % supplier.idCount + 1) := by
  have hpos := hat.idCount_pos
  obtain ⟨hlast, hmask⟩ := hat.lastId
  have hplace := hat.place_le
  have hcur := hat.current
  refine ⟨hat.initial, Nat.mod_lt _ hpos, ?_⟩
  rw [current_advance, initial_advance]
  rw [increment_eq] at hlast hmask hcur ⊢
  rcases hplace.lt_or_eq with hlt | heq
  · rw [Nat.mod_eq_of_lt hlt, if_neg (by omega)]
    omega
  · rw [heq, Nat.mod_self, if_pos (by omega)]
    omega

/-- The place after some rounds. -/
theorem advance_iterate (hat : supplier.At place) (rounds : ℕ) :
    (ReactiveStreamIdSupplier.advance^[rounds + 1] supplier).At
      ((place + rounds) % supplier.idCount + 1) ∧
    (ReactiveStreamIdSupplier.advance^[rounds + 1] supplier).initial = supplier.initial := by
  induction rounds with
  | zero => exact ⟨hat.advance, rfl⟩
  | succ rounds ih =>
    obtain ⟨hthere, hinit⟩ := ih
    -- The number of ids depends on the initial value alone, which no step changes.
    rw [Function.iterate_succ_apply', initial_advance]
    refine ⟨?_, hinit⟩
    have hcount : (ReactiveStreamIdSupplier.advance^[rounds + 1] supplier).idCount =
        supplier.idCount := by rw [idCount, idCount, hinit]
    have hnext := hthere.advance
    rw [hcount] at hnext
    have hplace : ((place + rounds) % supplier.idCount + 1) % supplier.idCount =
        (place + (rounds + 1)) % supplier.idCount := by
      rw [Nat.mod_add_mod, Nat.add_assoc]
    rwa [hplace] at hnext

/-- What stands past the initial value is an id. -/
theorem isId (hat : supplier.At (place + 1)) : supplier.IsId supplier.current := by
  have hplace := hat.place_le
  have hcur := hat.current
  obtain ⟨hlast, -⟩ := hat.lastId
  have hinit := hat.initial
  simp only [IsId, reactiveStreamIdIncrement, reactiveStreamIdMask, reactiveClientInitialStreamId,
    reactiveServerInitialStreamId] at *
  omega

/-- Every id has a place. -/
theorem exists_place (hat : supplier.At place) {id : ℤ} (hid : supplier.IsId id) :
    ∃ there < supplier.idCount, id = supplier.initial + reactiveStreamIdIncrement *
      (there + 1) := by
  obtain ⟨hpos, hle, hparity⟩ := hid
  obtain ⟨-, hmask⟩ := hat.lastId
  have hinit := hat.initial
  simp only [reactiveStreamIdIncrement, reactiveStreamIdMask, reactiveClientInitialStreamId,
    reactiveServerInitialStreamId] at *
  refine ⟨((id - supplier.initial) / 2 - 1).toNat, ?_, ?_⟩ <;> omega

/-- Every id is met within one turn of the cycle. -/
theorem exists_rounds (hat : supplier.At place) {id : ℤ} (hid : supplier.IsId id) :
    ∃ rounds < supplier.idCount,
      (ReactiveStreamIdSupplier.advance^[rounds + 1] supplier).current = id := by
  obtain ⟨there, hthere, rfl⟩ := hat.exists_place hid
  have hpos := hat.idCount_pos
  have hplace := hat.place_le
  obtain ⟨rounds, hrounds, hmod⟩ : ∃ rounds < supplier.idCount,
      (place + rounds) % supplier.idCount = there := by
    rcases Nat.lt_or_ge there place with hbehind | hahead
    · -- Once past the last id.
      refine ⟨there + supplier.idCount - place, by omega, ?_⟩
      rw [Nat.add_sub_cancel' (by omega), Nat.add_mod_right, Nat.mod_eq_of_lt hthere]
    · refine ⟨there - place, by omega, ?_⟩
      rw [Nat.add_sub_cancel' hahead, Nat.mod_eq_of_lt hthere]
  obtain ⟨hat', hinit⟩ := hat.advance_iterate rounds
  refine ⟨rounds, hrounds, ?_⟩
  rw [hat'.current, hinit, hmod, Nat.cast_succ]

/-- No id is met twice within one turn. -/
theorem injOn (hat : supplier.At place) {rounds rounds' : ℕ} (hrounds : rounds < supplier.idCount)
    (hrounds' : rounds' < supplier.idCount)
    (heq : (ReactiveStreamIdSupplier.advance^[rounds + 1] supplier).current =
      (ReactiveStreamIdSupplier.advance^[rounds' + 1] supplier).current) : rounds = rounds' := by
  obtain ⟨hthere, hinit⟩ := hat.advance_iterate rounds
  obtain ⟨hthere', hinit'⟩ := hat.advance_iterate rounds'
  have hmod : (place + rounds) % supplier.idCount = (place + rounds') % supplier.idCount := by
    have hcur := hthere.current
    rw [heq, hthere'.current, hinit, hinit'] at hcur
    simp only [reactiveStreamIdIncrement] at hcur
    omega
  exact (Nat.ModEq.add_left_cancel' place hmod).eq_of_lt_of_lt hrounds hrounds'

end At

/-! ## The loop -/

/-- The id that a round meets is refused. -/
def Taken (streamIds : List ℤ) (supplier : ReactiveStreamIdSupplier) : Prop :=
  supplier.current = 0 ∨ supplier.current ∈ streamIds

instance (streamIds : List ℤ) (supplier : ReactiveStreamIdSupplier) :
    Decidable (supplier.Taken streamIds) := inferInstanceAs (Decidable (_ ∨ _))

theorem nextLoop_succ (streamIds : List ℤ) (bound : ℕ) (supplier : ReactiveStreamIdSupplier) :
    nextLoop streamIds (bound + 1) supplier =
      if supplier.advance.Taken streamIds then nextLoop streamIds bound supplier.advance
      else some (supplier.advance.current, supplier.advance) := rfl

variable {streamIds : List ℤ} {supplier origin : ReactiveStreamIdSupplier} {bound : ℕ}

/-- The loop ends once a round meets an id that is not taken. -/
theorem nextLoop_of_free {round : ℕ} (hround : round < bound)
    (hfree : ¬ (advance^[round + 1] supplier).Taken streamIds) :
    ∃ id supplier', nextLoop streamIds bound supplier = some (id, supplier') := by
  induction bound generalizing round supplier with
  | zero => omega
  | succ bound ih =>
    rw [nextLoop_succ]
    by_cases htaken : supplier.advance.Taken streamIds
    · rw [if_pos htaken]
      cases round with
      | zero => exact absurd htaken hfree
      | succ round => exact ih (Nat.lt_of_succ_lt_succ hround) hfree
    · rw [if_neg htaken]
      exact ⟨_, _, rfl⟩

/-- The loop leaves the supplier where its last round went, with that id. -/
theorem eq_of_nextLoop {supplier' : ReactiveStreamIdSupplier} {id : ℤ}
    (h : nextLoop streamIds bound supplier = some (id, supplier')) :
    ∃ round, supplier' = advance^[round + 1] supplier ∧ id = supplier'.current := by
  induction bound generalizing supplier with
  | zero => cases h
  | succ bound ih =>
    rw [nextLoop_succ] at h
    split at h
    · obtain ⟨round, hround, hid⟩ := ih h
      exact ⟨round + 1, hround, hid⟩
    · cases h
      exact ⟨0, rfl, rfl⟩

/-- More rounds than the loop takes change nothing. -/
theorem nextLoop_mono {bound' : ℕ} (hbound : bound ≤ bound')
    {result : ℤ × ReactiveStreamIdSupplier} (h : nextLoop streamIds bound supplier = some result) :
    nextLoop streamIds bound' supplier = some result := by
  induction bound generalizing bound' supplier with
  | zero => cases h
  | succ bound ih =>
    obtain ⟨more, rfl⟩ := Nat.exists_eq_add_of_le hbound
    rw [Nat.add_right_comm, nextLoop_succ]
    rw [nextLoop_succ] at h
    split at h
    · rename_i htaken
      rw [if_pos htaken]
      exact ih (Nat.le_add_right bound more) h
    · rename_i hfree
      rw [if_neg hfree]
      exact h

namespace At

variable {supplier : ReactiveStreamIdSupplier} {place : ℕ}

variable {streamIds : List ℤ} {id : ℤ}

/-- As many rounds as ids are used and one more meet a free id, where one is free at all: fewer ids
than one turn has are used up before the turn is over. -/
theorem exists_free_round (hat : supplier.At place) (hid : supplier.IsId id)
    (hfree : id ∉ streamIds) :
    ∃ round < streamIds.length + 1,
      ¬ (ReactiveStreamIdSupplier.advance^[round + 1] supplier).Taken streamIds := by
  have hne : ∀ round,
      (ReactiveStreamIdSupplier.advance^[round + 1] supplier).current ≠ 0 := fun round =>
    (hat.advance_iterate round).1.isId.1.ne'
  obtain ⟨there, hthere, rfl⟩ := hat.exists_rounds hid
  rcases Nat.lt_or_ge there (streamIds.length + 1) with hnear | hfar
  · refine ⟨there, hnear, fun htaken => ?_⟩
    exact htaken.elim (hne there) hfree
  · by_contra! htaken
    -- The rounds meet different ids, all used: more than there are.
    have hcard : (Finset.range (streamIds.length + 1)).card ≤ streamIds.toFinset.card := by
      refine Finset.card_le_card_of_injOn
        (fun round => (ReactiveStreamIdSupplier.advance^[round + 1] supplier).current) ?_ ?_
      · intro round hround
        have hmem :=
          (htaken round (List.mem_range.mp (by simpa using hround))).resolve_left (hne round)
        simpa using hmem
      · intro round hround round' hround' heq
        have hlt : round < streamIds.length + 1 := by simpa using hround
        have hlt' : round' < streamIds.length + 1 := by simpa using hround'
        exact hat.injOn (by omega) (by omega) heq
    have hlen := streamIds.toFinset_card_le
    rw [Finset.card_range] at hcard
    omega

/-- A call gives an id whenever one is free. -/
theorem next_of_free (hat : supplier.At place) (hid : supplier.IsId id) (hfree : id ∉ streamIds) :
    ∃ id' supplier', supplier.next streamIds = some (id', supplier') := by
  obtain ⟨round, hround, hfound⟩ := hat.exists_free_round hid hfree
  exact nextLoop_of_free hround hfound

/-- What a call gives is an id, and the supplier stands at it. -/
theorem of_next (hat : supplier.At place) {supplier' : ReactiveStreamIdSupplier}
    (h : supplier.next streamIds = some (id, supplier')) :
    supplier.IsId id ∧ supplier'.initial = supplier.initial ∧ ∃ place', supplier'.At place' := by
  obtain ⟨round, rfl, rfl⟩ := eq_of_nextLoop h
  obtain ⟨hthere, hinit⟩ := hat.advance_iterate round
  have hid := hthere.isId
  rw [IsId, hinit] at hid
  exact ⟨hid, hinit, _, hthere⟩

end At

/-! ## Any calls -/

/-- A call with the ids of the streams there are. -/
def call (supplier : ReactiveStreamIdSupplier) (streamIds : List ℤ) :
    Option ReactiveStreamIdSupplier :=
  (supplier.next streamIds).map Prod.snd

/-- After any calls the supplier stands on its cycle. -/
theorem at_of_run (horigin : origin.At 0) {calls : List (List ℤ)}
    (hrun : run call origin calls = some supplier) :
    supplier.initial = origin.initial ∧ ∃ place, supplier.At place := by
  refine run_invariant (fun supplier : ReactiveStreamIdSupplier =>
    supplier.initial = origin.initial ∧ ∃ place, supplier.At place) ?_ ⟨rfl, 0, horigin⟩ hrun
  rintro supplier streamIds supplier' ⟨hinit, place, hat⟩ hcall
  obtain ⟨⟨id, next⟩, hnext, rfl⟩ := Option.map_eq_some_iff.mp hcall
  obtain ⟨-, hinit', hat'⟩ := hat.of_next hnext
  exact ⟨hinit'.trans hinit, hat'⟩

/-- The ids of a peer: odd ones for a client, even ones for a server. -/
structure Suits (origin : ReactiveStreamIdSupplier) (id : ℤ) : Prop where
  pos : 0 < id
  le_mask : id ≤ reactiveStreamIdMask
  odd_of_client : origin = client → Odd id
  even_of_server : origin = server → Even id

theorem suits_iff_isId (horigin : origin = client ∨ origin = server) {id : ℤ} :
    origin.Suits id ↔ origin.IsId id := by
  rcases horigin with rfl | rfl
  · have hparity : client.initial % 2 = 1 := rfl
    rw [IsId, hparity, ← Int.odd_iff]
    constructor
    · rintro ⟨hpos, hle, hodd, -⟩
      exact ⟨hpos, hle, hodd rfl⟩
    · rintro ⟨hpos, hle, hodd⟩
      exact ⟨hpos, hle, fun _ => hodd, nofun⟩
  · have hparity : server.initial % 2 = 0 := rfl
    rw [IsId, hparity, ← Int.even_iff]
    constructor
    · rintro ⟨hpos, hle, -, heven⟩
      exact ⟨hpos, hle, heven rfl⟩
    · rintro ⟨hpos, hle, heven⟩
      exact ⟨hpos, hle, nofun, fun _ => heven⟩

/-- After any calls of a client's or a server's supplier with any maps, the next call ends whenever
an id of the peer is free, however often the ids were gone through: the rounds that `next` allows
are enough, and no more are taken. The id it gives is free and one of the peer's. -/
theorem next_of_run {origin supplier : ReactiveStreamIdSupplier}
    (horigin : origin = client ∨ origin = server) {calls : List (List ℤ)}
    (hrun : run call origin calls = some supplier) (streamIds : List ℤ) :
    ((∃ id, origin.Suits id ∧ id ∉ streamIds) →
      ∃ id supplier', ∀ bound ≥ streamIds.length + 1,
        nextLoop streamIds bound supplier = some (id, supplier')) ∧
    ∀ id supplier', supplier.next streamIds = some (id, supplier') →
      origin.Suits id ∧ id ∉ streamIds := by
  have horigin_at : origin.At 0 := by
    rcases horigin with rfl | rfl
    · exact client_at
    · exact server_at
  obtain ⟨hinitial, place, hat⟩ := at_of_run horigin_at hrun
  -- The ids of the supplier are those of the role, wherever it stands.
  have hids : ∀ id, origin.Suits id ↔ supplier.IsId id := by
    intro id
    rw [suits_iff_isId horigin, IsId, IsId, hinitial]
  constructor
  · rintro ⟨id, hid, hfree⟩
    obtain ⟨id', supplier', hnext⟩ := hat.next_of_free ((hids id).mp hid) hfree
    exact ⟨id', supplier', fun bound hbound => nextLoop_mono hbound hnext⟩
  · intro id supplier' hnext
    exact ⟨(hids id).mpr (hat.of_next hnext).1, notMem_of_next hnext⟩

theorem next_of_run_client :
    ∃ id supplier', ∀ bound ≥ [(1 : ℤ), 3].length + 1,
      nextLoop [1, 3] bound client = some (id, supplier') :=
  (next_of_run (.inl rfl) (run_nil client) [1, 3]).1
    ⟨5, ⟨by decide, by decide, fun _ => by decide, nofun⟩, by decide⟩

/-- After the last id come the first that are free. -/
example : (⟨reactiveStreamIdMask, reactiveClientInitialStreamId⟩ : ReactiveStreamIdSupplier).next
    [1, 5] = some (3, ⟨3, reactiveClientInitialStreamId⟩) := by decide

end ReactiveStreamIdSupplier

end FengShui.Reactive
