import FengShui.Transport.EventMap

/-!
# Timeouts under a clock that is set back (`transport/transport.c`, `transport/maps.h`)

`transport_add_event` stores the reading of the clock as an unsigned number. In
`current_time - timestamp > timeout` all three become unsigned, so that a start in the future is far
in the past. `cancels_overdue_iff` says which entries the comparison judges as the integers do, and
that exactly what is overdue is cancelled where these are all that come to be judged.
-/

namespace FengShui.Transport

open FengShui.Transition FengShui.OpenAddressing FengShui.SimpleMap FengShui.SimpleMap.Map List

/-- The conversion of a `time_t` to an unsigned number. -/
def toUnsigned (reading : Int64) : ℕ := reading.toUInt64.toNat

/-- The node that `transport_add_event` puts, with what `time(NULL)` returns. -/
def eventNode (fd : ℕ) (data : UInt64) (timeout start : Int64) : Node :=
  ⟨data.toNat, timeout.toInt, toUnsigned start, fd⟩

/-- The reading that the timestamp was converted from. -/
def Node.start (node : Node) : ℤ := (node.timestamp : ℤ).bmod (2 ^ 64)

/-- The fields of the node have their types. -/
def Node.Made (node : Node) : Prop :=
  ∃ fd data timeout start, node = eventNode fd data timeout start

/-- More time than the timeout is over, in integers. -/
def overdue (now : Int64) (node : Node) : Bool :=
  0 ≤ node.timeout && node.timeout < now.toInt - node.start

/-- The unsigned comparison tells the same: there is no timeout, or the start is not in the future,
or so far that the difference comes around. A negative timeout is a large one. -/
def Judged (now : Int64) (node : Node) : Prop :=
  let elapsed := now.toInt - node.start
  node.timeout = transportTimeoutInfinity ∨
    0 ≤ node.timeout ∧ (0 ≤ elapsed ∨ elapsed ≤ node.timeout - 2 ^ 64) ∨
    node.timeout < 0 ∧ (0 ≤ elapsed ∧ elapsed ≤ node.timeout + 2 ^ 64 ∨ elapsed ≤ node.timeout)

/-! ## The comparison -/

theorem toUnsigned_eq (reading : Int64) : (toUnsigned reading : ℤ) = reading.toInt % 2 ^ 64 := by
  have hbmod : reading.toInt = Int.bmod reading.toUInt64.toNat (2 ^ 64) :=
    BitVec.toInt_eq_toNat_bmod reading.toBitVec
  have hlt := reading.toUInt64.toNat_lt
  calc (toUnsigned reading : ℤ) = (reading.toUInt64.toNat : ℤ) % (2 ^ 64 : ℕ) := by
        unfold toUnsigned
        omega
    _ = Int.bmod reading.toUInt64.toNat (2 ^ 64) % (2 ^ 64 : ℕ) := Int.bmod_emod.symm
    _ = reading.toInt % 2 ^ 64 := by
        rw [← hbmod]
        norm_cast

theorem start_eventNode (fd : ℕ) (data : UInt64) (timeout start : Int64) :
    (eventNode fd data timeout start).start = start.toInt :=
  (BitVec.toInt_eq_toNat_bmod start.toBitVec).symm

/-- The difference of the unsigned numbers is that of the readings, modulo `2^64`. -/
theorem expired_eventNode (now : Int64) (fd : ℕ) (data : UInt64) (timeout start : Int64) :
    EventMap.expired (toUnsigned now) (eventNode fd data timeout start) = true ↔
      timeout.toInt ≠ transportTimeoutInfinity ∧
        timeout.toInt % 2 ^ 64 < (now.toInt - start.toInt) % 2 ^ 64 := by
  have hdiff : ((toUnsigned now : ℤ) - toUnsigned start) % 2 ^ 64 =
      (now.toInt - start.toInt) % 2 ^ 64 := by
    rw [toUnsigned_eq, toUnsigned_eq, ← Int.sub_emod]
  unfold EventMap.expired eventNode
  rw [Bool.and_eq_true, decide_eq_true_iff, decide_eq_true_iff, hdiff]

section Node

variable {now : Int64} {node : Node}

theorem overdue_iff : overdue now node = true ↔
    0 ≤ node.timeout ∧ node.timeout < now.toInt - node.start := by
  unfold overdue
  rw [Bool.and_eq_true, decide_eq_true_iff, decide_eq_true_iff]

/-- What is overdue is always cancelled. -/
theorem Node.Made.expired_of_overdue (h : node.Made) (hoverdue : overdue now node = true) :
    EventMap.expired (toUnsigned now) node = true := by
  obtain ⟨fd, data, timeout, start, rfl⟩ := h
  have hnow := now.toInt_lt
  have hstart := start.le_toInt
  rw [overdue_iff, start_eventNode] at hoverdue
  obtain ⟨hfinite, hless⟩ := hoverdue
  have htimeout := timeout.toInt_lt
  unfold eventNode at hfinite hless
  dsimp only at hfinite hless
  rw [expired_eventNode]
  unfold transportTimeoutInfinity
  -- The timeout and the time that is over are both below `2^64`, and not negative.
  omega

/-- What is cancelled is overdue exactly where the entry is judged as by the integers. -/
theorem Node.Made.judged_iff (h : node.Made) :
    (EventMap.expired (toUnsigned now) node = true → overdue now node = true) ↔
      Judged now node := by
  obtain ⟨fd, data, timeout, start, rfl⟩ := h
  have hnow := now.toInt_lt
  have hnow' := now.le_toInt
  have hstart := start.toInt_lt
  have hstart' := start.le_toInt
  have htimeout := timeout.toInt_lt
  have htimeout' := timeout.le_toInt
  rw [expired_eventNode, overdue_iff]
  unfold Judged
  rw [start_eventNode]
  unfold eventNode transportTimeoutInfinity
  dsimp only
  -- Either residue is the number itself, or `2^64` more where that is negative.
  omega

end Node

/-! ## The first elements of a kind -/

section Lists

variable {α β : Type} {first : α} {list : List α}

theorem forall_split_cons {P : List α → α → Prop} :
    (∀ front x back, first :: list = front ++ x :: back → P front x) ↔
      P [] first ∧ ∀ front x back, list = front ++ x :: back → P (first :: front) x := by
  constructor
  · intro h
    exact ⟨h [] first list rfl, fun front x back heq => h (first :: front) x back (congrArg _ heq)⟩
  · rintro ⟨hfirst, hrest⟩ front x back heq
    cases front with
    | nil =>
      obtain ⟨rfl, -⟩ := List.cons.inj heq
      exact hfirst
    | cons other front =>
      obtain ⟨rfl, htail⟩ := List.cons.inj heq
      exact hrest front x back htail

/-- A list has the same first elements by a wider condition if and only if nothing else meets that
one while the elements in front are fewer. -/
theorem map_take_filter_eq_iff {wide narrow : α → Bool} {f : α → β}
    (hle : ∀ x ∈ list, narrow x = true → wide x = true)
    (hinj : ∀ x ∈ list, ∀ y ∈ list, f x = f y → x = y) (count : ℕ) :
    ((list.filter wide).take count).map f = ((list.filter narrow).take count).map f ↔
      ∀ front x back, list = front ++ x :: back → (front.filter narrow).length < count →
        wide x = true → narrow x = true := by
  induction list generalizing count with
  | nil =>
    refine iff_of_true rfl fun front x back h => ?_
    simp at h
  | cons first list ih =>
    have hrest := ih (fun x hx => hle x (mem_cons_of_mem first hx)) fun x hx y hy =>
      hinj x (mem_cons_of_mem first hx) y (mem_cons_of_mem first hy)
    rw [forall_split_cons (P := fun front x => (front.filter narrow).length < count →
      wide x = true → narrow x = true)]
    cases hnarrow : narrow first with
    | true =>
      have hwide := hle first mem_cons_self hnarrow
      rw [filter_cons_of_pos hwide, filter_cons_of_pos hnarrow]
      cases count with
      | zero =>
        exact iff_of_true rfl ⟨fun _ _ => rfl, fun _ _ _ _ h => absurd h (Nat.not_lt_zero _)⟩
      | succ count =>
        rw [take_succ_cons, take_succ_cons, map_cons, map_cons,
          cons_inj_right, hrest count]
        constructor
        · intro h
          refine ⟨fun _ _ => rfl, fun front x back heq hless => h front x back heq ?_⟩
          rw [filter_cons_of_pos hnarrow, length_cons] at hless
          omega
        · rintro ⟨-, h⟩ front x back heq hless
          apply h front x back heq
          rw [filter_cons_of_pos hnarrow, length_cons]
          omega
    | false =>
      have hnarrow' : ¬narrow first = true := Bool.not_eq_true _ ▸ hnarrow
      have hskip (front : List α) : (first :: front).filter narrow = front.filter narrow :=
        filter_cons_of_neg hnarrow'
      simp only [hskip]
      cases hwide : wide first with
      | false =>
        rw [filter_cons_of_neg (Bool.not_eq_true _ ▸ hwide), hrest count]
        exact (and_iff_right nofun).symm
      | true =>
        rw [filter_cons_of_pos hwide]
        cases count with
        | zero =>
          exact iff_of_true rfl ⟨fun h => absurd h (Nat.not_lt_zero _),
            fun _ _ _ _ h => absurd h (Nat.not_lt_zero _)⟩
        | succ count =>
          -- The first element takes a place that only a narrow one may have.
          refine iff_of_false (fun heq => ?_) fun h => ?_
          · rw [take_succ_cons, map_cons] at heq
            have hmem : f first ∈ ((list.filter narrow).take (count + 1)).map f :=
              heq ▸ mem_cons_self
            obtain ⟨x, hx, hsame⟩ := mem_map.mp hmem
            obtain ⟨hx, hxnarrow⟩ := mem_filter.mp (mem_of_mem_take hx)
            obtain rfl := hinj x (mem_cons_of_mem first hx) first mem_cons_self hsame
            exact hnarrow' hxnarrow
          · cases h.1 (Nat.succ_pos count) rfl

end Lists

namespace EventMap

variable {map next : Map Node}

/-! ## The events in use -/

/-- What the transport does with its events. A clock is what `time(NULL)` returns at the slots. -/
inductive EventCall where
  | addEvent (fd : ℕ) (data : UInt64) (timeout start : Int64)
  | removeEvent (data : UInt64)
  | cancelByFd (fd free : ℕ)
  | checkEventTimeouts (clock : ℕ → Int64) (free : ℕ)

def call (map : Map Node) : EventCall → Option (Map Node)
  | .addEvent fd data timeout start => map.putCopy (eventNode fd data timeout start)
  | .removeEvent data => removeEvent map data.toNat
  | .cancelByFd fd free => (cancelByFd map fd free).map fun result => result.2.2
  | .checkEventTimeouts clock free =>
    (checkEventTimeouts map (fun index => toUnsigned (clock index)) free).map Prod.snd

/-- What holds of the events in use. -/
structure WellFormed (map : Map Node) : Prop where
  valid : map.Valid
  made : ∀ node ∈ map.nodes, node.Made

theorem wellFormed_create : WellFormed create where
  valid := .inl idle_create
  made node h := by
    rw [nodes_create] at h
    cases h

namespace WellFormed

theorem del {index : ℕ} (h : WellFormed map) (hdel : map.del index = some next) :
    WellFormed next := by
  cases hnode : (slotAt map.table.slots index).node with
  | none =>
    obtain rfl := Option.some.inj ((del_of_none hnode).symm.trans hdel)
    exact h
  | some node =>
    obtain ⟨after, hafter, hdeleted⟩ := h.valid.del hnode
    obtain rfl := Option.some.inj (hafter.symm.trans hdel)
    exact ⟨hdeleted.valid, fun other hother => h.made other ((hdeleted.nodes other).mp hother).1⟩

theorem run_del {indices : List ℕ} (h : WellFormed map)
    (hrun : run Map.del map indices = some next) : WellFormed next :=
  run_invariant WellFormed (fun _ _ _ hwell hdel => hwell.del hdel) h hrun

theorem putCopy {fd : ℕ} {data : UInt64} {timeout start : Int64} (h : WellFormed map)
    (hput : map.putCopy (eventNode fd data timeout start) = some next) (hprime : next.prime < 29) :
    WellFormed next := by
  obtain ⟨hvalid, hnodes⟩ := h.valid.of_putCopy hput hprime
  refine ⟨hvalid, fun node hnode => ?_⟩
  rcases (hnodes node).mp hnode with rfl | ⟨hbefore, -⟩
  · exact ⟨fd, data, timeout, start, rfl⟩
  · exact h.made node hbefore

end WellFormed

/-- All calls but one only delete slots. -/
theorem exists_run_of_call {action : EventCall} (h : call map action = some next) :
    (∃ fd data timeout start, action = .addEvent fd data timeout start) ∨
      ∃ indices, run Map.del map indices = some next := by
  cases action with
  | addEvent fd data timeout start => exact .inl ⟨fd, data, timeout, start, rfl⟩
  | removeEvent data => exact .inr (exists_run_of_removeEvent h)
  | cancelByFd fd free =>
    obtain ⟨⟨done, prepared, after⟩, hcancel, rfl⟩ := Option.map_eq_some_iff.mp h
    exact .inr (exists_run_of_cancelByFd hcancel)
  | checkEventTimeouts clock free =>
    obtain ⟨⟨prepared, after⟩, hcheck, rfl⟩ := Option.map_eq_some_iff.mp h
    exact .inr (exists_run_of_checkEventTimeouts hcheck)

theorem WellFormed.call {action : EventCall} (h : map.prime < 29 → WellFormed map)
    (hcall : EventMap.call map action = some next) (hprime : next.prime < 29) :
    WellFormed next := by
  rcases exists_run_of_call hcall with ⟨fd, data, timeout, start, rfl⟩ | ⟨indices, hrun⟩
  · have hless := (prime_of_putCopy hcall).1
    exact (h (hless.trans_lt hprime)).putCopy hcall hprime
  · exact (h (prime_of_run hrun ▸ hprime)).run_del hrun

/-- The events of a transport are so at any time, while their sizes are below `2^31`. -/
theorem wellFormed_of_reachable {capacity : ℕ} {start : Map Node}
    (hstart : (create : Map Node).reserve capacity = some start) (h : Reachable call start map)
    (hprime : map.prime < 29) : WellFormed map := by
  apply h.invariant (fun map => map.prime < 29 → WellFormed map) _ _ hprime
  · intro hless
    obtain ⟨hvalid, hnone⟩ := valid_of_reserve hstart hless
    exact ⟨hvalid, fun node hnode => absurd (hnone ▸ hnode) List.not_mem_nil⟩
  · intro state action after hwell hcall hless
    exact WellFormed.call hwell hcall hless

/-- An operation on a socket that is cancelled with it. -/
theorem wellFormed_of_reachable_canceled : ∃ map,
    run call create [.addEvent 9 7 10 100, .cancelByFd 9 1] = some map ∧ WellFormed map := by
  refine ⟨_, rfl, ?_⟩
  exact @wellFormed_of_reachable _ 0 create rfl ⟨[.addEvent 9 7 10 100, .cancelByFd 9 1], rfl⟩
    (by decide)

/-! ## What is overdue -/

/-- The cancels are those of the first overdue entries, as many as the ring has room for. No other
entry is cancelled, and so none that has not started. -/
structure CancelsOverdue (map : Map Node) (clock : ℕ → Int64) (free : ℕ) (prepared : List ℕ) :
    Prop where
  overdue : prepared =
    ((map.foreach.filter fun entry => overdue (clock entry.1) entry.2).take free).map
      fun entry => entry.2.data
  future : ∀ entry ∈ map.foreach, (clock entry.1).toInt < entry.2.start → entry.2.data ∉ prepared

/-- Entries of one user data are one. -/
theorem WellFormed.entry_eq (h : WellFormed map) {entry other : ℕ × Node}
    (hent : entry ∈ map.foreach)
    (hother : other ∈ map.foreach) (hdata : entry.2.data = other.2.data) : entry = other := by
  have hnode : entry.2 ∈ map.nodes := mem_nodes.mpr ⟨entry.1, mem_foreach.mp hent⟩
  have hnode' : other.2 ∈ map.nodes := mem_nodes.mpr ⟨other.1, mem_foreach.mp hother⟩
  have hnodup : (map.foreach.map Prod.snd).Nodup := foreach_snd ▸ h.valid.nodup
  exact inj_on_of_nodup_map hnodup hent hother (h.valid.eq_of_key hnode hnode' hdata)

/-- What has not started is not overdue. -/
theorem not_overdue_of_future {now : Int64} {node : Node} (h : now.toInt < node.start) :
    ¬overdue now node = true := by
  rw [overdue_iff]
  omega

theorem WellFormed.cancelsOverdue_iff (h : WellFormed map) (clock : ℕ → Int64) (free : ℕ)
    (prepared : List ℕ) : CancelsOverdue map clock free prepared ↔ prepared =
      ((map.foreach.filter fun entry => overdue (clock entry.1) entry.2).take free).map
        fun entry => entry.2.data := by
  refine ⟨CancelsOverdue.overdue, fun hoverdue => ⟨hoverdue, fun entry hent hfuture hdata => ?_⟩⟩
  rw [hoverdue] at hdata
  obtain ⟨other, hother, hsame⟩ := mem_map.mp hdata
  obtain ⟨hother, hlate⟩ := mem_filter.mp (mem_of_mem_take hother)
  obtain rfl := h.entry_eq hother hent hsame
  exact not_overdue_of_future hfuture hlate

/-- Exactly what is overdue is cancelled if and only if the comparison tells the same as the
integers of every entry that has fewer overdue entries in front of it than the ring has room for. -/
theorem cancels_overdue_iff (map : Map Node) (h : WellFormed map) (clock : ℕ → Int64) (free : ℕ) :
    ∃ prepared next,
      checkEventTimeouts map (fun index => toUnsigned (clock index)) free = some (prepared, next) ∧
        (CancelsOverdue map clock free prepared ↔
          ∀ front entry back, map.foreach = front ++ entry :: back →
            (front.filter fun entry => overdue (clock entry.1) entry.2).length < free →
              Judged (clock entry.1) entry.2) := by
  obtain ⟨next, hrun, -⟩ := h.valid.exists_run
    ((due map (fun index => toUnsigned (clock index)) free).map Prod.fst)
  have hmade (entry : ℕ × Node) (hentry : entry ∈ map.foreach) : entry.2.Made :=
    h.made entry.2 (mem_nodes.mpr ⟨entry.1, mem_foreach.mp hentry⟩)
  -- The scan takes what has expired, and no deletion fails.
  refine ⟨_, next, by rw [checkEventTimeouts_eq, hrun]; rfl, ?_⟩
  rw [h.cancelsOverdue_iff]
  refine (map_take_filter_eq_iff (fun entry hentry => (hmade entry hentry).expired_of_overdue)
    (fun entry hentry other hother => h.entry_eq hentry hother) free).trans ?_
  refine forall₃_congr fun front entry back => forall₂_congr fun heq _ => ?_
  exact (hmade entry (by rw [heq]; simp)).judged_iff

/-! ## A clock that is set back

A read begins at 100 with a timeout of 10, and the clock is set back to 99. -/

/-- The table with the node of the read. -/
def reading : Map Node where
  table := ⟨[⟨none, false⟩, ⟨some (eventNode 9 7 10 100), false⟩, ⟨none, false⟩], 1, 1⟩
  shadow := ⟨[], 0, 0⟩
  prime := 0
  resizeCnt := 0
  resizePosition := 0
  batch := 0

theorem wellFormed_reading : WellFormed reading := by
  have hput : (create : Map Node).putCopy (eventNode 9 7 10 100) = some reading := by decide
  exact wellFormed_create.putCopy hput (by decide)

/-- At 111 the read is overdue. -/
theorem cancels_overdue_iff_reading : ∃ prepared next,
    checkEventTimeouts reading (fun _ => toUnsigned 111) 1 = some (prepared, next) ∧
      (CancelsOverdue reading (fun _ => 111) 1 prepared ↔
        ∀ front entry back, reading.foreach = front ++ entry :: back →
          (front.filter fun entry => overdue 111 entry.2).length < 1 → Judged 111 entry.2) :=
  cancels_overdue_iff reading wellFormed_reading (fun _ => 111) 1

/-- At 99 it is cancelled in front of its start. -/
theorem canceled_before_start : ¬∀ map, WellFormed map → ∀ clock free, ∃ prepared next,
    checkEventTimeouts map (fun index => toUnsigned (clock index)) free = some (prepared, next) ∧
      CancelsOverdue map clock free prepared := by
  intro h
  obtain ⟨prepared, next, hcheck, hcancels⟩ := h reading wellFormed_reading (fun _ => 99) 1
  have hprepared : (checkEventTimeouts reading (fun _ => toUnsigned 99) 1).map Prod.fst =
      some [7] := by
    decide
  rw [hcheck] at hprepared
  obtain rfl : prepared = [7] := Option.some.inj hprepared
  have hfuture := hcancels.future (1, eventNode 9 7 10 100) (by decide) (by decide)
  exact hfuture (by decide)

end EventMap

end FengShui.Transport
