import FengShui.Transport.EventMap

/-!
# Cancels from the table of events (`transport/transport.c`, `transport/maps.h`)

A deletion is a step of a resize too, and where a resize ends between two deletions, the numbers
that are left are those of slots of the table before. `cancels_of_inPlace` says when exactly the
selected events are the ones that go, and that elsewhere a number is used on another table than its
own.
-/

namespace FengShui.Transport

open FengShui.Transition FengShui.OpenAddressing FengShui.SimpleMap FengShui.SimpleMap.Map

namespace EventMap

variable {map next : Map Node}

/-! ## What is cancelled -/

/-- There is one cancel for each node of the descriptor and exactly these nodes go, or the ring is
full and the events are as they were. -/
def CancelsFd (fd free : ℕ) (map : Map Node) (done : Bool) (prepared : List ℕ) (next : Map Node) :
    Prop :=
  done = true ∧ prepared = (map.nodes.filter fun node => node.fd = fd).map Node.data ∧
      Removes (map.nodes.filter fun node => node.fd = fd) map next ∨
    done = false ∧ free < (map.nodes.filter fun node => node.fd = fd).length ∧ next = map

/-- Exactly the nodes go for which there is a cancel. -/
def CancelsPrepared (map : Map Node) (prepared : List ℕ) (next : Map Node) : Prop :=
  (∀ data ∈ prepared, ∃ node ∈ map.nodes, node.data = data) ∧
    Removes (map.nodes.filter fun node => node.data ∈ prepared) map next

/-- The events of a descriptor: the call ends, and cancels them in place or returns with the map as
it was. -/
theorem exists_cancelsFd (h : map.Valid) (fd free : ℕ) :
    ∃ done prepared next, cancelByFd map fd free = some (done, prepared, next) ∧
      (free < (ofFd map fd).length ∨ InPlace map (ofFd map fd).length →
        CancelsFd fd free map done prepared next) := by
  rcases lt_or_ge free (ofFd map fd).length with hlt | hge
  · refine ⟨false, _, map, cancelByFd_of_lt hlt, fun _ => .inr ⟨rfl, ?_, rfl⟩⟩
    rwa [← length_ofFd]
  · by_cases hplace : InPlace map (ofFd map fd).length
    · obtain ⟨next, hcancel, hvalid, hperm⟩ := exists_cancelByFd h hge hplace
      exact ⟨true, _, next, hcancel, fun _ => .inl ⟨rfl, rfl, h.removes hvalid hperm⟩⟩
    · obtain ⟨next, hrun, -⟩ := h.exists_run ((ofFd map fd).map Prod.fst)
      refine ⟨true, _, next, by rw [cancelByFd_of_le hge, hrun]; rfl, fun hor => ?_⟩
      exact absurd (hor.resolve_left (not_lt.mpr hge)) hplace

/-- The nodes with a cancel are those that were due. -/
theorem filter_prepared_perm (h : map.Valid) (now : ℕ → ℕ) (free : ℕ) :
    (map.nodes.filter fun node => node.data ∈ (due map now free).map fun entry => entry.2.data).Perm
      ((due map now free).map Prod.snd) := by
  have hdue : ((due map now free).map Prod.snd).Sublist map.nodes := by
    rw [← foreach_snd]
    exact (sublist_due map now free).map _
  refine (List.perm_ext_iff_of_nodup (h.nodup.filter _) (h.nodup.sublist hdue)).mpr fun node => ?_
  rw [List.mem_filter, decide_eq_true_iff]
  constructor
  · rintro ⟨hnode, hdata⟩
    obtain ⟨entry, hent, hsame⟩ := List.mem_map.mp hdata
    obtain rfl : entry.2 = node := h.eq_of_key (mem_due hent).1 hnode hsame
    exact List.mem_map_of_mem hent
  · intro hmem
    obtain ⟨entry, hent, rfl⟩ := List.mem_map.mp hmem
    exact ⟨(mem_due hent).1, List.mem_map_of_mem hent⟩

/-- A check ends, and in place exactly the nodes with a cancel go. -/
theorem exists_cancelsPrepared (h : map.Valid) (now : ℕ → ℕ) (free : ℕ) :
    ∃ prepared next, checkEventTimeouts map now free = some (prepared, next) ∧
      (InPlace map (due map now free).length → CancelsPrepared map prepared next) := by
  by_cases hplace : InPlace map (due map now free).length
  · obtain ⟨next, hcheck, hvalid, hperm⟩ := exists_checkEventTimeouts h hplace
    refine ⟨_, next, hcheck, fun _ => ⟨fun data hdata => ?_, h.removes hvalid ?_⟩⟩
    · obtain ⟨entry, hent, rfl⟩ := List.mem_map.mp hdata
      exact ⟨entry.2, (mem_due hent).1, rfl⟩
    · exact hperm.trans ((filter_prepared_perm h now free).symm.append_right _)
  · obtain ⟨next, hrun, -⟩ := h.exists_run ((due map now free).map Prod.fst)
    exact ⟨_, next, by rw [checkEventTimeouts_eq, hrun]; rfl, fun hin => absurd hin hplace⟩

/-- Both calls end in every state of the events. They cancel exactly what is selected where the ring
is full (the one that returns then) or the deletions are in place. Where they are not, a slot number
is used on a table that is not the one that was searched. -/
theorem cancels_of_inPlace (map : Map Node) (h : map.Valid) :
    (∀ fd free, ∃ done prepared next, cancelByFd map fd free = some (done, prepared, next) ∧
      (free < (ofFd map fd).length ∨ InPlace map (ofFd map fd).length →
        CancelsFd fd free map done prepared next)) ∧
    (∀ now free, ∃ prepared next, checkEventTimeouts map now free = some (prepared, next) ∧
      (InPlace map (due map now free).length → CancelsPrepared map prepared next)) ∧
    ∀ selected : List (ℕ × Node), selected.Sublist map.foreach →
      (Current map (selected.map Prod.fst) ↔ InPlace map selected.length) :=
  ⟨exists_cancelsFd h, exists_cancelsPrepared h, fun _ hselected => h.current_iff hselected⟩

/-! ## A resize that ends between two deletions

A client with the descriptor 9 reads, 271 servers accept, all but the last of them are closed, and
the client writes. That is one slot too many in use, so the resize has begun, and its next step ends
it. -/

/-- `TRANSPORT_EVENT_READ | TRANSPORT_EVENT_CLIENT`. -/
def read : Node := ⟨9 * 2 ^ 32 + 65, -1, 0, 9⟩

/-- `TRANSPORT_EVENT_WRITE | TRANSPORT_EVENT_CLIENT`, of the buffer 73. -/
def written : Node := ⟨9 * 2 ^ 32 + 73 * 2 ^ 16 + 66, -1, 0, 9⟩

/-- `TRANSPORT_EVENT_ACCEPT | TRANSPORT_EVENT_SERVER`, of the last server. -/
def accepting : Node := ⟨370 * 2 ^ 32 + 272, -1, 0, 370⟩

/-- A slot of the table. The path of the accepts is `272, 156, 40, …`, and 57 is the inverse of its
step. -/
def tableSlot (index : ℕ) : Slot Node where
  node :=
    if index = 65 then some read else if index = 272 then some written
    else if index = 345 then some accepting else none
  dirty := (index + 117) * 57 % 389 < 271

def shadowSlot (index : ℕ) : Slot Node where
  node := if index = 65 then some read else if index = 245 then some written else none
  dirty := false

def crowded : Map Node where
  table := ⟨(List.range 389).map tableSlot, 272, 3⟩
  shadow := ⟨(List.range 769).map shadowSlot, 2, 2⟩
  prime := 7
  resizeCnt := 1
  resizePosition := 256
  batch := 256

theorem slotAt_table (index : ℕ) : slotAt crowded.table.slots index =
    if index < 389 then tableSlot index else ⟨none, false⟩ := by
  unfold crowded
  rw [slotAt_map_range]

theorem slotAt_shadow (index : ℕ) : slotAt crowded.shadow.slots index =
    if index < 769 then shadowSlot index else ⟨none, false⟩ := by
  unfold crowded
  rw [slotAt_map_range]

theorem nBuckets_table : crowded.table.nBuckets = 389 := by
  unfold Table.nBuckets crowded
  rw [List.length_map, List.length_range]

theorem nBuckets_shadow : crowded.shadow.nBuckets = 769 := by
  unfold Table.nBuckets crowded
  rw [List.length_map, List.length_range]

theorem tableSlot_cases {index : ℕ} {node : Node}
    (h : (slotAt crowded.table.slots index).node = some node) :
    index = 65 ∧ node = read ∨ index = 272 ∧ node = written ∨ index = 345 ∧ node = accepting := by
  rw [slotAt_table] at h
  unfold tableSlot at h
  split_ifs at h with hlt hread hwritten hacc <;> cases h
  · exact .inl ⟨hread, rfl⟩
  · exact .inr (.inl ⟨hwritten, rfl⟩)
  · exact .inr (.inr ⟨hacc, rfl⟩)

theorem shadowSlot_cases {index : ℕ} {node : Node}
    (h : (slotAt crowded.shadow.slots index).node = some node) :
    index = 65 ∧ node = read ∨ index = 245 ∧ node = written := by
  rw [slotAt_shadow] at h
  unfold shadowSlot at h
  split_ifs at h with hlt hread hwritten <;> cases h
  · exact .inl ⟨hread, rfl⟩
  · exact .inr ⟨hwritten, rfl⟩

theorem dirty_accepts {before : ℕ} (h : before < 271) :
    (slotAt crowded.table.slots (Table.path Node 389 accepting.data before)).dirty = true := by
  have hpath : Table.path Node 389 accepting.data before = (272 + before * 273) % 389 := rfl
  -- The step is 273, and `273 * 57 = 40 * 389 + 1`.
  have hsum : (272 + before * 273 + 117) * 57 = before + 389 * (57 + 40 * before) := by omega
  have hplace : ((272 + before * 273) % 389 + 117) * 57 % 389 < 271 := by
    rwa [Nat.mul_mod, Nat.mod_add_mod, ← Nat.mul_mod, hsum, Nat.add_mul_mod_self_left,
      Nat.mod_eq_of_lt (h.trans (by decide))]
  rw [hpath, slotAt_table, if_pos (Nat.mod_lt _ (by decide))]
  unfold tableSlot
  dsimp only
  exact decide_eq_true hplace

/-- What is counted over the slots, and what a close of 9 with room for two cancels leaves. -/
theorem counts_crowded :
    (crowded.table.nDirty = crowded.table.slots.countP Slot.used ∧
      crowded.table.size = crowded.table.slots.countP Slot.exist) ∧
    (crowded.shadow.nDirty = crowded.shadow.slots.countP Slot.used ∧
      crowded.shadow.size = crowded.shadow.slots.countP Slot.exist) ∧
    (crowded.resizePosition < crowded.table.nBuckets ∧
      crowded.shadow.nDirty + (crowded.table.slots.drop crowded.resizePosition).countP Slot.exist +
        2 * (crowded.steps + 0) + 1 ≤ crowded.shadow.upperBound ∧
      crowded.table.nDirty + crowded.steps + 0 < crowded.table.nBuckets) ∧
    ((ofFd crowded 370).length = 1 ∧ InPlace crowded 1) ∧
    ((cancelByFd crowded 9 2).any fun cancelled =>
      cancelled.1 && decide (accepting ∉ cancelled.2.2.nodes)) = true := by
  decide +kernel

theorem sound_table : crowded.table.Sound where
  prime := by
    rw [nBuckets_table]
    exact prime_of_index (by decide : 6 < 29)
  lt := by
    rw [nBuckets_table]
    exact lt_of_index (by decide : 6 < 29)
  chained := by
    rw [nBuckets_table]
    intro index node hnode
    have hlen : crowded.table.slots.length = 389 := nBuckets_table
    rw [hlen]
    rcases tableSlot_cases hnode with ⟨rfl, rfl⟩ | ⟨rfl, rfl⟩ | ⟨rfl, rfl⟩
    · exact ⟨0, by decide, rfl, fun _ hlt => absurd hlt (Nat.not_lt_zero _)⟩
    · exact ⟨0, by decide, rfl, fun _ hlt => absurd hlt (Nat.not_lt_zero _)⟩
    · exact ⟨271, by decide, rfl, fun _ hlt => dirty_accepts hlt⟩
  distinct := by
    intro index other node node' hnode hnode' hkey
    rcases tableSlot_cases hnode with ⟨rfl, rfl⟩ | ⟨rfl, rfl⟩ | ⟨rfl, rfl⟩ <;>
      rcases tableSlot_cases hnode' with ⟨rfl, rfl⟩ | ⟨rfl, rfl⟩ | ⟨rfl, rfl⟩ <;>
        first | rfl | exact absurd hkey (by decide)
  nDirty := counts_crowded.1.1
  size := counts_crowded.1.2

theorem sound_shadow : crowded.shadow.Sound where
  prime := by
    rw [nBuckets_shadow]
    exact prime_of_index (by decide : 7 < 29)
  lt := by
    rw [nBuckets_shadow]
    exact lt_of_index (by decide : 7 < 29)
  chained := by
    rw [nBuckets_shadow]
    intro index node hnode
    have hlen : crowded.shadow.slots.length = 769 := nBuckets_shadow
    rw [hlen]
    rcases shadowSlot_cases hnode with ⟨rfl, rfl⟩ | ⟨rfl, rfl⟩
    · exact ⟨0, by decide, rfl, fun _ hlt => absurd hlt (Nat.not_lt_zero _)⟩
    · exact ⟨0, by decide, rfl, fun _ hlt => absurd hlt (Nat.not_lt_zero _)⟩
  distinct := by
    intro index other node node' hnode hnode' hkey
    rcases shadowSlot_cases hnode with ⟨rfl, rfl⟩ | ⟨rfl, rfl⟩ <;>
      rcases shadowSlot_cases hnode' with ⟨rfl, rfl⟩ | ⟨rfl, rfl⟩ <;>
        first | rfl | exact absurd hkey (by decide)
  nDirty := counts_crowded.2.1.1
  size := counts_crowded.2.1.2

theorem mem_crowded :
    read ∈ crowded.nodes ∧ written ∈ crowded.nodes ∧ accepting ∈ crowded.nodes := by
  refine ⟨mem_nodes.mpr ⟨65, ?_⟩, mem_nodes.mpr ⟨272, ?_⟩, mem_nodes.mpr ⟨345, ?_⟩⟩ <;>
    rw [slotAt_table] <;> rfl

theorem valid_crowded : crowded.Valid := by
  obtain ⟨-, -, ⟨hlt, hroom, hfull⟩, -⟩ := counts_crowded
  refine .inr ⟨⟨sound_table, sound_shadow, hlt, le_rfl, by decide, nBuckets_shadow,
    fun node hnode => ?_, fun index hidx node hnode => ?_, hroom, hfull⟩, by decide⟩
  · obtain ⟨index, hslot⟩ := mem_entries.mp hnode
    rcases shadowSlot_cases hslot with ⟨-, rfl⟩ | ⟨-, rfl⟩
    · exact mem_crowded.1
    · exact mem_crowded.2.1
  · rcases tableSlot_cases hnode with ⟨rfl, rfl⟩ | ⟨rfl, rfl⟩ | ⟨rfl, rfl⟩
    · refine mem_entries.mpr ⟨65, ?_⟩
      rw [slotAt_shadow]
      rfl
    · exact absurd hidx (by decide)
    · exact absurd hidx (by decide)

/-- The accept of the last server is cancelled in place: the resize ends with its deletion. -/
theorem cancels_of_inPlace_crowded :
    (∃ done prepared next, cancelByFd crowded 370 1 = some (done, prepared, next) ∧
      CancelsFd 370 1 crowded done prepared next) ∧ Current crowded [345] := by
  obtain ⟨hcancel, -, hcurrent⟩ := cancels_of_inPlace crowded valid_crowded
  obtain ⟨-, -, -, ⟨hlength, hplace⟩, -⟩ := counts_crowded
  constructor
  · obtain ⟨done, prepared, next, heq, hcancels⟩ := hcancel 370 1
    exact ⟨done, prepared, next, heq, hcancels (.inr (hlength ▸ hplace))⟩
  · refine (hcurrent [(345, accepting)] (List.singleton_sublist.mpr (mem_foreach.mpr ?_))).mpr
      hplace
    rw [slotAt_table]
    rfl

/-- The number of the slot of the write is that of the slot of the accept in the table behind the
resize. -/
theorem not_cancels : ¬∀ map : Map Node, map.Valid →
    (∀ fd free, ∃ done prepared next, cancelByFd map fd free = some (done, prepared, next) ∧
      CancelsFd fd free map done prepared next) ∧
    ∀ now free, ∃ prepared next, checkEventTimeouts map now free = some (prepared, next) ∧
      CancelsPrepared map prepared next := by
  intro h
  obtain ⟨done, prepared, next, hcancel, hexact⟩ := (h crowded valid_crowded).1 9 2
  obtain ⟨-, -, -, -, hlost⟩ := counts_crowded
  rw [hcancel, Option.any_some, Bool.and_eq_true, decide_eq_true_iff] at hlost
  rcases hexact with ⟨-, -, hnodes, -⟩ | ⟨hdone, -⟩
  · refine hlost.2 ((hnodes accepting).mpr ⟨mem_crowded.2.2, fun hmem => ?_⟩)
    exact absurd (List.mem_filter.mp hmem).2 (by decide)
  · rw [hdone] at hlost
    cases hlost.1

end EventMap

end FengShui.Transport
