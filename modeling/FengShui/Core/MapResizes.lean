import FengShui.Core.MapPrimes
import FengShui.Core.MapTables
import FengShui.Lib.Transition

/-!
# Resizing the hash map (`core/native/maps/simple.h`)

While a map is resized the shadow has nodes of the table alone, and all of those at slots that were
moved. Every step of the resize moves 256 slots at least, so there is room for a node between two
steps and the shadow never comes to its own bound: `Valid` is what `put_copy` and `del` keep.
-/

namespace FengShui.SimpleMap

open OpenAddressing Transition List

variable {κ ν : Type} [MapNode ν κ]

namespace Map

/-- The nodes of the map. -/
def nodes (map : Map ν) : List ν := entries map.table.slots

/-- How many further steps the resize takes that do not end it. -/
def steps (map : Map ν) : ℕ := (map.table.nBuckets - map.resizePosition - 1) / 256

/-- A map that is not resized, with room for so many nodes. -/
structure Idle (spare : ℕ) (map : Map ν) : Prop where
  table : map.table.Sound
  resizePosition : map.resizePosition = 0
  prime : map.prime < 29
  nBuckets : map.table.nBuckets = primeList.getD map.prime 0
  room : map.table.nDirty + spare ≤ map.table.upperBound

/-- A map that is resized, with room for so many nodes beside one for each step. -/
structure Resizing (spare : ℕ) (map : Map ν) : Prop where
  table : map.table.Sound
  shadow : map.shadow.Sound
  lt : map.resizePosition < map.table.nBuckets
  batch : 256 ≤ map.batch
  prime : map.prime < 29
  nBuckets : map.shadow.nBuckets = primeList.getD map.prime 0
  subset : ∀ node ∈ entries map.shadow.slots, node ∈ map.nodes
  moved : ∀ index < map.resizePosition, ∀ node, (slotAt map.table.slots index).node = some node →
    node ∈ entries map.shadow.slots
  room : map.shadow.nDirty + (map.table.slots.drop map.resizePosition).countP Slot.exist +
    2 * (map.steps + spare) + 1 ≤ map.shadow.upperBound
  full : map.table.nDirty + map.steps + spare < map.table.nBuckets

/-- What the operations of the map keep. -/
def Valid (map : Map ν) : Prop := Idle 0 map ∨ Resizing 0 map ∧ map.resizePosition ≠ 0

variable {map next : Map ν} {spare : ℕ}

variable {node : ν} {index : ℕ}

theorem mem_nodes : node ∈ map.nodes ↔ ∃ index, (slotAt map.table.slots index).node = some node :=
  OpenAddressing.mem_entries

theorem upperBound_lt {table : Table ν} (h : table.Sound) : table.upperBound < table.nBuckets := by
  have hone := h.one_lt
  unfold Table.upperBound
  omega

theorem upperBound_congr {table other : Table ν} (h : other.nBuckets = table.nBuckets) :
    other.upperBound = table.upperBound := by
  unfold Table.upperBound
  rw [h]

theorem Idle.mono {less : ℕ} (h : Idle spare map) (hle : less ≤ spare) : Idle less map :=
  { h with room := (Nat.add_le_add_left hle _).trans h.room }

theorem idle_create : Idle 0 (create : Map ν) where
  table := Table.sound_empty (prime_of_index (by decide)) (lt_of_index (by decide))
  resizePosition := rfl
  prime := (by decide : 0 < 29)
  nBuckets := Table.nBuckets_empty _
  room := by
    unfold Table.upperBound
    exact Nat.zero_le _

theorem Resizing.mono {less : ℕ} (h : Resizing spare map) (hle : less ≤ spare) :
    Resizing less map where
  table := h.table
  shadow := h.shadow
  lt := h.lt
  batch := h.batch
  prime := h.prime
  nBuckets := h.nBuckets
  subset := h.subset
  moved := h.moved
  room := by
    have hroom := h.room
    omega
  full := by
    have hfull := h.full
    omega

namespace Valid

theorem table (h : Valid map) : map.table.Sound := by
  rcases h with h | ⟨h, -⟩
  · exact h.table
  · exact h.table

theorem nDirty_lt (h : Valid map) : map.table.nDirty < map.table.nBuckets := by
  rcases h with h | ⟨h, -⟩
  · exact (Nat.le_add_right _ _).trans_lt (h.room.trans_lt (upperBound_lt h.table))
  · have hfull := h.full
    omega

theorem nodup (h : Valid map) : map.nodes.Nodup := h.table.nodup

variable {node : ν}

/-- Nodes of one key are one. -/
theorem eq_of_key (h : Valid map) {other : ν} (hnode : node ∈ map.nodes)
    (hother : other ∈ map.nodes) (hkey : MapNode.key node = MapNode.key other) : node = other :=
  inj_on_of_nodup_map h.table.distinct.nodup hnode hother hkey

theorem ne_iff_key (h : Valid map) {other : ν} (hnode : node ∈ map.nodes)
    (hother : other ∈ map.nodes) : MapNode.key other ≠ MapNode.key node ↔ other ≠ node :=
  not_congr ⟨fun hkey => h.eq_of_key hother hnode hkey, fun heq => by rw [heq]⟩

/-- A node is found. -/
theorem findValue [DecidableEq κ] (h : Valid map) (hnode : node ∈ map.nodes) :
    map.findValue (MapNode.key node) = some (some node) := by
  obtain ⟨index, hidx⟩ := mem_nodes.mp hnode
  unfold Map.findValue
  rw [h.table.find_of_node hidx, Option.map_some, hidx]

/-- What is not there is not. -/
theorem findValue_of_absent [DecidableEq κ] (h : Valid map) {searched : κ}
    (habsent : ∀ node ∈ map.nodes, MapNode.key node ≠ searched) :
    map.findValue searched = some none := by
  have hfind : map.table.find searched = some map.table.nBuckets := by
    refine h.table.find_of_absent h.nDirty_lt fun index hholds => ?_
    obtain ⟨node, hnode, hkey⟩ := hholds
    exact habsent node (mem_nodes.mpr ⟨index, hnode⟩) hkey
  have hbehind : slotAt map.table.slots map.table.nBuckets = ⟨none, false⟩ := slotAt_of_le le_rfl
  unfold Map.findValue
  rw [hfind, Option.map_some, hbehind]

end Valid

/-! ## The loop of a step -/

variable [DecidableEq κ]

/-- The loop puts the nodes of a batch to the shadow. -/
theorem move_eq (among : List ν) (slots : List (Slot ν)) (batch index : ℕ) {shadow : Table ν}
    (h : shadow.Sound) (hroom : shadow.nDirty + slots.countP Slot.exist < shadow.nBuckets)
    (hkeys : ∀ node ∈ among, ∀ other ∈ among, MapNode.key node = MapNode.key other → node = other)
    (hshadow : ∀ node ∈ entries shadow.slots, node ∈ among)
    (hslots : ∀ node ∈ entries slots, node ∈ among) :
    ∃ moved, move slots batch index shadow =
        some (moved, if batch < slots.length then some (index + batch) else none) ∧
      moved.Sound ∧ moved.nBuckets = shadow.nBuckets ∧
      moved.nDirty + (slots.drop batch).countP Slot.exist ≤
        shadow.nDirty + slots.countP Slot.exist ∧
      ∀ node, node ∈ entries moved.slots ↔
        node ∈ entries shadow.slots ∨ node ∈ entries (slots.take batch) := by
  induction slots generalizing batch index shadow with
  | nil =>
    refine ⟨shadow, rfl, h, rfl, ?_, fun node => ?_⟩
    · rw [drop_nil]
    · rw [take_nil]
      exact (or_iff_left not_mem_nil).symm
  | cons slot slots ih =>
    rw [entries_cons] at hslots
    cases batch with
    | zero =>
      refine ⟨shadow, rfl, h, rfl, le_rfl, fun node => ?_⟩
      rw [take_zero]
      exact (or_iff_left not_mem_nil).symm
    | succ batch =>
      have hstop :
        (if batch + 1 < (slot :: slots).length then some (index + (batch + 1)) else none) =
          if batch < slots.length then some (index + 1 + batch) else none := by
        refine if_congr ?_ (congrArg some ?_) rfl
        · exact Nat.succ_lt_succ_iff
        · omega
      have hrest : ∀ node ∈ entries slots, node ∈ among := fun node hmem =>
        hslots node (mem_append_right _ hmem)
      rw [hstop, take_succ_cons, drop_succ_cons, entries_cons]
      unfold move
      rw [countP_cons] at hroom ⊢
      cases hnode : slot.node with
      | none =>
        rw [Slot.exist_of_none hnode] at hroom ⊢
        exact ih batch (index + 1) h hroom hshadow hrest
      | some node =>
        rw [Slot.exist_of_some hnode, if_pos rfl] at hroom ⊢
        have hmem : node ∈ among := hslots node (by rw [hnode]; exact mem_cons_self)
        obtain ⟨put, after, hput, hspec⟩ := h.putSlot (by omega) node
        have hafter (other : ν) : other ∈ entries after.slots ↔
            other = node ∨ other ∈ entries shadow.slots := by
          rw [hspec.mem_entries]
          refine ⟨Or.imp_right And.left, fun hor => ?_⟩
          by_cases heq : other = node
          · exact .inl heq
          · have hold := hor.resolve_left heq
            exact .inr ⟨hold, fun hkey => heq (hkeys other (hshadow other hold) node hmem hkey)⟩
        have hdirty := hspec.nDirty
        obtain ⟨moved, hmove, hsound, hcount, hle, hents⟩ := ih batch (index + 1) hspec.sound
          (by rw [hspec.nBuckets]; omega) (fun other hother => by
            rcases (hafter other).mp hother with rfl | hold
            · exact hmem
            · exact hshadow other hold) hrest
        refine ⟨moved, ?_, hsound, hcount.trans hspec.nBuckets, by omega, fun other => ?_⟩
        · dsimp only
          rw [hput]
          exact hmove
        · rw [hents, hafter]
          simp only [Option.toList_some, singleton_append, mem_cons]
          tauto

/-! ## Steps -/

/-- A step of a resize has the same nodes. It goes on a batch, or ends the resize. -/
theorem Resizing.resize (h : Resizing spare map) :
    ∃ next, map.resize = some next ∧ next.prime = map.prime ∧
      (∀ node, node ∈ next.nodes ↔ node ∈ map.nodes) ∧
      (map.resizePosition + map.batch < map.table.nBuckets ∧ next.table = map.table ∧
          next.resizePosition = map.resizePosition + map.batch ∧ next.batch = map.batch ∧
          Resizing (spare + 1) next ∨
        map.table.nBuckets ≤ map.resizePosition + map.batch ∧ Idle (spare + 1) next) := by
  have hroom := h.room
  have hupper := upperBound_lt h.shadow
  have hlt := h.lt
  have hlen : (map.table.slots.drop map.resizePosition).length =
      map.table.nBuckets - map.resizePosition := length_drop
  obtain ⟨moved, hmove, hsound, hcount, hle, hents⟩ := move_eq map.nodes
    (map.table.slots.drop map.resizePosition) map.batch map.resizePosition h.shadow (by omega)
    (fun node hnode other hother hkey =>
      inj_on_of_nodup_map h.table.distinct.nodup hnode hother hkey)
    h.subset fun node hnode => entries_subset (drop_sublist _ _) hnode
  have hbatch := h.batch
  rw [hlen] at hmove
  unfold Map.resize
  by_cases hstop : map.batch < map.table.nBuckets - map.resizePosition
  · rw [hmove, if_pos hstop, Option.bind_eq_bind, Option.bind_some]
    dsimp only
    refine ⟨_, rfl, rfl, fun node => Iff.rfl, .inl ⟨by omega, rfl, rfl, rfl, ?_⟩⟩
    have hsteps :
      steps { map with shadow := moved, resizePosition := map.resizePosition + map.batch } +
        1 ≤ map.steps := by
      unfold steps
      dsimp only
      omega
    rw [drop_drop] at hle
    refine ⟨h.table, hsound, ?_, h.batch, h.prime, hcount.trans h.nBuckets, fun node hnode => ?_,
      fun index hidx node hnode => ?_, ?_, ?_⟩
    · dsimp only
      omega
    · rcases (hents node).mp hnode with hold | hnew
      · exact h.subset node hold
      · exact entries_subset (drop_sublist _ _) (entries_subset (take_sublist _ _) hnew)
    · rw [hents]
      rcases lt_or_ge index map.resizePosition with hbefore | hbehind
      · exact .inl (h.moved index hbefore node hnode)
      · refine .inr (OpenAddressing.mem_entries.mpr ⟨index - map.resizePosition, ?_⟩)
        dsimp only at hidx
        rw [slotAt_take (by omega), slotAt_drop_sub hbehind]
        exact hnode
    · dsimp only
      rw [upperBound_congr hcount]
      omega
    · have hfull := h.full
      dsimp only
      omega
  · rw [hmove, if_neg hstop, Option.bind_eq_bind, Option.bind_some]
    dsimp only
    have hall (node : ν) : node ∈ entries moved.slots ↔ node ∈ map.nodes := by
      rw [hents, take_of_length_le (by rw [hlen]; omega)]
      constructor
      · rintro (hold | hnew)
        · exact h.subset node hold
        · exact entries_subset (drop_sublist _ _) hnew
      · intro hnode
        obtain ⟨index, hidx⟩ := mem_nodes.mp hnode
        rcases lt_or_ge index map.resizePosition with hbefore | hbehind
        · exact .inl (h.moved index hbefore node hidx)
        · refine .inr (OpenAddressing.mem_entries.mpr ⟨index - map.resizePosition, ?_⟩)
          rw [slotAt_drop_sub hbehind]
          exact hidx
    have hperm := (perm_ext_iff_of_nodup hsound.nodup h.table.nodup).mpr hall
    have hsize : moved.size = map.table.size := by
      rw [← hsound.length_entries, ← h.table.length_entries]
      exact hperm.length_eq
    rw [if_neg (not_not.mpr hsize)]
    refine ⟨_, rfl, rfl, hall, .inr ⟨by omega, hsound, rfl, h.prime, hcount.trans h.nBuckets, ?_⟩⟩
    dsimp only
    rw [upperBound_congr hcount]
    omega

/-! ## Deleting -/

/-- A map with the node of a slot taken away. -/
structure Deleted (index : ℕ) (node : ν) (map next : Map ν) : Prop where
  prime : next.prime = map.prime
  valid : Valid next
  nodes : ∀ other, other ∈ next.nodes ↔ other ∈ map.nodes ∧ other ≠ node
  /-- The table stays in its place where the resize does not end. -/
  kept : map.resizePosition = 0 ∨ map.resizePosition + map.batch < map.table.nBuckets →
    next.table = map.table.free index ∧ next.batch = map.batch ∧
      next.resizePosition = if map.resizePosition = 0 then 0 else map.resizePosition + map.batch
  /-- Where the resize ends there is none. -/
  done : map.table.nBuckets ≤ map.resizePosition + map.batch → next.resizePosition = 0

omit [DecidableEq κ] in
theorem Valid.mem_free (h : Valid map) (hnode : (slotAt map.table.slots index).node = some node)
    (other : ν) :
    other ∈ entries (map.table.free index).slots ↔ other ∈ map.nodes ∧ other ≠ node := by
  have hmem : node ∈ map.nodes := mem_nodes.mpr ⟨index, hnode⟩
  rw [h.table.mem_entries_free hnode]
  exact and_congr_right fun hother => h.ne_iff_key hmem hother

/-- While the map is resized the node is deleted from both tables. -/
theorem Resizing.exists_del (h : Resizing 0 map) (hpos : map.resizePosition ≠ 0)
    (hnode : (slotAt map.table.slots index).node = some node) :
    ∃ y, map.shadow.get node = some y ∧
      Resizing 0 { map with table := map.table.free index, shadow := map.shadow.del y } := by
  have hmem : node ∈ map.nodes := mem_nodes.mpr ⟨index, hnode⟩
  have hvalid : Valid map := .inr ⟨h, hpos⟩
  have hroom := h.room
  have hfull := h.full
  have hfullShadow : map.shadow.nDirty < map.shadow.nBuckets := by
    have hupper := upperBound_lt h.shadow
    omega
  obtain ⟨y, hget, hsound, hcount, hle, hents⟩ := h.shadow.exists_del hfullShadow node
    fun other hother hkey => inj_on_of_nodup_map h.table.distinct.nodup (h.subset other hother)
      hmem hkey
  have hdrop := Table.count_drop_free hnode map.resizePosition
  have hdirty := Table.nDirty_free_le map.table index
  refine ⟨y, hget, h.table.free hnode, hsound, ?_, h.batch, h.prime, hcount.trans h.nBuckets,
    fun other hother => ?_, fun slot hslot other hother => ?_, ?_, ?_⟩
  · dsimp only
    rw [Table.nBuckets_free]
    exact h.lt
  · obtain ⟨hold, hkey⟩ := (hents other).mp hother
    refine (hvalid.mem_free hnode other).mpr ⟨h.subset other hold, ?_⟩
    rintro rfl
    exact hkey rfl
  · have hne : slot ≠ index := by
      rintro rfl
      rw [Table.slotAt_free_self hnode] at hother
      cases hother
    dsimp only at hother
    rw [Table.slotAt_free_ne hne] at hother
    refine (hents other).mpr ⟨h.moved slot hslot other hother, fun hkey => hne ?_⟩
    exact h.table.distinct slot index other node hother hnode hkey
  · unfold steps at hroom ⊢
    dsimp only
    rw [Table.nBuckets_free, upperBound_congr hcount]
    omega
  · unfold steps at hfull ⊢
    dsimp only
    rw [Table.nBuckets_free]
    omega

theorem Valid.del (h : Valid map) (hnode : (slotAt map.table.slots index).node = some node) :
    ∃ next, map.del index = some next ∧ Deleted index node map next := by
  have hnodes := h.mem_free hnode
  unfold Map.del
  rw [hnode]
  dsimp only
  rcases h with h | ⟨h, hpos⟩
  · rw [if_neg (not_not.mpr h.resizePosition)]
    have hroom := h.room
    have hdirty := Table.nDirty_free_le map.table index
    refine ⟨_, rfl, rfl, .inl ⟨h.table.free hnode, h.resizePosition, h.prime, ?_, ?_⟩, hnodes,
      fun _ => ⟨rfl, rfl, ?_⟩, fun _ => h.resizePosition⟩
    · exact (Table.nBuckets_free _ _).trans h.nBuckets
    · dsimp only
      rw [upperBound_congr (Table.nBuckets_free _ _)]
      omega
    · rw [if_pos h.resizePosition]
      exact h.resizePosition
  · rw [if_pos hpos]
    obtain ⟨y, hget, hresizing⟩ := h.exists_del hpos hnode
    obtain ⟨next, hresize, hprime, hsame, hcases⟩ := hresizing.resize
    have hnext (other : ν) : other ∈ next.nodes ↔ other ∈ map.nodes ∧ other ≠ node :=
      (hsame other).trans (hnodes other)
    refine ⟨next, ?_, ?_⟩
    · unfold delResize
      dsimp only
      rw [hget]
      exact hresize
    · dsimp only at hcases
      rw [Table.nBuckets_free] at hcases
      rcases hcases with ⟨hlt, htable, hnextPos, hbatch, hvalid⟩ | ⟨hle, hidle⟩
      · refine ⟨hprime,
          .inr ⟨hvalid.mono (Nat.zero_le _), by omega⟩, hnext, fun _ => ?_, fun hge => ?_⟩
        · rw [if_neg hpos]
          exact ⟨htable, hbatch, hnextPos⟩
        · omega
      · refine ⟨hprime, .inl (hidle.mono (Nat.zero_le _)), hnext, fun hkept => ?_,
          fun _ => hidle.resizePosition⟩
        omega

/-- A slot without a node. -/
theorem del_of_none (hnone : (slotAt map.table.slots index).node = none) :
    map.del index = some map := by
  unfold Map.del
  rw [hnone]

/-! ## Putting -/

/-- A resize starts, and moves the first batch. -/
theorem Idle.startResize (h : Idle 0 map) {buckets batch : ℕ}
    (hbuckets : map.table.nBuckets ≤ buckets) (hprime : newPrime buckets map.prime < 29)
    (hroom : map.table.size + 2 * ((map.table.nBuckets - 1) / 256) + 1 ≤
      primeList.getD (newPrime buckets map.prime) 0 * 7 / 10) :
    ∃ next, map.startResize buckets batch = some next ∧
      next.prime = newPrime buckets map.prime ∧ (∀ node, node ∈ next.nodes ↔ node ∈ map.nodes) ∧
      (Idle 1 next ∨ Resizing 1 next ∧ next.resizePosition ≠ 0) := by
  unfold Map.startResize
  rw [if_neg (not_not.mpr h.resizePosition), if_neg (not_lt.mpr hbuckets)]
  dsimp only
  generalize hbatch : (if (if batch > 0 then batch else map.table.nBuckets / (256 * 1024)) < 256
    then 256 else if batch > 0 then batch else map.table.nBuckets / (256 * 1024)) = newBatch
  have hle : 256 ≤ newBatch := by
    rw [← hbatch]
    split_ifs <;> omega
  have hpos := h.table.prime.pos
  have hfull := h.room
  have hstart : Resizing 0 { map with
      prime := newPrime buckets map.prime
      batch := newBatch
      shadow := .empty (primeList.getD (newPrime buckets map.prime) 0) } := by
    have hcount : (Table.empty (primeList.getD (newPrime buckets map.prime) 0) : Table ν).nBuckets =
        primeList.getD (newPrime buckets map.prime) 0 := Table.nBuckets_empty _
    refine ⟨h.table, Table.sound_empty (prime_of_index hprime) (lt_of_index hprime), ?_,
      hle, hprime, hcount, fun node hnode => ?_, fun index hidx => ?_, ?_, ?_⟩
    · dsimp only
      rw [h.resizePosition]
      exact hpos
    · rw [Table.entries_empty] at hnode
      cases hnode
    · dsimp only at hidx
      rw [h.resizePosition] at hidx
      exact absurd hidx (Nat.not_lt_zero _)
    · have hempty : (Table.empty (primeList.getD (newPrime buckets map.prime) 0) : Table ν).nDirty =
          0 := rfl
      unfold steps Table.upperBound
      dsimp only
      rw [hcount, hempty, h.resizePosition, drop_zero, ← h.table.size]
      omega
    · unfold steps
      dsimp only
      rw [h.resizePosition]
      unfold Table.upperBound at hfull
      omega
  obtain ⟨next, hresize, hnext, hnodes, hcases⟩ := hstart.resize
  refine ⟨next, hresize, hnext, hnodes, ?_⟩
  rcases hcases with ⟨-, -, hposition, -, hvalid⟩ | ⟨-, hidle⟩
  · refine .inr ⟨hvalid, ?_⟩
    rw [hposition]
    dsimp only
    omega
  · exact .inl hidle

/-- What `put_copy` begins with makes room for the node. -/
theorem Valid.advance (h : Valid map)
    (hprime : map.resizePosition = 0 → map.table.upperBound ≤ map.table.nDirty → map.prime < 28) :
    ∃ next, map.advance = some next ∧ (∀ node, node ∈ next.nodes ↔ node ∈ map.nodes) ∧
      (Idle 1 next ∨ Resizing 1 next ∧ next.resizePosition ≠ 0) := by
  unfold Map.advance
  rcases h with h | ⟨h, hpos⟩
  · rw [if_neg (by rw [h.resizePosition]; exact Nat.lt_irrefl 0)]
    split_ifs with hfull
    · have hlt := hprime h.resizePosition hfull
      have hroom := room_succ hlt
      have hnew : newPrime (map.table.nBuckets + 1) map.prime = map.prime + 1 := by
        rw [h.nBuckets]
        exact newPrime_succ h.prime
      have hidle := h.room
      have hsmall := h.table.size_le
      unfold Table.upperBound at hidle
      rw [← h.nBuckets, ← hnew] at hroom
      obtain ⟨next, hstart, -, hnodes, hcases⟩ :=
        @Idle.startResize _ _ _ map _ h (map.table.nBuckets + 1) 0 (Nat.le_succ _)
          (by omega) (by omega)
      exact ⟨next, hstart, hnodes, hcases⟩
    · refine ⟨map, rfl, fun _ => Iff.rfl, .inl ⟨h.table, h.resizePosition, h.prime, h.nBuckets, ?_⟩⟩
      omega
  · rw [if_pos (Nat.pos_of_ne_zero hpos)]
    obtain ⟨next, hresize, -, hnodes, hcases⟩ := h.resize
    refine ⟨next, hresize, hnodes, ?_⟩
    rcases hcases with ⟨-, -, hnext, -, hvalid⟩ | ⟨-, hidle⟩
    · exact .inr ⟨hvalid, by omega⟩
    · exact .inl hidle

/-- A node that is put to the table, and to the shadow where there is one. -/
theorem exists_put (h : Idle 1 map ∨ Resizing 1 map ∧ map.resizePosition ≠ 0) (node : ν) :
    ∃ shadow index table, map.putShadow node = some shadow ∧
      map.table.putSlot node = some (index, table) ∧
      Valid { map with table := table, shadow := shadow } ∧
      ∀ other, other ∈ entries table.slots ↔
        other = node ∨ other ∈ map.nodes ∧ MapNode.key other ≠ MapNode.key node := by
  rcases h with h | ⟨h, hpos⟩
  · have hroom := h.room
    have hupper := upperBound_lt h.table
    obtain ⟨index, table, hput, hspec⟩ := h.table.putSlot (by omega) node
    refine ⟨map.shadow, index, table, if_pos h.resizePosition, hput,
      .inl ⟨hspec.sound, h.resizePosition, h.prime, hspec.nBuckets.trans h.nBuckets, ?_⟩,
      hspec.mem_entries⟩
    have hdirty := hspec.nDirty
    dsimp only
    rw [upperBound_congr hspec.nBuckets]
    omega
  · have hroom := h.room
    have hfull := h.full
    have hupper := upperBound_lt h.shadow
    have hsize := h.shadow.size_le
    obtain ⟨index, table, hput, hspec⟩ := h.table.putSlot (by omega) node
    obtain ⟨other, shadow, hshadow, hshadowSpec⟩ := h.shadow.putSlot (by omega) node
    refine ⟨shadow, index, table, ?_, hput,
      .inr ⟨⟨hspec.sound, hshadowSpec.sound, ?_, h.batch, h.prime,
      hshadowSpec.nBuckets.trans h.nBuckets, fun old hold => ?_, fun slot hslot old hold => ?_, ?_,
        ?_⟩,
      hpos⟩, hspec.mem_entries⟩
    · unfold putShadow
      rw [if_neg hpos, if_neg (by omega), if_neg (by omega), hshadow]
      rfl
    · dsimp only
      rw [hspec.nBuckets]
      exact h.lt
    · rcases (hshadowSpec.mem_entries old).mp hold with rfl | ⟨hbefore, hkey⟩
      · exact (hspec.mem_entries old).mpr (.inl rfl)
      · exact (hspec.mem_entries old).mpr (.inr ⟨h.subset old hbefore, hkey⟩)
    · rw [hshadowSpec.mem_entries]
      by_cases heq : slot = index
      · dsimp only at hold
        rw [heq, hspec.put] at hold
        exact .inl (Option.some.inj hold).symm
      · dsimp only at hold
        rw [hspec.other slot heq] at hold
        exact .inr ⟨h.moved slot hslot old hold, fun hkey => heq (hspec.same slot old hold hkey)⟩
    · have hdirty := hshadowSpec.nDirty
      have hcount := hspec.count_drop map.resizePosition
      unfold steps at hroom ⊢
      dsimp only
      rw [hspec.nBuckets, upperBound_congr hshadowSpec.nBuckets]
      omega
    · have hdirty := hspec.nDirty
      unfold steps at hfull ⊢
      dsimp only
      rw [hspec.nBuckets]
      omega

/-- `put_copy` puts one node for its key, while there is a larger size. -/
theorem Valid.putCopy (h : Valid map) (node : ν)
    (hprime : map.resizePosition = 0 → map.table.upperBound ≤ map.table.nDirty → map.prime < 28) :
    ∃ next, map.putCopy node = some next ∧ Valid next ∧ ∀ other, other ∈ next.nodes ↔
      other = node ∨ other ∈ map.nodes ∧ MapNode.key other ≠ MapNode.key node := by
  have hsize : map.table.size < map.table.nBuckets := h.table.size_le.trans_lt h.nDirty_lt
  obtain ⟨middle, hmid, hnodes, hvalid⟩ := h.advance hprime
  obtain ⟨shadow, index, table, hshadow, hput, hnext, hents⟩ := exists_put hvalid node
  refine ⟨{ middle with table := table, shadow := shadow }, ?_, hnext, fun other => ?_⟩
  · unfold Map.putCopy
    rw [if_neg (not_le.mpr hsize), hmid, Option.bind_eq_bind, Option.bind_some, hshadow,
      Option.bind_eq_bind, Option.bind_some, hput]
    rfl
  · rw [← hnodes other]
    exact hents other

/-! ## The sizes -/

theorem prime_of_resize (h : map.resize = some next) : next.prime = map.prime := by
  obtain ⟨⟨shadow, stopped⟩, -, hnext⟩ := Option.bind_eq_some_iff.mp h
  cases stopped with
  | some index =>
    cases hnext
    rfl
  | none =>
    dsimp only at hnext
    split_ifs at hnext
    cases hnext
    rfl

theorem prime_of_startResize {buckets batch : ℕ} (hpos : map.resizePosition = 0)
    (hbuckets : map.table.nBuckets ≤ buckets) (h : map.startResize buckets batch = some next) :
    next.prime = newPrime buckets map.prime := by
  unfold Map.startResize at h
  rw [if_neg (not_not.mpr hpos), if_neg (not_lt.mpr hbuckets)] at h
  exact prime_of_resize h

/-- The size does not shrink, and grows where a table is full. -/
theorem prime_of_putCopy (h : map.putCopy node = some next) :
    map.prime ≤ next.prime ∧ (map.resizePosition = 0 → map.table.upperBound ≤ map.table.nDirty →
      next.prime = newPrime (map.table.nBuckets + 1) map.prime) := by
  unfold Map.putCopy at h
  split_ifs at h
  obtain ⟨middle, hmid, h⟩ := Option.bind_eq_some_iff.mp h
  obtain ⟨shadow, -, h⟩ := Option.bind_eq_some_iff.mp h
  obtain ⟨⟨index, table⟩, -, h⟩ := Option.bind_eq_some_iff.mp h
  cases h
  dsimp only
  unfold Map.advance at hmid
  split_ifs at hmid with hpos hfull
  · exact ⟨(prime_of_resize hmid).ge, fun hzero => absurd hzero hpos.ne'⟩
  · have hprime := prime_of_startResize (Nat.eq_zero_of_not_pos hpos) (Nat.le_succ _) hmid
    exact ⟨(le_newPrime _ _).trans_eq hprime.symm, fun _ _ => hprime⟩
  · cases hmid
    exact ⟨le_rfl, fun _ hge => absurd hge hfull⟩

theorem prime_of_del (h : map.del index = some next) : next.prime = map.prime := by
  unfold Map.del at h
  split at h
  · dsimp only at h
    split_ifs at h
    · obtain ⟨y, -, hresize⟩ := Option.bind_eq_some_iff.mp h
      exact (prime_of_resize hresize :)
    · cases h
      rfl
  · cases h
    rfl

/-- A table that is full has a larger size, where the size behind `put_copy` is below `2^31`. -/
theorem Valid.larger (h : Valid map) (hput : map.putCopy node = some next)
    (hprime : next.prime < 29) (hpos : map.resizePosition = 0)
    (hfull : map.table.upperBound ≤ map.table.nDirty) : map.prime < 28 := by
  have hnext := (prime_of_putCopy hput).2 hpos hfull
  rcases h with hidle | ⟨-, hresizing⟩
  · rw [hidle.nBuckets, newPrime_succ hidle.prime] at hnext
    omega
  · exact absurd hpos hresizing

/-- What a `put_copy` has put, while the sizes are below `2^31`. -/
theorem Valid.of_putCopy (h : Valid map) (hput : map.putCopy node = some next)
    (hprime : next.prime < 29) : Valid next ∧ ∀ other, other ∈ next.nodes ↔
      other = node ∨ other ∈ map.nodes ∧ MapNode.key other ≠ MapNode.key node := by
  obtain ⟨after, hafter, hvalid, hnodes⟩ := h.putCopy node (h.larger hput hprime)
  obtain rfl := Option.some.inj (hafter.symm.trans hput)
  exact ⟨hvalid, hnodes⟩

omit [DecidableEq κ] in
theorem nodes_create : (create : Map ν).nodes = [] := Table.entries_empty _

/-- A map that is new is valid and has no nodes. -/
theorem valid_of_reserve {capacity : ℕ} (h : (create : Map ν).reserve capacity = some map)
    (hprime : map.prime < 29) : Valid map ∧ map.nodes = [] := by
  unfold Map.reserve at h
  rcases lt_or_ge (capacity * 10 / 7) (create : Map ν).table.nBuckets with hlt | hge
  · unfold Map.startResize at h
    have hpos : (create : Map ν).resizePosition = 0 := rfl
    rw [if_neg (not_not.mpr hpos), if_pos hlt] at h
    cases h
    exact ⟨.inl idle_create, nodes_create⟩
  · have hnew := prime_of_startResize rfl hge h
    have hthree := three_le_of_index (hnew ▸ hprime)
    have hcount : (create : Map ν).table.nBuckets = 3 := Table.nBuckets_empty 3
    have hsize : (create : Map ν).table.size = 0 := rfl
    obtain ⟨next, hstart, -, hnodes, hcases⟩ :=
      @Idle.startResize _ _ _ (create : Map ν) _ idle_create _ (create : Map ν).table.size hge
        (hnew ▸ hprime) (by rw [hcount, hsize]; omega)
    obtain rfl := Option.some.inj (hstart.symm.trans h)
    have hnone : next.nodes = [] := by
      apply eq_nil_iff_forall_not_mem.mpr
      intro node hnode
      have hbefore := (hnodes node).mp hnode
      rw [nodes_create] at hbefore
      cases hbefore
    rcases hcases with hidle | ⟨hresizing, hpos⟩
    · exact ⟨.inl (hidle.mono (Nat.zero_le _)), hnone⟩
    · exact ⟨.inr ⟨hresizing.mono (Nat.zero_le _), hpos⟩, hnone⟩

end Map

end FengShui.SimpleMap
