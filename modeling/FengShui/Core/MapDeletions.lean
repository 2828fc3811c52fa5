import FengShui.Core.MapResizes

/-!
# Deletions by slot numbers (`core/native/maps/simple.h`)

`del` takes the number of a slot, and a deletion is a step of a resize as well: the one that ends it
puts another table in the place of the one to which the numbers belong. Where no resize ends in
front of the last deletion, a row of deletions takes the nodes that were found at the slots
(`perm_of_sublist`), and only there all numbers belong to the table they are used on
(`current_iff`).
-/

namespace FengShui.SimpleMap

open OpenAddressing Transition List

namespace Map

variable {κ ν : Type} [MapNode ν κ] {map next : Map ν}

/-! ## The nodes and their slots -/

theorem mem_foreach {entry : ℕ × ν} : entry ∈ map.foreach ↔
    (slotAt map.table.slots entry.1).node = some entry.2 := by
  unfold foreach
  rw [mem_filterMap]
  constructor
  · rintro ⟨⟨slot, index⟩, hmem, hsome⟩
    obtain ⟨node, hnode, rfl⟩ := Option.map_eq_some_iff.mp hsome
    have hget := mem_zipIdx_iff_getElem?.mp hmem
    unfold slotAt
    rw [getD_eq_getElem?_getD, hget]
    exact hnode
  · intro hnode
    have hlt := lt_of_node hnode
    refine ⟨(slotAt map.table.slots entry.1, entry.1), ?_, ?_⟩
    · rw [mem_zipIdx_iff_getElem?, slotAt_of_lt hlt]
      exact getElem?_eq_getElem hlt
    · rw [hnode]
      rfl

theorem foreach_snd : map.foreach.map Prod.snd = map.nodes := by
  have hfst : map.table.slots = map.table.slots.zipIdx.map Prod.fst := (zipIdx_map_fst 0 _).symm
  unfold foreach Map.nodes entries
  conv_rhs => rw [hfst]
  rw [map_filterMap, filterMap_map]
  refine filterMap_congr fun slot _ => ?_
  rw [Option.map_map]
  exact Option.map_id'

theorem foreach_nodup : (map.foreach.map Prod.fst).Nodup := by
  unfold foreach List.Nodup
  have hidxs : (map.table.slots.zipIdx.map Prod.snd).Pairwise (· < ·) := by
    rw [zipIdx_map_snd]
    exact pairwise_lt_range'
  rw [pairwise_map] at hidxs
  rw [pairwise_map, pairwise_filterMap]
  refine hidxs.imp fun {slot other} hlt entry hent entry' hent' heq => ?_
  obtain ⟨node, -, rfl⟩ := Option.map_eq_some_iff.mp hent
  obtain ⟨node', -, rfl⟩ := Option.map_eq_some_iff.mp hent'
  exact hlt.ne heq

/-- The nodes without the one that goes. -/
theorem Deleted.perm {index : ℕ} {node : ν} (h : Valid map)
    (hnode : (slotAt map.table.slots index).node = some node)
    (hdel : Deleted index node map next) : map.nodes.Perm (node :: next.nodes) := by
  have hmem : node ∈ map.nodes := mem_nodes.mpr ⟨index, hnode⟩
  refine (perm_ext_iff_of_nodup h.nodup (nodup_cons.mpr ⟨fun hin => ?_,
    hdel.valid.nodup⟩)).mpr fun other => ?_
  · exact ((hdel.nodes node).mp hin).2 rfl
  · rw [mem_cons, hdel.nodes]
    constructor
    · intro hother
      by_cases heq : other = node
      · exact .inl heq
      · exact .inr ⟨hother, heq⟩
    · rintro (rfl | ⟨hother, -⟩)
      · exact hmem
      · exact hother

variable [DecidableEq κ]

/-- The nodes that go are these, and the others are found. -/
def Removes (selected : List ν) (map next : Map ν) : Prop :=
  (∀ node, node ∈ next.nodes ↔ node ∈ map.nodes ∧ node ∉ selected) ∧
    ∀ node ∈ map.nodes, node ∉ selected → next.findValue (MapNode.key node) = some (some node)

/-- After so many deletions a resize that is in progress has ended. -/
def deletions (map : Map ν) : ℕ :=
  (map.table.nBuckets - map.resizePosition + map.batch - 1) / map.batch

/-- So many deletions leave the table that was searched in its place: the map is not resized, or the
resize does not end in front of the last of them. -/
def InPlace (map : Map ν) (count : ℕ) : Prop := map.resizePosition = 0 ∨ count ≤ map.deletions

omit [MapNode ν κ] [DecidableEq κ] in
instance (map : Map ν) (count : ℕ) : Decidable (InPlace map count) :=
  inferInstanceAs (Decidable (_ ∨ _))

/-- Every slot number is used while the table to which it belongs is in its place. -/
def Current (map : Map ν) (indices : List ℕ) : Prop :=
  Along del (fun state _ => map.resizePosition = 0 ∨ state.resizePosition ≠ 0) map indices

/-- The deletions are all made. -/
theorem Valid.exists_run (h : Valid map) (indices : List ℕ) :
    ∃ next, run Map.del map indices = some next ∧ Valid next := by
  induction indices generalizing map with
  | nil => exact ⟨map, rfl, h⟩
  | cons index indices ih =>
    cases hnode : (slotAt map.table.slots index).node with
    | none =>
      obtain ⟨next, hrun, hnext⟩ := ih h
      exact ⟨next, run_cons_eq_some.mpr ⟨map, del_of_none hnode, hrun⟩, hnext⟩
    | some node =>
      obtain ⟨middle, hdel, hmid⟩ := h.del hnode
      obtain ⟨next, hrun, hnext⟩ := ih hmid.valid
      exact ⟨next, run_cons_eq_some.mpr ⟨middle, hdel, hrun⟩, hnext⟩

theorem prime_of_run {indices : List ℕ} (hrun : run del map indices = some next) :
    next.prime = map.prime := by
  apply run_invariant (fun state => state.prime = map.prime) _ rfl hrun
  intro state index after hsame hdel
  exact (prime_of_del hdel).trans hsame

/-! ## One deletion and the next -/

variable {node : ν} {index count : ℕ}

omit [DecidableEq κ] in
/-- A resize that does not end has one deletion less to go. -/
theorem Deleted.deletions (hdel : Deleted index node map next) (hbatch : 0 < map.batch)
    (hpos : map.resizePosition ≠ 0) (hgoes : map.resizePosition + map.batch < map.table.nBuckets) :
    map.deletions = next.deletions + 1 := by
  obtain ⟨htable, hnextBatch, hnext⟩ := hdel.kept (.inr hgoes)
  rw [if_neg hpos] at hnext
  unfold Map.deletions
  rw [hnext, hnextBatch, htable, Table.nBuckets_free, ← Nat.add_div_right _ hbatch]
  congr 1
  omega

omit [DecidableEq κ] in
/-- The last deletion of a resize. -/
theorem Resizing.deletions_eq_one (h : Resizing 0 map)
    (hends : map.table.nBuckets ≤ map.resizePosition + map.batch) : map.deletions = 1 := by
  have hbatch := h.batch
  have hlt := h.lt
  unfold Map.deletions
  rw [Nat.div_eq_iff (by omega)]
  omega

omit [DecidableEq κ] in
/-- Where a row of deletions is in place, the first of them leaves the table in its place for the
others. -/
theorem Deleted.inPlace (h : Valid map) (hdel : Deleted index node map next)
    (hplace : InPlace map (count + 1)) :
    count = 0 ∨ next.table = map.table.free index ∧ InPlace next count := by
  rcases h with hidle | ⟨hresizing, hpos⟩
  · obtain ⟨htable, -, hnext⟩ := hdel.kept (.inl hidle.resizePosition)
    rw [if_pos hidle.resizePosition] at hnext
    exact .inr ⟨htable, .inl hnext⟩
  · have hbatch := hresizing.batch
    have hle := hplace.resolve_left hpos
    rcases lt_or_ge (map.resizePosition + map.batch) map.table.nBuckets with hgoes | hends
    · have hcount := hdel.deletions (by omega) hpos hgoes
      exact .inr ⟨(hdel.kept (.inr hgoes)).1, .inr (by omega)⟩
    · have hone := hresizing.deletions_eq_one hends
      exact .inl (by omega)

/-! ## A row of deletions -/

variable {entries : List (ℕ × ν)}

/-- In place, the nodes that were found at the slots go, and no other. -/
theorem Valid.perm_of_inPlace (h : Valid map) (hnodup : (entries.map Prod.fst).Nodup)
    (hents : ∀ entry ∈ entries, (slotAt map.table.slots entry.1).node = some entry.2)
    (hplace : InPlace map entries.length) :
    ∃ next, run Map.del map (entries.map Prod.fst) = some next ∧ Valid next ∧
      map.nodes.Perm (entries.map Prod.snd ++ next.nodes) := by
  induction entries generalizing map with
  | nil => exact ⟨map, rfl, h, .refl _⟩
  | cons entry entries ih =>
    have hfirst := hents entry mem_cons_self
    rw [map_cons] at hnodup
    obtain ⟨hfresh, hrest⟩ := nodup_cons.mp hnodup
    obtain ⟨middle, hdel, hdeleted⟩ := h.del hfirst
    have hperm := hdeleted.perm h hfirst
    rcases hdeleted.inPlace h hplace with hnone | ⟨htable, hplace⟩
    · obtain rfl := eq_nil_of_length_eq_zero hnone
      exact ⟨middle, run_cons_eq_some.mpr ⟨middle, hdel, rfl⟩, hdeleted.valid, hperm⟩
    · obtain ⟨next, hrun, hvalid, hnext⟩ := ih hdeleted.valid hrest (fun other hother => by
        have hne : other.1 ≠ entry.1 := fun heq => hfresh (heq ▸ mem_map_of_mem hother)
        rw [htable, Table.slotAt_free_ne hne]
        exact hents other (mem_cons_of_mem _ hother)) hplace
      refine ⟨next, run_cons_eq_some.mpr ⟨middle, hdel, hrun⟩, hvalid, ?_⟩
      exact hperm.trans (hnext.cons entry.2)

/-- The deletions of nodes that a search has found. -/
theorem Valid.perm_of_sublist (h : Valid map) (hents : entries.Sublist map.foreach)
    (hplace : InPlace map entries.length) :
    ∃ next, run Map.del map (entries.map Prod.fst) = some next ∧ Valid next ∧
      map.nodes.Perm (entries.map Prod.snd ++ next.nodes) :=
  h.perm_of_inPlace (foreach_nodup.sublist (hents.map _))
    (fun _ hent => mem_foreach.mp (hents.subset hent)) hplace

/-- What is left behind the selected nodes is found. -/
theorem Valid.removes (h : Valid map) (hnext : Valid next) {selected : List ν}
    (hperm : map.nodes.Perm (selected ++ next.nodes)) : Removes selected map next := by
  have hnodup := (hperm.nodup_iff.mp h.nodup)
  have hnodes (node : ν) : node ∈ next.nodes ↔ node ∈ map.nodes ∧ node ∉ selected := by
    rw [hperm.mem_iff, mem_append]
    constructor
    · intro hnode
      exact ⟨.inr hnode, fun hmem => disjoint_of_nodup_append hnodup hmem hnode⟩
    · rintro ⟨hmem | hmem, hout⟩
      · exact absurd hmem hout
      · exact hmem
  exact ⟨hnodes, fun node hnode hout => hnext.findValue ((hnodes node).mpr ⟨hnode, hout⟩)⟩

/-! ## Which rows are in place -/

/-- A resize is in progress at every deletion if and only if it does not end in front of the
last. -/
theorem Resizing.along_iff (h : Resizing 0 map) (hpos : map.resizePosition ≠ 0)
    (hnodup : (entries.map Prod.fst).Nodup)
    (hents : ∀ entry ∈ entries, (slotAt map.table.slots entry.1).node = some entry.2) :
    Along Map.del (fun state _ => state.resizePosition ≠ 0) map (entries.map Prod.fst) ↔
      entries.length ≤ map.deletions := by
  induction entries generalizing map with
  | nil => exact iff_of_true trivial (Nat.zero_le _)
  | cons entry entries ih =>
    have hbatch := h.batch
    have hfirst := hents entry mem_cons_self
    rw [map_cons] at hnodup ⊢
    obtain ⟨hfresh, hrest⟩ := nodup_cons.mp hnodup
    obtain ⟨next, hdel, hdeleted⟩ := Valid.del (.inr ⟨h, hpos⟩) hfirst
    rw [along_cons_of_step hdel, and_iff_right hpos, length_cons]
    rcases lt_or_ge (map.resizePosition + map.batch) map.table.nBuckets with hgoes | hends
    · obtain ⟨htable, -, hnext⟩ := hdeleted.kept (.inr hgoes)
      rw [if_neg hpos] at hnext
      have hresizing : Resizing 0 next := by
        rcases hdeleted.valid with hidle | ⟨hresizing, -⟩
        · exact absurd hidle.resizePosition (by omega)
        · exact hresizing
      rw [hdeleted.deletions (by omega) hpos hgoes, Nat.succ_le_succ_iff]
      refine ih hresizing (by omega) hrest fun other hother => ?_
      have hne : other.1 ≠ entry.1 := fun heq => hfresh (heq ▸ mem_map_of_mem hother)
      rw [htable, Table.slotAt_free_ne hne]
      exact hents other (mem_cons_of_mem _ hother)
    · rw [h.deletions_eq_one hends]
      cases entries with
      | nil => exact iff_of_true trivial le_rfl
      | cons other entries =>
        -- The second slot number is used on the table that the resize leaves.
        exact iff_of_false (fun halong => halong.1 (hdeleted.done hends))
          (by rw [length_cons]; omega)

/-- The slot numbers of nodes that a search has found are used on the table that was searched if and
only if the deletions are in place. -/
theorem Valid.current_iff (h : Valid map) (hents : entries.Sublist map.foreach) :
    Current map (entries.map Prod.fst) ↔ InPlace map entries.length := by
  unfold Current InPlace
  rcases h with hidle | ⟨hresizing, hpos⟩
  · simp only [hidle.resizePosition, true_or]
    exact iff_of_true (along_true map _) trivial
  · simp only [hpos, false_or]
    exact hresizing.along_iff hpos (foreach_nodup.sublist (hents.map _))
      fun _ hent => mem_foreach.mp (hents.subset hent)

end Map

end FengShui.SimpleMap
