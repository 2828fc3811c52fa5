import Mathlib.Algebra.Field.ZMod
import Mathlib.Data.List.GetD
import Mathlib.Data.List.Nodup
import Mathlib.Tactic.Ring

/-!
# Tables with open addressing

A slot may have a node, and is dirty where a chain of collisions goes through it. The slots at which
a key is looked for are a path; a node is on the path of its key, and the slots in front of it are
dirty, so a search may stop at a slot that is not. A node that goes leaves its slot dirty, if it
was.
-/

namespace FengShui.OpenAddressing

open List

variable {κ ν : Type}

structure Slot (ν : Type) where
  node : Option ν
  dirty : Bool
  deriving DecidableEq, Repr

namespace Slot

/-- Some node is or was there, or a chain goes through. -/
def used (slot : Slot ν) : Bool := slot.node.isSome || slot.dirty

def exist (slot : Slot ν) : Bool := slot.node.isSome

variable {slot : Slot ν} {node : ν}

theorem exist_of_some (h : slot.node = some node) : slot.exist = true := by
  unfold exist
  rw [h]
  rfl

theorem exist_of_none (h : slot.node = none) : slot.exist = false := by
  unfold exist
  rw [h]
  rfl

theorem used_of_some (h : slot.node = some node) : slot.used = true := by
  unfold used
  rw [h]
  rfl

/-- A slot without a node is used if a chain goes through it. -/
theorem used_of_none (h : slot.node = none) : slot.used = slot.dirty := by
  unfold used
  rw [h]
  rfl

end Slot

/-- The slot at an index; behind the end it is free and clean. -/
def slotAt (slots : List (Slot ν)) (index : ℕ) : Slot ν := slots.getD index ⟨none, false⟩

variable {slots next : List (Slot ν)} {index : ℕ}

theorem slotAt_of_lt (h : index < slots.length) : slotAt slots index = slots[index] :=
  getD_eq_getElem slots _ h

theorem slotAt_of_le (h : slots.length ≤ index) : slotAt slots index = ⟨none, false⟩ :=
  getD_eq_default slots _ h

variable {node : ν} {count : ℕ} {p : Slot ν → Bool}

theorem lt_of_node (h : (slotAt slots index).node = some node) : index < slots.length := by
  by_contra hle
  rw [slotAt_of_le (not_lt.mp hle)] at h
  cases h

theorem slotAt_set_self (h : index < slots.length) (slot : Slot ν) :
    slotAt (slots.set index slot) index = slot := by
  have hset : index < (slots.set index slot).length := by rwa [length_set]
  rw [slotAt_of_lt hset, getElem_set_self]

theorem slotAt_set_ne {other : ℕ} (h : other ≠ index) (slot : Slot ν) :
    slotAt (slots.set index slot) other = slotAt slots other := by
  unfold slotAt
  rw [getD_eq_getElem?_getD, getD_eq_getElem?_getD, getElem?_set_ne (Ne.symm h)]

theorem slotAt_replicate (count : ℕ) : slotAt (List.replicate count ⟨none, false⟩) index =
    (⟨none, false⟩ : Slot ν) := by
  rcases lt_or_ge index count with hlt | hle
  · rw [slotAt_of_lt (by rwa [length_replicate]), getElem_replicate]
  · exact slotAt_of_le (by rwa [length_replicate])

theorem slotAt_map_range (count : ℕ) (f : ℕ → Slot ν) :
    slotAt ((List.range count).map f) index = if index < count then f index else ⟨none, false⟩ := by
  split_ifs with hlt
  · rw [slotAt_of_lt (by rwa [length_map, length_range]), getElem_map,
      getElem_range]
  · exact slotAt_of_le (by rwa [length_map, length_range, ← not_lt])

theorem slotAt_drop (slots : List (Slot ν)) (start index : ℕ) :
    slotAt (slots.drop start) index = slotAt slots (start + index) := by
  unfold slotAt
  rw [getD_eq_getElem?_getD, getD_eq_getElem?_getD, getElem?_drop]

theorem slotAt_drop_sub {start : ℕ} (h : start ≤ index) :
    slotAt (slots.drop start) (index - start) = slotAt slots index := by
  rw [slotAt_drop, Nat.add_sub_cancel' h]

theorem slotAt_take (h : index < count) : slotAt (slots.take count) index = slotAt slots index := by
  unfold slotAt
  rw [getD_eq_getElem?_getD, getD_eq_getElem?_getD, getElem?_take_of_lt h]

/-! ## Counting -/

theorem count_set {p : Slot ν → Bool} (h : index < slots.length) (slot : Slot ν) :
    (slots.set index slot).countP p + (p (slotAt slots index)).toNat =
      slots.countP p + (p slot).toNat := by
  have hmem : p slots[index] = true → 0 < slots.countP p := fun hp =>
    countP_pos_iff.mpr ⟨_, getElem_mem h, hp⟩
  rw [countP_set h, slotAt_of_lt h]
  cases hold : p slots[index] <;> cases hnew : p slot <;> simp
  all_goals have := hmem hold; omega

/-- A slot that counts behind the change. -/
theorem count_set_of_pos (h : index < slots.length) {slot : Slot ν} (hslot : p slot = true) :
    (slots.set index slot).countP p = slots.countP p + (!p (slotAt slots index)).toNat := by
  have hcount := @count_set _ _ _ p h slot
  rw [hslot] at hcount
  cases hold : p (slotAt slots index) with
  | false =>
    rw [hold] at hcount
    exact hcount
  | true =>
    rw [hold] at hcount
    exact Nat.add_right_cancel hcount

/-- The same, of the slots from an index on. -/
theorem count_drop_set {p : Slot ν → Bool} {start : ℕ} (h : index < slots.length) (slot : Slot ν)
    (hstart : start ≤ index) :
    ((slots.set index slot).drop start).countP p + (p (slotAt slots index)).toNat =
      (slots.drop start).countP p + (p slot).toNat := by
  have hlt : index - start < (slots.drop start).length := by
    rw [length_drop]
    omega
  have hset : (slots.set index slot).drop start = (slots.drop start).set (index - start) slot := by
    rw [drop_set, if_neg (not_lt.mpr hstart)]
  rw [hset, ← slotAt_drop_sub hstart]
  exact count_set hlt slot

theorem drop_set_of_lt {start : ℕ} (slot : Slot ν) (h : index < start) :
    (slots.set index slot).drop start = slots.drop start := by
  rw [drop_set, if_pos h]

/-- Slots that a predicate does not tell apart. -/
theorem map_congr (hlen : next.length = slots.length)
    (h : ∀ index, p (slotAt next index) = p (slotAt slots index)) : next.map p = slots.map p := by
  refine ext_getElem ?_ fun index hnext hslots => ?_
  · rw [length_map, length_map, hlen]
  rw [length_map] at hnext hslots
  rw [getElem_map, getElem_map, ← slotAt_of_lt hnext, ← slotAt_of_lt hslots]
  exact h index

theorem count_congr (hlen : next.length = slots.length)
    (h : ∀ index, p (slotAt next index) = p (slotAt slots index)) (start : ℕ) :
    (next.drop start).countP p = (slots.drop start).countP p := by
  have hmap := congrArg (List.drop start) (map_congr hlen h)
  rw [← map_drop, ← map_drop] at hmap
  have hcount := congrArg (List.countP id) hmap
  rwa [countP_map, countP_map, Function.id_comp] at hcount

/-- Where not all slots are used, some slot is not. -/
theorem exists_unused (h : slots.countP Slot.used < slots.length) :
    ∃ index < slots.length, (slotAt slots index).used = false := by
  by_contra hall
  rw [not_exists] at hall
  refine h.ne (countP_eq_length.mpr fun slot hmem => ?_)
  obtain ⟨index, hlt, rfl⟩ := getElem_of_mem hmem
  have hused := not_and.mp (hall index) hlt
  rw [slotAt_of_lt hlt] at hused
  exact Bool.eq_true_of_not_eq_false hused

theorem count_exist_le_used : slots.countP Slot.exist ≤ slots.countP Slot.used := by
  refine countP_mono_left fun slot _ hexist => ?_
  unfold Slot.used
  rw [Bool.or_eq_true]
  exact .inl hexist

/-! ## Nodes -/

/-- The nodes, in the order of their slots. -/
def entries (slots : List (Slot ν)) : List ν := slots.filterMap Slot.node

theorem mem_entries : node ∈ entries slots ↔ ∃ index, (slotAt slots index).node = some node := by
  unfold entries
  rw [mem_filterMap]
  constructor
  · rintro ⟨slot, hmem, hnode⟩
    obtain ⟨index, hlt, rfl⟩ := getElem_of_mem hmem
    exact ⟨index, by rw [slotAt_of_lt hlt, hnode]⟩
  · rintro ⟨index, hnode⟩
    have hlt := lt_of_node hnode
    rw [slotAt_of_lt hlt] at hnode
    exact ⟨_, getElem_mem hlt, hnode⟩

theorem length_entries : (entries slots).length = slots.countP Slot.exist :=
  length_filterMap_eq_countP

theorem entries_cons (slot : Slot ν) (slots : List (Slot ν)) :
    entries (slot :: slots) = slot.node.toList ++ entries slots := by
  unfold entries
  cases hnode : slot.node with
  | none => rw [filterMap_cons_none hnode]; rfl
  | some node => rw [filterMap_cons_some hnode]; rfl

theorem entries_subset {some : List (Slot ν)} (h : some.Sublist slots)
    (hnode : node ∈ entries some) : node ∈ entries slots := (h.filterMap Slot.node).subset hnode

/-- No two slots have nodes of one key. -/
def Distinct (key : ν → κ) (slots : List (Slot ν)) : Prop :=
  ∀ index other node node', (slotAt slots index).node = some node →
    (slotAt slots other).node = some node' → key node = key node' → index = other

variable {key : ν → κ}

theorem Distinct.nodup (h : Distinct key slots) : ((entries slots).map key).Nodup := by
  unfold entries List.Nodup
  rw [pairwise_map, pairwise_filterMap, pairwise_iff_getElem]
  intro index other hidx hother hlt node hnode node' hnode' hkey
  refine hlt.ne (h index other node node' ?_ ?_ hkey)
  · rw [slotAt_of_lt hidx, hnode]
  · rw [slotAt_of_lt hother, hnode']

/-- A table with no other nodes. -/
theorem Distinct.mono (h : Distinct key slots)
    (hnode : ∀ index node, (slotAt next index).node = some node →
      (slotAt slots index).node = some node) : Distinct key next :=
  fun index other node node' hidx hother =>
    h index other node node' (hnode index node hidx) (hnode other node' hother)

/-- A node whose key no other slot has. -/
theorem Distinct.set (h : Distinct key slots) {dirty : Bool} (hlt : index < slots.length)
    (hother : ∀ other node', (slotAt slots other).node = some node' → key node' = key node →
      other = index) : Distinct key (slots.set index ⟨some node, dirty⟩) := by
  intro first second node₁ node₂ hfirst hsecond hkey
  by_cases hidx : first = index <;> by_cases hidx' : second = index
  · rw [hidx, hidx']
  · rw [hidx, slotAt_set_self hlt] at hfirst
    rw [slotAt_set_ne hidx'] at hsecond
    cases hfirst
    exact absurd (hother second node₂ hsecond hkey.symm) hidx'
  · rw [slotAt_set_ne hidx] at hfirst
    rw [hidx', slotAt_set_self hlt] at hsecond
    cases hsecond
    exact absurd (hother first node₁ hfirst hkey) hidx
  · rw [slotAt_set_ne hidx] at hfirst
    rw [slotAt_set_ne hidx'] at hsecond
    exact h first second node₁ node₂ hfirst hsecond hkey

/-! ## Paths -/

/-- Every node is on the path of its key, behind dirty slots. -/
def Chained (path : κ → ℕ → ℕ) (key : ν → κ) (slots : List (Slot ν)) : Prop :=
  ∀ index node, (slotAt slots index).node = some node → ∃ place < slots.length,
    path (key node) place = index ∧
      ∀ before < place, (slotAt slots (path (key node) before)).dirty = true

/-- Some node at the slot has the key. -/
def Holds (key : ν → κ) (slots : List (Slot ν)) (searched : κ) (index : ℕ) : Prop :=
  ∃ node, (slotAt slots index).node = some node ∧ key node = searched

variable {path : κ → ℕ → ℕ} {searched : κ}

/-- A table with no other nodes, where what was dirty is dirty. -/
theorem Chained.mono (h : Chained path key slots) (hlen : next.length = slots.length)
    (hnode : ∀ index node, (slotAt next index).node = some node →
      (slotAt slots index).node = some node)
    (hdirty : ∀ index, (slotAt slots index).dirty = true → (slotAt next index).dirty = true) :
    Chained path key next := by
  intro index node hnext
  obtain ⟨place, hplace, hpath, hbefore⟩ := h index node (hnode index node hnext)
  rw [hlen]
  exact ⟨place, hplace, hpath, fun before hlt => hdirty _ (hbefore before hlt)⟩

/-- A node goes to a slot on its path. -/
theorem Chained.set (h : Chained path key slots) {dirty : Bool} {place : ℕ}
    (hplace : place < slots.length) (hlt : path (key node) place < slots.length)
    (hbefore : ∀ before < place, (slotAt slots (path (key node) before)).dirty = true)
    (hdirty : (slotAt slots (path (key node) place)).dirty = true → dirty = true) :
    Chained path key (slots.set (path (key node) place) ⟨some node, dirty⟩) := by
  have hkept (index : ℕ) (hidx : (slotAt slots index).dirty = true) :
      (slotAt (slots.set (path (key node) place) ⟨some node, dirty⟩) index).dirty = true := by
    by_cases heq : index = path (key node) place
    · rw [heq, slotAt_set_self hlt]
      exact hdirty (heq ▸ hidx)
    · rw [slotAt_set_ne heq]
      exact hidx
  intro index other hidx
  rw [length_set]
  by_cases heq : index = path (key node) place
  · rw [heq, slotAt_set_self hlt] at hidx
    cases hidx
    exact ⟨place, hplace, heq.symm, fun before hlt => hkept _ (hbefore before hlt)⟩
  · rw [slotAt_set_ne heq] at hidx
    obtain ⟨place', hplace', hpath, hbefore'⟩ := h index other hidx
    exact ⟨place', hplace', hpath, fun before hlt => hkept _ (hbefore' before hlt)⟩

/-- Behind a slot that is not dirty a path need not be searched. -/
theorem Chained.not_holds (h : Chained path key slots) {last : ℕ}
    (hpath : ∀ place ≤ last, ¬Holds key slots searched (path searched place))
    (hlast : (slotAt slots (path searched last)).dirty = false) (index : ℕ) :
    ¬Holds key slots searched index := by
  rintro ⟨node, hnode, rfl⟩
  obtain ⟨place, -, rfl, hbefore⟩ := h index node hnode
  rcases le_or_gt place last with hle | hgt
  · exact hpath place hle ⟨node, hnode, rfl⟩
  · rw [hbefore last hgt] at hlast
    cases hlast

/-! ### Marks -/

/-- Slots that have nodes became dirty, and no more. -/
structure Marked (slots next : List (Slot ν)) : Prop where
  length : next.length = slots.length
  node : ∀ index, (slotAt next index).node = (slotAt slots index).node
  dirty : ∀ index, (slotAt slots index).dirty = true → (slotAt next index).dirty = true
  used : ∀ index, (slotAt next index).used = (slotAt slots index).used

namespace Marked

theorem refl (slots : List (Slot ν)) : Marked slots slots :=
  ⟨rfl, fun _ => rfl, fun _ => id, fun _ => rfl⟩

theorem trans {last : List (Slot ν)} (h : Marked slots next) (h' : Marked next last) :
    Marked slots last where
  length := h'.length.trans h.length
  node index := (h'.node index).trans (h.node index)
  dirty index hdirty := h'.dirty index (h.dirty index hdirty)
  used index := (h'.used index).trans (h.used index)

theorem set {node : ν} (h : (slotAt slots index).node = some node) :
    Marked slots (slots.set index ⟨some node, true⟩) := by
  have hlt := lt_of_node h
  refine ⟨length_set, fun other => ?_, fun other hdirty => ?_, fun other => ?_⟩ <;>
    by_cases heq : other = index
  · rw [heq, slotAt_set_self hlt, h]
  · rw [slotAt_set_ne heq]
  · rw [heq, slotAt_set_self hlt]
  · rwa [slotAt_set_ne heq]
  · rw [heq, slotAt_set_self hlt, Slot.used_of_some h]
    rfl
  · rw [slotAt_set_ne heq]

theorem chained (h : Marked slots next) (hchained : Chained path key slots) :
    Chained path key next :=
  hchained.mono h.length (fun index _ hnode => (h.node index).symm.trans hnode) h.dirty

theorem distinct (h : Marked slots next) (hdistinct : Distinct key slots) : Distinct key next :=
  hdistinct.mono fun index _ hnode => (h.node index).symm.trans hnode

theorem holds (h : Marked slots next) :
    Holds key next searched index ↔ Holds key slots searched index := by
  unfold Holds
  rw [h.node]

theorem exist (h : Marked slots next) (index : ℕ) :
    (slotAt next index).exist = (slotAt slots index).exist := congrArg Option.isSome (h.node index)

end Marked

/-! ## Double hashing -/

/-- The path of a hash: its remainder, and from there on in steps of its own. -/
def doubleHash (count hash place : ℕ) : ℕ :=
  (hash % count + place * (1 + hash % (count - 1))) % count

theorem doubleHash_lt (hcount : 0 < count) (hash place : ℕ) :
    doubleHash count hash place < count := Nat.mod_lt _ hcount

theorem doubleHash_zero (count hash : ℕ) : doubleHash count hash 0 = hash % count := by
  unfold doubleHash
  rw [zero_mul, add_zero, Nat.mod_mod]

theorem doubleHash_succ (count hash place : ℕ) : doubleHash count hash (place + 1) =
    (doubleHash count hash place + (1 + hash % (count - 1))) % count := by
  unfold doubleHash
  simp only [Nat.mod_add_mod]
  congr 1
  ring

/-- In a table of a prime number of slots the path of a hash comes to each of them. -/
theorem exists_doubleHash_eq (hprime : count.Prime) (hash : ℕ) (h : index < count) :
    ∃ place < count, doubleHash count hash place = index := by
  have := Fact.mk hprime
  have hstep : ((1 + hash % (count - 1) : ℕ) : ZMod count) ≠ 0 := by
    rw [Ne, ZMod.natCast_eq_zero_iff]
    have hmod : hash % (count - 1) < count - 1 :=
      Nat.mod_lt _ (Nat.sub_pos_of_lt hprime.one_lt)
    refine Nat.not_dvd_of_pos_of_lt ?_ ?_
    · omega
    · omega
  let place : ZMod count :=
    ((index : ZMod count) - hash) * ((1 + hash % (count - 1) : ℕ) : ZMod count)⁻¹
  refine ⟨place.val, ZMod.val_lt place, ?_⟩
  have hcast : ((hash % count + place.val * (1 + hash % (count - 1)) : ℕ) : ZMod count) =
      index := by
    rw [Nat.cast_add, Nat.cast_mul, ZMod.natCast_mod, ZMod.natCast_zmod_val, mul_assoc,
      inv_mul_cancel₀ hstep]
    ring
  have hmod := (ZMod.natCast_eq_natCast_iff' _ _ _).mp hcast
  rw [Nat.mod_eq_of_lt h] at hmod
  exact hmod

end FengShui.OpenAddressing
