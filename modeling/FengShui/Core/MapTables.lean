import FengShui.Core.SimpleMap
import Mathlib.Tactic.SplitIfs

/-!
# The tables of the hash map (`core/native/maps/simple.h`)

`Sound` is what `put_slot` and `del` keep: every node is behind dirty slots on the path of its key,
no two have one key, and the counters are right. In such a table that is not full the loops end, a
node is found by its key, and `put_slot` puts one node for a key.
-/

namespace FengShui.SimpleMap

open OpenAddressing

variable {κ ν : Type} [MapNode ν κ]

theorem nextSlot_eq {slot inc size : ℕ} (hslot : slot < size) (hinc : inc < size)
    (hsize : size < 2 ^ 31) : nextSlot slot inc size = (slot + inc) % size := by
  have hsum : (slot + inc) % 2 ^ 32 = slot + inc := Nat.mod_eq_of_lt (by omega)
  unfold nextSlot
  rw [hsum]
  dsimp only
  split_ifs with hge
  · rw [Nat.mod_eq_sub_mod hge, Nat.mod_eq_of_lt]
    omega
  · rw [Nat.mod_eq_of_lt]
    omega

namespace Table

/-- The path of a key in a table of so many slots. -/
def path (ν : Type) [MapNode ν κ] (count : ℕ) (searched : κ) (place : ℕ) : ℕ :=
  doubleHash count (hashOf ν searched) place

structure Sound (table : Table ν) : Prop where
  prime : table.nBuckets.Prime
  lt : table.nBuckets < 2 ^ 31
  chained : Chained (path ν table.nBuckets) MapNode.key table.slots
  distinct : Distinct MapNode.key table.slots
  nDirty : table.nDirty = table.slots.countP Slot.used
  size : table.size = table.slots.countP Slot.exist

theorem nBuckets_empty (count : ℕ) : (empty count : Table ν).nBuckets = count :=
  List.length_replicate

theorem entries_empty (count : ℕ) : entries (empty count : Table ν).slots = [] := by
  refine List.eq_nil_iff_forall_not_mem.mpr fun node hmem => ?_
  obtain ⟨index, hnode⟩ := mem_entries.mp hmem
  unfold empty at hnode
  rw [slotAt_replicate] at hnode
  cases hnode

theorem sound_empty {count : ℕ} (hprime : count.Prime) (hlt : count < 2 ^ 31) :
    (empty count : Table ν).Sound := by
  have hclean (index : ℕ) : slotAt (empty count : Table ν).slots index = ⟨none, false⟩ :=
    slotAt_replicate count
  constructor
  · rwa [nBuckets_empty]
  · rwa [nBuckets_empty]
  · intro index node hnode
    rw [hclean] at hnode
    cases hnode
  · intro index other node node' hnode
    rw [hclean] at hnode
    cases hnode
  · refine (List.countP_eq_zero.mpr fun slot hmem => ?_).symm
    rw [List.eq_of_mem_replicate hmem]
    exact Bool.false_ne_true
  · refine (List.countP_eq_zero.mpr fun slot hmem => ?_).symm
    rw [List.eq_of_mem_replicate hmem]
    exact Bool.false_ne_true

variable {table next : Table ν}

namespace Sound

theorem one_lt (h : table.Sound) : 1 < table.nBuckets := h.prime.one_lt

theorem path_lt (h : table.Sound) (searched : κ) (place : ℕ) :
    path ν table.nBuckets searched place < table.slots.length := doubleHash_lt h.prime.pos _ _

/-- The first slot of a path. -/
theorem path_zero (searched : κ) :
    hashOf ν searched % table.nBuckets = path ν table.nBuckets searched 0 :=
  (doubleHash_zero _ _).symm

/-- The loops go along the path. -/
theorem path_succ (h : table.Sound) (searched : κ) (place : ℕ) :
    nextSlot (path ν table.nBuckets searched place) (table.inc (hashOf ν searched)) table.nBuckets =
      path ν table.nBuckets searched (place + 1) := by
  have hone := h.one_lt
  have hmod : hashOf ν searched % (table.nBuckets - 1) < table.nBuckets - 1 :=
    Nat.mod_lt _ (by omega)
  unfold path
  rw [doubleHash_succ]
  refine nextSlot_eq (doubleHash_lt h.prime.pos _ _) ?_ h.lt
  unfold inc
  omega

theorem size_le (h : table.Sound) : table.size ≤ table.nDirty := by
  rw [h.size, h.nDirty]
  exact count_exist_le_used

theorem length_entries (h : table.Sound) : (entries table.slots).length = table.size := by
  rw [h.size]
  exact OpenAddressing.length_entries

theorem nodup (h : table.Sound) : (entries table.slots).Nodup := (h.distinct.nodup).of_map _

/-- A slot on the path at which every search ends. -/
theorem exists_unused (h : table.Sound) (hfull : table.nDirty < table.nBuckets) (searched : κ) :
    ∃ last < table.nBuckets,
      (slotAt table.slots (path ν table.nBuckets searched last)).used = false := by
  have hcount : table.slots.countP Slot.used < table.slots.length := by
    rw [← h.nDirty]
    exact hfull
  obtain ⟨index, hlt, hunused⟩ := OpenAddressing.exists_unused hcount
  obtain ⟨last, hlast, rfl⟩ := exists_doubleHash_eq h.prime (hashOf ν searched) hlt
  exact ⟨last, hlast, hunused⟩

end Sound

variable {slots : List (Slot ν)} {index : ℕ}

/-! ## Putting -/

/-- What `put_slot` does: the node is at the slot, where none or one of its key was. -/
structure Put (node : ν) (index : ℕ) (table next : Table ν) : Prop where
  sound : next.Sound
  nBuckets : next.nBuckets = table.nBuckets
  lt : index < table.nBuckets
  put : (slotAt next.slots index).node = some node
  other : ∀ other ≠ index, (slotAt next.slots other).node = (slotAt table.slots other).node
  same : ∀ other old, (slotAt table.slots other).node = some old →
    MapNode.key old = MapNode.key node → other = index
  old : ∀ old, (slotAt table.slots index).node = some old → MapNode.key old = MapNode.key node
  nDirty : next.nDirty ≤ table.nDirty + 1

namespace Sound

/-- The node is written to a slot that is free or has its key. -/
theorem put_write (h : table.Sound) (hmarked : Marked table.slots slots) {node : ν} {place : ℕ}
    (hplace : place < table.nBuckets)
    (hbefore : ∀ before < place,
      (slotAt slots (path ν table.nBuckets (MapNode.key node) before)).dirty = true)
    (hidx : path ν table.nBuckets (MapNode.key node) place = index)
    (hsame : ∀ other old, (slotAt table.slots other).node = some old →
      MapNode.key old = MapNode.key node → other = index)
    (hold : ∀ old, (slotAt table.slots index).node = some old → MapNode.key old = MapNode.key node)
    (hslots : next.slots = write slots index node)
    (hdirty : next.nDirty = table.nDirty + (!(slotAt slots index).used).toNat)
    (hsize : next.size = table.size + (!(slotAt slots index).exist).toNat) :
    Put node index table next := by
  have hlt : index < slots.length := by
    rw [hmarked.length, ← hidx]
    exact h.path_lt _ _
  have hlen : next.nBuckets = table.nBuckets := by
    unfold Table.nBuckets
    rw [hslots]
    exact List.length_set.trans hmarked.length
  have hat : slotAt next.slots index = ⟨some node, (slotAt slots index).dirty⟩ := by
    rw [hslots]
    exact slotAt_set_self hlt _
  have hother (other : ℕ) (hne : other ≠ index) : slotAt next.slots other = slotAt slots other := by
    rw [hslots]
    exact slotAt_set_ne hne _
  refine ⟨⟨?_, ?_, ?_, ?_, ?_, ?_⟩, hlen, ?_, ?_, fun other hne => ?_, hsame, hold, ?_⟩
  · rw [hlen]
    exact h.prime
  · rw [hlen]
    exact h.lt
  · rw [hlen, hslots]
    have hchained := hmarked.chained h.chained
    unfold write
    rw [← hidx] at hlt ⊢
    exact hchained.set (by rw [hmarked.length]; exact hplace) hlt hbefore id
  · rw [hslots]
    refine (hmarked.distinct h.distinct).set hlt fun other old hnode => hsame other old ?_
    rw [← hmarked.node, hnode]
  · have hmarks : slots.countP Slot.used = table.slots.countP Slot.used :=
      count_congr hmarked.length hmarked.used 0
    calc next.nDirty = table.nDirty + (!(slotAt slots index).used).toNat := hdirty
      _ = slots.countP Slot.used + (!(slotAt slots index).used).toNat := by rw [hmarks, h.nDirty]
      _ = (write slots index node).countP Slot.used := (count_set_of_pos hlt rfl).symm
      _ = next.slots.countP Slot.used := by rw [hslots]
  · have hmarks : slots.countP Slot.exist = table.slots.countP Slot.exist :=
      count_congr hmarked.length hmarked.exist 0
    calc next.size = table.size + (!(slotAt slots index).exist).toNat := hsize
      _ = slots.countP Slot.exist + (!(slotAt slots index).exist).toNat := by rw [hmarks, h.size]
      _ = (write slots index node).countP Slot.exist := (count_set_of_pos hlt rfl).symm
      _ = next.slots.countP Slot.exist := by rw [hslots]
  · rw [← hidx]
    exact h.path_lt _ _
  · rw [hat]
  · rw [hother other hne, hmarked.node]
  · rw [hdirty]
    exact Nat.add_le_add_left (Bool.toNat_le _) _

end Sound

namespace Put

theorem mem_entries {node : ν} (h : Put node index table next) (other : ν) :
    other ∈ entries next.slots ↔
      other = node ∨ other ∈ entries table.slots ∧ MapNode.key other ≠ MapNode.key node := by
  rw [OpenAddressing.mem_entries, OpenAddressing.mem_entries]
  constructor
  · rintro ⟨slot, hslot⟩
    by_cases heq : slot = index
    · rw [heq, h.put] at hslot
      exact .inl (Option.some.inj hslot).symm
    · rw [h.other slot heq] at hslot
      exact .inr ⟨⟨slot, hslot⟩, fun hkey => heq (h.same slot other hslot hkey)⟩
  · rintro (rfl | ⟨⟨slot, hslot⟩, hkey⟩)
    · exact ⟨index, h.put⟩
    · have hne : slot ≠ index := by
        rintro rfl
        exact hkey (h.old other hslot)
      exact ⟨slot, (h.other slot hne).trans hslot⟩

/-- Of the slots from one on, at most one more has a node. -/
theorem count_drop {node : ν} (h : Put node index table next) (start : ℕ) :
    (next.slots.drop start).countP Slot.exist ≤ (table.slots.drop start).countP Slot.exist + 1 := by
  have hlt : index < table.slots.length := h.lt
  have hcongr : (next.slots.drop start).countP Slot.exist =
      ((table.slots.set index ⟨some node, false⟩).drop start).countP Slot.exist := by
    refine count_congr (h.nBuckets.trans List.length_set.symm) (fun other => ?_) start
    unfold Slot.exist
    by_cases heq : other = index
    · rw [heq, h.put, slotAt_set_self hlt]
    · rw [h.other other heq, slotAt_set_ne heq]
  rw [hcongr]
  rcases lt_or_ge index start with hidx | hidx
  · rw [drop_set_of_lt _ hidx]
    exact Nat.le_succ _
  · have hcount := @count_drop_set _ _ _ Slot.exist _ hlt ⟨some node, false⟩ hidx
    exact (Nat.le_add_right _ _).trans_eq hcount

end Put

/-! ## Deleting -/

theorem nBuckets_free (table : Table ν) (x : ℕ) : (table.free x).nBuckets = table.nBuckets :=
  List.length_set

theorem slotAt_free_self {node : ν} (hnode : (slotAt table.slots index).node = some node) :
    slotAt (table.free index).slots index = ⟨none, (slotAt table.slots index).dirty⟩ :=
  slotAt_set_self (lt_of_node hnode) _

theorem slotAt_free_ne {other : ℕ} (h : other ≠ index) :
    slotAt (table.free index).slots other = slotAt table.slots other := slotAt_set_ne h _

/-- Of the slots from one on, one less has a node if the one that is freed is among them. -/
theorem count_drop_free {node : ν}
    (hnode : (slotAt table.slots index).node = some node) (start : ℕ) :
    ((table.free index).slots.drop start).countP Slot.exist + (if start ≤ index then 1 else 0) =
      (table.slots.drop start).countP Slot.exist := by
  split_ifs with hstart
  · have hcount := @count_drop_set _ _ _ Slot.exist _ (lt_of_node hnode)
      ⟨none, (slotAt table.slots index).dirty⟩ hstart
    rw [Slot.exist_of_some hnode] at hcount
    exact hcount
  · rw [add_zero]
    exact congrArg _ (drop_set_of_lt _ (not_le.mp hstart))

theorem nDirty_free_le (table : Table ν) (x : ℕ) : (table.free x).nDirty ≤ table.nDirty := by
  unfold free
  dsimp only
  split_ifs
  · exact le_rfl
  · exact Nat.sub_le _ _

namespace Sound

theorem free (h : table.Sound) {node : ν} (hnode : (slotAt table.slots index).node = some node) :
    (table.free index).Sound := by
  have hlt := lt_of_node hnode
  have hkept (other : ℕ) (old : ν) (hold : (slotAt (table.free index).slots other).node =
    some old) :
      (slotAt table.slots other).node = some old := by
    by_cases heq : other = index
    · rw [heq, slotAt_free_self hnode] at hold
      cases hold
    · rwa [slotAt_free_ne heq] at hold
  have hdirty (other : ℕ) (hother : (slotAt table.slots other).dirty = true) :
      (slotAt (table.free index).slots other).dirty = true := by
    by_cases heq : other = index
    · rw [heq, slotAt_free_self hnode]
      rwa [heq] at hother
    · rwa [slotAt_free_ne heq]
  constructor
  · rw [nBuckets_free]
    exact h.prime
  · rw [nBuckets_free]
    exact h.lt
  · rw [nBuckets_free]
    exact h.chained.mono List.length_set hkept hdirty
  · exact h.distinct.mono hkept
  · have hcount := @count_set _ _ _ Slot.used hlt ⟨none, (slotAt table.slots index).dirty⟩
    rw [Slot.used_of_some hnode, ← h.nDirty] at hcount
    unfold Table.free
    dsimp only
    cases hclean : (slotAt table.slots index).dirty <;> rw [hclean] at hcount <;>
      simp only [Slot.used, Option.isSome_none, Bool.or_true, Bool.or_false, Bool.toNat_true,
        Bool.toNat_false, Bool.false_eq_true, if_true, if_false] at hcount ⊢ <;> omega
  · have hcount := count_drop_free hnode 0
    rw [List.drop_zero, List.drop_zero, ← h.size, if_pos (Nat.zero_le _)] at hcount
    unfold Table.free at hcount ⊢
    dsimp only at hcount ⊢
    omega

theorem mem_entries_free (h : table.Sound) {node : ν}
    (hnode : (slotAt table.slots index).node = some node) (other : ν) :
    other ∈ entries (table.free index).slots ↔
      other ∈ entries table.slots ∧ MapNode.key other ≠ MapNode.key node := by
  rw [OpenAddressing.mem_entries, OpenAddressing.mem_entries]
  constructor
  · rintro ⟨slot, hslot⟩
    have hne : slot ≠ index := by
      rintro rfl
      rw [slotAt_free_self hnode] at hslot
      cases hslot
    rw [slotAt_free_ne hne] at hslot
    exact ⟨⟨slot, hslot⟩, fun hkey => hne (h.distinct slot index other node hslot hnode hkey)⟩
  · rintro ⟨⟨slot, hslot⟩, hkey⟩
    have hne : slot ≠ index := by
      rintro rfl
      rw [Option.some.inj (hslot.symm.trans hnode)] at hkey
      exact hkey rfl
    exact ⟨slot, (congrArg Slot.node (slotAt_free_ne hne)).trans hslot⟩

end Sound

/-! ## The loops -/

variable [DecidableEq κ] {searched : κ}

theorem same_iff : same searched (slotAt slots index) = true ↔
    Holds MapNode.key slots searched index := by
  unfold same Holds
  rw [Option.any_eq_true]
  exact exists_congr fun node => and_congr_right fun _ => decide_eq_true_iff

namespace Sound

/-! ### Searching -/

variable {last : ℕ}

/-- A search from a place on its path, in front of that of the node. -/
theorem findFrom_of_holds (h : table.Sound) {node : ν}
    (hnode : (slotAt table.slots (path ν table.nBuckets (MapNode.key node) last)).node =
    some node)
    (hbefore : ∀ before < last,
      (slotAt table.slots (path ν table.nBuckets (MapNode.key node) before)).dirty = true)
    (fuel place : ℕ) (hplace : place ≤ last) (hfuel : last - place < fuel) :
    table.findFrom (MapNode.key node) (table.inc (hashOf ν (MapNode.key node))) fuel
        (path ν table.nBuckets (MapNode.key node) place) =
      some (path ν table.nBuckets (MapNode.key node) last) := by
  induction fuel generalizing place with
  | zero => omega
  | succ fuel ih =>
    unfold findFrom
    split_ifs with hsame hdirty
    · obtain ⟨other, hother, hkey⟩ := same_iff.mp hsame
      rw [h.distinct _ _ other node hother hnode hkey]
    · have hne : place ≠ last := fun heq => hsame (same_iff.mpr ⟨node, by rw [heq, hnode], rfl⟩)
      rw [h.path_succ]
      exact ih (place + 1) (by omega) (by omega)
    · have hne : place ≠ last := fun heq => hsame (same_iff.mpr ⟨node, by rw [heq, hnode], rfl⟩)
      exact absurd (hbefore place (by omega)) hdirty

/-- A node is found by its key. -/
theorem find_of_node (h : table.Sound) {node : ν}
    (hnode : (slotAt table.slots index).node = some node) :
    table.find (MapNode.key node) = some index := by
  obtain ⟨last, hlast, rfl, hbefore⟩ := h.chained index node hnode
  unfold find
  dsimp only
  rw [path_zero]
  exact h.findFrom_of_holds hnode hbefore _ 0 (Nat.zero_le _) hlast

theorem findFrom_of_absent (h : table.Sound)
    (hlast : (slotAt table.slots (path ν table.nBuckets searched last)).dirty = false)
    (habsent : ∀ index, ¬Holds MapNode.key table.slots searched index) (fuel place : ℕ)
    (hplace : place ≤ last) (hfuel : last - place < fuel) :
    table.findFrom searched (table.inc (hashOf ν searched)) fuel
        (path ν table.nBuckets searched place) = some table.nBuckets := by
  induction fuel generalizing place with
  | zero => omega
  | succ fuel ih =>
    unfold findFrom
    rw [if_neg fun hsame => habsent _ (same_iff.mp hsame)]
    split_ifs with hdirty
    · have hne : place ≠ last := fun heq => by rw [heq, hlast] at hdirty; cases hdirty
      rw [h.path_succ]
      exact ih (place + 1) (by omega) (by omega)
    · rfl

/-- A key that no node has. -/
theorem find_of_absent (h : table.Sound) (hfull : table.nDirty < table.nBuckets)
    (habsent : ∀ index, ¬Holds MapNode.key table.slots searched index) :
    table.find searched = some table.nBuckets := by
  obtain ⟨last, hlast, hunused⟩ := h.exists_unused hfull searched
  have hclean := (Bool.or_eq_false_iff.mp hunused).2
  unfold find
  dsimp only
  rw [path_zero]
  exact h.findFrom_of_absent hclean habsent _ 0 (Nat.zero_le _) hlast

/-! ### Putting -/

/-- The first loop, from a place on its path. -/
theorem skip_eq (h : table.Sound)
    (hlast : (slotAt table.slots (path ν table.nBuckets searched last)).used = false)
    (fuel place : ℕ) (hplace : place ≤ last) (hfuel : last - place < fuel)
    (hmarked : Marked table.slots slots)
    (hbefore : ∀ before < place,
      (slotAt slots (path ν table.nBuckets searched before)).dirty = true ∧
        ¬Holds MapNode.key table.slots searched (path ν table.nBuckets searched before)) :
    ∃ exist marked stop,
      skip searched (table.inc (hashOf ν searched)) fuel slots
        (path ν table.nBuckets searched place) =
        some (exist, marked, path ν table.nBuckets searched stop) ∧ stop ≤ last ∧
      Marked table.slots marked ∧
      (∀ before < stop, (slotAt marked (path ν table.nBuckets searched before)).dirty = true ∧
        ¬Holds MapNode.key table.slots searched (path ν table.nBuckets searched before)) ∧
      (exist = true →
        Holds MapNode.key table.slots searched (path ν table.nBuckets searched stop)) ∧
      (exist = false → (slotAt table.slots (path ν table.nBuckets searched stop)).node = none) := by
  induction fuel generalizing slots place with
  | zero => omega
  | succ fuel ih =>
    unfold skip
    split
    · rename_i hnone
      rw [hmarked.node] at hnone
      exact ⟨false, slots, place, rfl, hplace, hmarked, hbefore, nofun,
        fun _ => hnone⟩
    · rename_i node hsome
      have hnode := (hmarked.node _).symm.trans hsome
      split_ifs with hkey
      · exact ⟨true, slots, place, rfl, hplace, hmarked, hbefore, fun _ => ⟨node, hnode, hkey⟩,
          nofun⟩
      · have hne : place ≠ last := by
          rintro rfl
          rw [Slot.used_of_some hnode] at hlast
          cases hlast
        have hmarks := Marked.set hsome
        have hlen : slots.length = table.nBuckets := hmarked.length
        rw [hlen, h.path_succ]
        refine ih (place + 1) (by omega) (by omega) (hmarked.trans hmarks) fun before hlt => ?_
        rcases Nat.lt_succ_iff_lt_or_eq.mp hlt with hlt | rfl
        · exact ⟨hmarks.dirty _ (hbefore before hlt).1, (hbefore before hlt).2⟩
        · constructor
          · rw [slotAt_set_self (lt_of_node hsome)]
          · rintro ⟨other, hother, hsame⟩
            obtain rfl := Option.some.inj (hnode.symm.trans hother)
            exact hkey hsame

/-- The second loop, from a place up to which no node has the key. -/
theorem duplicate_eq (h : table.Sound)
    (hlast : (slotAt table.slots (path ν table.nBuckets searched last)).used = false)
    (hmarked : Marked table.slots slots) (fuel place : ℕ) (hplace : place ≤ last)
    (hfuel : last - place < fuel)
    (hbefore : ∀ before ≤ place,
      ¬Holds MapNode.key table.slots searched (path ν table.nBuckets searched before)) :
    (∃ index, duplicate slots searched (table.inc (hashOf ν searched)) fuel
        (path ν table.nBuckets searched place) = some (some index) ∧
      Holds MapNode.key table.slots searched index) ∨
    duplicate slots searched (table.inc (hashOf ν searched)) fuel
        (path ν table.nBuckets searched place) = some none ∧
      ∀ index, ¬Holds MapNode.key table.slots searched index := by
  have hlen : slots.length = table.nBuckets := hmarked.length
  induction fuel generalizing place with
  | zero => omega
  | succ fuel ih =>
    unfold duplicate
    rw [hlen, h.path_succ]
    dsimp only
    split_ifs with hdirty hsame
    · exact .inl ⟨_, rfl, hmarked.holds.mp (same_iff.mp hsame)⟩
    · have hne : place ≠ last := by
        rintro rfl
        rw [← hmarked.used] at hlast
        exact absurd hdirty (Bool.not_eq_true _ ▸ (Bool.or_eq_false_iff.mp hlast).2)
      refine ih (place + 1) (by omega) (by omega) fun before hle => ?_
      rcases Nat.le_succ_iff.mp hle with hle | rfl
      · exact hbefore before hle
      · exact fun hholds => hsame (same_iff.mpr (hmarked.holds.mpr hholds))
    · refine .inr ⟨rfl, fun index hholds => ?_⟩
      exact (hmarked.chained h.chained).not_holds
        (fun before hle hholds => hbefore before hle (hmarked.holds.mp hholds))
        (Bool.eq_false_of_not_eq_true hdirty) index (hmarked.holds.mpr hholds)

/-- `put_slot` ends where the table is not full. -/
theorem putSlot (h : table.Sound) (hfull : table.nDirty < table.nBuckets) (node : ν) :
    ∃ index next, table.putSlot node = some (index, next) ∧ Put node index table next := by
  obtain ⟨last, hlast, hunused⟩ := h.exists_unused hfull (MapNode.key node)
  obtain ⟨exist, slots, stop, hskip, hstop, hmarked, hbefore, hexist, hfree⟩ :=
    h.skip_eq hunused table.nBuckets 0 (Nat.zero_le _) hlast (Marked.refl _)
      fun before hlt => absurd hlt (Nat.not_lt_zero _)
  have hnot (hnone : (slotAt table.slots (path ν table.nBuckets (MapNode.key node) stop)).node =
    none) (before : ℕ) (hle : before ≤ stop) : ¬Holds MapNode.key table.slots (MapNode.key node)
        (path ν table.nBuckets (MapNode.key node) before) := by
    rcases Nat.lt_or_eq_of_le hle with hlt | rfl
    · exact (hbefore before hlt).2
    · rintro ⟨other, hother, -⟩
      rw [hnone] at hother
      cases hother
  -- A duplicate on the path, at which both loops may stop.
  have hput (index : ℕ) (hholds : Holds MapNode.key table.slots (MapNode.key node) index) :
      Put node index table { table with slots := write slots index node } := by
    obtain ⟨old, hold, hkey⟩ := hholds
    have hchained := hmarked.chained h.chained
    obtain ⟨place, hplace, hpath, hdirty⟩ := hchained index old ((hmarked.node index).trans hold)
    rw [hmarked.length] at hplace
    rw [hkey] at hpath hdirty
    have hsome : (slotAt slots index).node = some old := (hmarked.node index).trans hold
    refine h.put_write hmarked hplace hdirty hpath (fun other node' hother hsame => ?_)
      (fun node' hnode' => ?_) rfl ?_ ?_
    · exact h.distinct other index node' old hother hold (hsame.trans hkey.symm)
    · rw [Option.some.inj (hnode'.symm.trans hold), hkey]
    · rw [Slot.used_of_some hsome]
      rfl
    · rw [Slot.exist_of_some hsome]
      rfl
  unfold Table.putSlot
  dsimp only
  rw [path_zero, hskip, Option.bind_eq_bind, Option.bind_some]
  dsimp only
  cases exist with
  | true => exact ⟨_, _, rfl, hput _ (hexist rfl)⟩
  | false =>
    have hnone := hfree rfl
    rw [if_neg Bool.false_ne_true]
    rcases h.duplicate_eq hunused hmarked table.nBuckets stop hstop (by omega) (hnot hnone) with
      ⟨index, hduplicate, hholds⟩ | ⟨hduplicate, habsent⟩
    · rw [hduplicate]
      exact ⟨_, _, rfl, hput index hholds⟩
    · rw [hduplicate]
      have hfresh : (slotAt slots (path ν table.nBuckets (MapNode.key node) stop)).node = none :=
        (hmarked.node _).trans hnone
      refine ⟨_, _, rfl, h.put_write hmarked (hstop.trans_lt hlast) (fun before hlt =>
        (hbefore before hlt).1) rfl (fun other node' hother hsame => ?_)
          (fun node' hnode' => ?_) rfl
        ?_ ?_⟩
      · exact absurd ⟨node', hother, hsame⟩ (habsent other)
      · rw [hnone] at hnode'
        cases hnode'
      · rw [Slot.used_of_none hfresh]
        split_ifs with hdirty
        · rw [hdirty]
          rfl
        · rw [Bool.eq_false_of_not_eq_true hdirty]
          rfl
      · rw [Slot.exist_of_none hfresh]
        rfl

/-! ### Deleting -/

/-- `get` and `del` of the key of a node, whether it is there or not. -/
theorem exists_del (h : table.Sound) (hfull : table.nDirty < table.nBuckets) (node : ν)
    (hsame : ∀ other ∈ entries table.slots, MapNode.key other = MapNode.key node → other = node) :
    ∃ y, table.get node = some y ∧ (table.del y).Sound ∧
      (table.del y).nBuckets = table.nBuckets ∧ (table.del y).nDirty ≤ table.nDirty ∧
      ∀ other, other ∈ entries (table.del y).slots ↔ other ∈ entries table.slots ∧
        MapNode.key other ≠ MapNode.key node := by
  by_cases hmem : node ∈ entries table.slots
  · obtain ⟨y, hnode⟩ := OpenAddressing.mem_entries.mp hmem
    have hdel : table.del y = table.free y :=
      if_pos ⟨(lt_of_node hnode).ne, Slot.exist_of_some hnode⟩
    refine ⟨y, h.find_of_node hnode, ?_⟩
    rw [hdel]
    exact ⟨h.free hnode, nBuckets_free _ _, nDirty_free_le _ _, h.mem_entries_free hnode⟩
  · have habsent (other : ν) (hother : other ∈ entries table.slots) :
        MapNode.key other ≠ MapNode.key node := fun hkey => hmem (hsame other hother hkey ▸ hother)
    have hfind : table.get node = some table.nBuckets := by
      refine h.find_of_absent hfull fun index hholds => ?_
      obtain ⟨other, hother, hkey⟩ := hholds
      exact habsent other (OpenAddressing.mem_entries.mpr ⟨index, hother⟩) hkey
    have hdel : table.del table.nBuckets = table := if_neg fun hne => hne.1 rfl
    refine ⟨table.nBuckets, hfind, ?_⟩
    rw [hdel]
    exact ⟨h, rfl, le_rfl, fun other => ⟨fun hother => ⟨hother, habsent other hother⟩, And.left⟩⟩

end Sound

end Table

end FengShui.SimpleMap
