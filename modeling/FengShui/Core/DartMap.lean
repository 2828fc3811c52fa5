import FengShui.Core.Dart

/-!
# Maps (`dart:core`)

A Dart `Map` literal keeps its entries in the order in which their keys came in; an assignment to a
key that is there leaves it in its place.
-/

namespace FengShui

open List

structure DartMap (κ ν : Type) where
  entries : List (κ × ν)
  /-- No key has two entries. -/
  nodup : (entries.map Prod.fst).Nodup

namespace DartMap

variable {κ ν : Type}

def empty : DartMap κ ν := ⟨[], List.nodup_nil⟩

def keys (map : DartMap κ ν) : List κ := map.entries.map Prod.fst

def values (map : DartMap κ ν) : List ν := map.entries.map Prod.snd

variable [DecidableEq κ]

/-- `map[key]`. -/
def get? (map : DartMap κ ν) (key : κ) : Option ν :=
  (map.entries.find? fun entry => entry.1 = key).map Prod.snd

/-- `map[key] = value`. -/
def set (map : DartMap κ ν) (key : κ) (value : ν) : DartMap κ ν :=
  if h : key ∈ map.keys then
    { entries := map.entries.map fun entry => if entry.1 = key then (key, value) else entry
      nodup := by
        have hkeys :
          (map.entries.map fun entry => if entry.1 = key then (key, value) else entry).map
            Prod.fst = map.entries.map Prod.fst := by
          rw [List.map_map]
          refine List.map_congr_left fun entry _ => ?_
          rw [Function.comp_apply]
          split
          · rename_i heq
            exact heq.symm
          · rfl
        rw [hkeys]
        exact map.nodup }
  else
    { entries := map.entries ++ [(key, value)]
      nodup := by
        rw [List.map_append]
        exact List.Nodup.append map.nodup (List.nodup_singleton key) (by simpa [keys] using h) }

def remove (map : DartMap κ ν) (key : κ) : DartMap κ ν where
  entries := map.entries.filter fun entry => entry.1 ≠ key
  nodup := map.nodup.sublist (List.filter_sublist.map _)

variable (map : DartMap κ ν) (key : κ)

variable {value : ν} {other : κ}

/-- A key has the value of its entry. -/
theorem get?_eq_some : map.get? key = some value ↔ (key, value) ∈ map.entries := by
  obtain ⟨entries, hnodup⟩ := map
  unfold get?
  dsimp only
  induction entries with
  | nil => simp
  | cons entry entries ih =>
    obtain ⟨first, second⟩ := entry
    rw [map_cons, nodup_cons] at hnodup
    rw [find?_cons]
    by_cases hkey : first = key
    -- The keys have no duplicates, so the first entry is the only one with its key.
    · subst hkey
      simp only [decide_true, Option.map_some, Option.some.injEq, mem_cons, Prod.mk.injEq,
        true_and]
      refine ⟨fun h => .inl h.symm, ?_⟩
      rintro (h | hmem)
      · exact h.symm
      · exact absurd (mem_map_of_mem (f := Prod.fst) hmem) hnodup.1
    · simp only [hkey, decide_false, mem_cons, Prod.mk.injEq]
      rw [ih hnodup.2]
      refine ⟨.inr, ?_⟩
      rintro (⟨h, -⟩ | hmem)
      · exact absurd h.symm hkey
      · exact hmem

theorem get?_set_self (value : ν) : (map.set key value).get? key = some value := by
  rw [get?_eq_some, set]
  split
  · rename_i h
    obtain ⟨entry, hmem, hkey⟩ := mem_map.mp h
    exact mem_map.mpr ⟨entry, hmem, if_pos hkey⟩
  · exact mem_append_right _ mem_cons_self

theorem get?_set_of_ne (h : other ≠ key) (value : ν) :
    (map.set key value).get? other = map.get? other := by
  refine Option.ext fun found => ?_
  rw [get?_eq_some, get?_eq_some, set]
  split
  · constructor
    · intro hmem
      obtain ⟨entry, hmem, hent⟩ := mem_map.mp hmem
      split at hent
      · cases hent
        exact absurd rfl h
      · rwa [← hent]
    · intro hmem
      exact mem_map.mpr ⟨_, hmem, if_neg h⟩
  · simp [h]

/-- What is there after an assignment is what is assigned, or was there before. -/
theorem get?_of_set {found : ν} (h : (map.set key value).get? other = some found) :
    other = key ∧ found = value ∨ other ≠ key ∧ map.get? other = some found := by
  by_cases hkey : other = key
  · rw [hkey, get?_set_self] at h
    exact .inl ⟨hkey, (Option.some.inj h).symm⟩
  · rw [get?_set_of_ne map key hkey] at h
    exact .inr ⟨hkey, h⟩

/-- A key without a value is not among the keys. -/
theorem get?_eq_none (h : key ∉ map.keys) : map.get? key = none := by
  rw [Option.eq_none_iff_forall_ne_some]
  intro value hval
  rw [get?_eq_some] at hval
  exact h (mem_map_of_mem (f := Prod.fst) hval)

theorem mem_keys_iff : key ∈ map.keys ↔ ∃ value, map.get? key = some value := by
  constructor
  · intro h
    obtain ⟨entry, hmem, rfl⟩ := mem_map.mp h
    exact ⟨entry.2, (map.get?_eq_some entry.1).mpr hmem⟩
  · rintro ⟨value, hval⟩
    exact mem_map.mpr ⟨(key, value), (map.get?_eq_some key).mp hval, rfl⟩

/-- An assignment to a key that is there. -/
theorem keys_set_of_mem (h : key ∈ map.keys) (value : ν) : (map.set key value).keys = map.keys := by
  unfold set
  rw [dif_pos h]
  unfold keys
  rw [map_map]
  apply map_congr_left
  intro entry _
  rw [Function.comp_apply]
  split
  · next heq => exact heq.symm
  · rfl

/-- An assignment to a new key. -/
theorem keys_set_of_notMem (h : key ∉ map.keys) (value : ν) :
    (map.set key value).keys = map.keys ++ [key] := by
  unfold set
  rw [dif_neg h]
  unfold keys
  rw [map_append]
  rfl

theorem keys_remove : (map.remove key).keys = map.keys.filter (· ≠ key) := by
  unfold keys remove
  rw [filter_map]
  rfl

@[simp]
theorem get?_remove_self : (map.remove key).get? key = none := by
  rw [Option.eq_none_iff_forall_ne_some]
  intro value h
  simp [get?_eq_some, remove] at h

theorem get?_remove_of_ne (h : other ≠ key) : (map.remove key).get? other = map.get? other := by
  refine Option.ext fun found => ?_
  simp [get?_eq_some, remove, h]

/-- What is there after a removal was there before. -/
theorem get?_of_remove (h : (map.remove key).get? other = some value) :
    other ≠ key ∧ map.get? other = some value := by
  by_cases hkey : other = key
  · rw [hkey, get?_remove_self] at h
    cases h
  · exact ⟨hkey, by rwa [get?_remove_of_ne map key hkey] at h⟩

end DartMap

end FengShui
