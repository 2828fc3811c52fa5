import FengShui.Core.MapDeletions

/-!
# The hash map answers like a function (`core/native/maps/simple.h`)

What `put_copy`, `remove`, `find_value` and `keys` say from outside, whatever resize is under way
below them: the table and its shadow refine a function from the keys to the nodes (`Refines`), and a
map that is used with these calls answers as the function would (`answers_of_run`).
-/

namespace FengShui.SimpleMap

open OpenAddressing Transition

variable {κ ν : Type} [MapNode ν κ] [DecidableEq κ]

namespace Map

/-! ## The operations -/

/-- `remove`. -/
def remove (map : Map ν) (node : ν) : Option (Map ν) := do
  let k ← map.table.get node
  if k ≠ map.table.nBuckets then map.del k else some map

omit [DecidableEq κ] in
/-- `keys`, which are the nodes. -/
def keys (map : Map ν) : List ν := map.foreach.map Prod.snd

inductive MapRequest (ν : Type) where
  | putCopy (node : ν)
  | remove (node : ν)
  deriving DecidableEq, Repr

def ask (map : Map ν) : MapRequest ν → Option (Map ν)
  | .putCopy node => map.putCopy node
  | .remove node => map.remove node

/-! ## The function behind them -/

/-- What a request makes of the nodes of the keys. -/
def MapRequest.apply (view : κ → Option ν) : MapRequest ν → κ → Option ν
  | .putCopy node => Function.update view (MapNode.key node) (some node)
  | .remove node => Function.update view (MapNode.key node) none

/-- The node of each key behind the requests. -/
def held (requests : List (MapRequest ν)) : κ → Option ν :=
  requests.foldl MapRequest.apply fun _ => none

omit [DecidableEq κ] in
/-- The nodes of the map are those of the function. -/
structure Refines (view : κ → Option ν) (map : Map ν) : Prop where
  valid : Valid map
  nodes : ∀ searched node, view searched = some node ↔
    node ∈ map.nodes ∧ MapNode.key node = searched

variable {map next : Map ν} {view : κ → Option ν}

/-- `remove` takes the node of the key, if there is one. -/
theorem Valid.exists_remove (h : Valid map) (node : ν) :
    ∃ next, map.remove node = some next ∧ Valid next ∧
      ∀ other, other ∈ next.nodes ↔ other ∈ map.nodes ∧ MapNode.key other ≠ MapNode.key node := by
  unfold Map.remove Table.get
  by_cases hholds : ∃ old ∈ map.nodes, MapNode.key old = MapNode.key node
  · obtain ⟨old, hold, hkey⟩ := hholds
    obtain ⟨index, hidx⟩ := mem_nodes.mp hold
    obtain ⟨next, hdel, hdeleted⟩ := h.del hidx
    have hlt : index < map.table.nBuckets := lt_of_node hidx
    refine ⟨next, ?_, hdeleted.valid, fun other => ?_⟩
    · rw [← hkey, h.table.find_of_node hidx, Option.bind_eq_bind, Option.bind_some,
        if_pos hlt.ne, hdel]
    · rw [hdeleted.nodes, ← hkey]
      exact and_congr_right fun hother => (h.ne_iff_key hold hother).symm
  · refine ⟨map, ?_, h, fun other => (and_iff_left_of_imp fun hother hkey => ?_).symm⟩
    · have habsent := h.table.find_of_absent h.nDirty_lt fun index ⟨old, hold, hkey⟩ =>
        hholds ⟨old, mem_nodes.mpr ⟨index, hold⟩, hkey⟩
      rw [habsent, Option.bind_eq_bind, Option.bind_some, if_neg (not_not.mpr rfl)]
    · exact hholds ⟨other, hother, hkey⟩

namespace Refines

theorem findValue (h : Refines view map) (searched : κ) :
    map.findValue searched = some (view searched) := by
  cases hview : view searched with
  | some node =>
    obtain ⟨hnode, rfl⟩ := (h.nodes searched node).mp hview
    exact h.valid.findValue hnode
  | none =>
    refine h.valid.findValue_of_absent fun node hnode hkey => ?_
    rw [(h.nodes searched node).mpr ⟨hnode, hkey⟩] at hview
    cases hview

/-- A node that is put takes the place of the one of its key. -/
theorem exists_putCopy (h : Refines view map) (node : ν)
    (hprime : map.resizePosition = 0 → map.table.upperBound ≤ map.table.nDirty → map.prime < 28) :
    ∃ next, map.putCopy node = some next ∧
      Refines (MapRequest.apply view (.putCopy node)) next := by
  obtain ⟨next, hput, hvalid, hnodes⟩ := h.valid.putCopy node hprime
  refine ⟨next, hput, hvalid, fun searched other => ?_⟩
  rw [hnodes]
  by_cases hkey : searched = MapNode.key node
  · subst hkey
    simp only [MapRequest.apply, Function.update_self, Option.some.injEq]
    constructor
    · rintro rfl
      exact ⟨.inl rfl, rfl⟩
    · rintro ⟨rfl | ⟨-, hne⟩, hsame⟩
      · rfl
      · exact absurd hsame hne
  · rw [MapRequest.apply, Function.update_of_ne hkey, h.nodes]
    constructor
    · rintro ⟨hmem, rfl⟩
      exact ⟨.inr ⟨hmem, hkey⟩, rfl⟩
    · rintro ⟨rfl | ⟨hmem, -⟩, rfl⟩
      · exact absurd rfl hkey
      · exact ⟨hmem, rfl⟩

/-- `remove` of a node, whether one of its key is there or not. -/
theorem exists_remove (h : Refines view map) (node : ν) :
    ∃ next, map.remove node = some next ∧ Refines (MapRequest.apply view (.remove node)) next := by
  obtain ⟨next, hremove, hvalid, hnodes⟩ := h.valid.exists_remove node
  refine ⟨next, hremove, hvalid, fun searched other => ?_⟩
  rw [hnodes]
  by_cases hsearched : searched = MapNode.key node
  · subst hsearched
    simp only [MapRequest.apply, Function.update_self]
    exact ⟨nofun, fun ⟨⟨_, hne⟩, hsame⟩ => absurd hsame hne⟩
  · rw [MapRequest.apply, Function.update_of_ne hsearched, h.nodes]
    refine and_congr_left fun hsame => (and_iff_left ?_).symm
    rwa [hsame]

/-- One request, while the sizes are below `2^31`. -/
theorem ask {request : MapRequest ν} (h : map.prime < 29 → Refines view map)
    (hask : map.ask request = some next) (hprime : next.prime < 29) :
    Refines (request.apply view) next := by
  cases request with
  | putCopy node =>
    have hrefines := h ((prime_of_putCopy hask).1.trans_lt hprime)
    obtain ⟨after, hput, hafter⟩ := hrefines.exists_putCopy node (hrefines.valid.larger hask hprime)
    obtain rfl := Option.some.inj (hput.symm.trans hask)
    exact hafter
  | remove node =>
    have hless : map.prime < 29 := by
      unfold Map.ask Map.remove at hask
      obtain ⟨k, -, hk⟩ := Option.bind_eq_some_iff.mp hask
      split_ifs at hk
      · exact (prime_of_del hk).symm.trans_lt hprime
      · exact Option.some.inj hk ▸ hprime
    obtain ⟨after, hremove, hafter⟩ := (h hless).exists_remove node
    obtain rfl := Option.some.inj (hremove.symm.trans hask)
    exact hafter

end Refines

/-- A map that is used with `put_copy` and `remove` answers as the function from the keys to the
nodes does, whatever resizes there were, while its sizes are below `2^31`. -/
theorem answers_of_run {capacity : ℕ} {start : Map ν}
    (hstart : (create : Map ν).reserve capacity = some start) (requests : List (MapRequest ν))
    (map : Map ν) (hrun : run ask start requests = some map) (hprime : map.prime < 29) :
    (∀ searched, map.findValue searched = some (held requests searched)) ∧
    (∀ node, node ∈ map.keys ↔ held requests (MapNode.key node) = some node) ∧
    map.keys.Nodup ∧ map.keys.length = map.table.size ∧
    (∀ node, (map.remove node).isSome) ∧
    (map.prime < 28 → ∀ node, (map.putCopy node).isSome) := by
  have hrefines : map.prime < 29 → Refines (held requests) map := by
    refine run_induction (fun history map => map.prime < 29 → Refines (held history) map)
      (fun history _ request next h _ hask hnext => ?_) (fun hless => ?_)
        (along_true start requests) hrun
    · have hheld : held (history ++ [request]) = request.apply (held history) := by
        simp [held, List.foldl_append]
      rw [hheld]
      exact Refines.ask h hask hnext
    · obtain ⟨hvalid, hnodes⟩ := valid_of_reserve hstart hless
      refine ⟨hvalid, fun searched node => ?_⟩
      rw [hnodes]
      simp [held]
  have h := hrefines hprime
  have hkeys : map.keys = map.nodes := foreach_snd
  refine ⟨h.findValue, fun node => ?_, ?_, ?_, fun node => ?_, fun hless node => ?_⟩
  · rw [hkeys, h.nodes]
    exact (and_iff_left rfl).symm
  · rw [hkeys]
    exact h.valid.nodup
  · rw [hkeys]
    exact h.valid.table.length_entries
  · obtain ⟨next, hremove, -⟩ := h.exists_remove node
    rw [hremove]
    rfl
  · obtain ⟨next, hput, -⟩ := h.exists_putCopy node fun _ _ => hless
    rw [hput]
    rfl

/-- A node that is a key and its value. -/
instance pairNode : MapNode (ℕ × ℕ) ℕ := ⟨Prod.fst, id⟩

/-- The third node makes the first table too small, and the last takes the place of the first. -/
theorem answers_of_run_pairs : ∃ map : Map (ℕ × ℕ), run ask create [.putCopy (1, 10),
    .putCopy (2, 20), .putCopy (3, 30), .remove (2, 0), .putCopy (1, 11)] = some map ∧
      map.findValue 1 = some (some (1, 11)) := by
  refine ⟨?map, ?run, (@answers_of_run _ _ _ _ 0 create rfl _ ?map ?run ?_).1 1⟩
  case run => rfl
  decide

end Map

end FengShui.SimpleMap
