import FengShui.Core.MapRefinement

/-!
# The events of the native transport (`transport/transport.c`, `transport/maps.h`)

Every operation that is submitted has a node in a hash map, by its user data. A completion takes the
node of one operation. `transport_cancel_by_fd` and `transport_check_event_timeouts` go over the
slots, prepare a cancel for each node that is selected and keep the number of its slot; then they
delete the slots by their numbers. Where these deletions are in place, exactly the selected nodes
go.
-/

namespace FengShui.Transport

open FengShui.Transition FengShui.OpenAddressing FengShui.SimpleMap FengShui.SimpleMap.Map

/-- `TRANSPORT_TIMEOUT_INFINITY`. -/
def transportTimeoutInfinity : ℤ := -1

/-- `simple_map_transport_event`. -/
structure Node where
  data : ℕ
  timeout : ℤ
  timestamp : ℕ
  fd : ℕ
  deriving DecidableEq, Repr

/-- `simple_map_hash`, `simple_map_cmp` and `simple_map_cmp_key` of the events. -/
instance : MapNode Node ℕ where
  key := Node.data
  hash := id

namespace EventMap

/-- `current_time - timestamp > timeout`, in unsigned numbers of 64 bits. -/
def expired (now : ℕ) (node : Node) : Bool :=
  node.timeout ≠ transportTimeoutInfinity &&
    node.timeout % 2 ^ 64 < ((now : ℤ) - node.timestamp) % 2 ^ 64

/-- What the loops have: the entries of the ring that are free, the user data of the cancels and
`to_delete`. -/
structure Scan where
  free : ℕ
  prepared : List ℕ
  toDelete : List ℕ
  deriving DecidableEq, Repr

/-- `io_uring_prep_cancel`. -/
def Scan.prepare (scan : Scan) (index : ℕ) (node : Node) : Scan :=
  ⟨scan.free - 1, scan.prepared ++ [node.data], scan.toDelete ++ [index]⟩

/-- The loop of `transport_cancel_by_fd`; `false` is its return in the middle. -/
def scanFd (fd : ℕ) : List (ℕ × Node) → Scan → Bool × Scan
  | [], scan => (true, scan)
  | (index, node) :: rest, scan =>
    if node.fd = fd then
      if scan.free = 0 then (false, scan) else scanFd fd rest (scan.prepare index node)
    else scanFd fd rest scan

/-- The loop of `transport_check_event_timeouts`, which reads the clock at every node. -/
def scanTimeouts (now : ℕ → ℕ) : List (ℕ × Node) → Scan → Scan
  | [], scan => scan
  | (index, node) :: rest, scan =>
    if expired (now index) node then
      if scan.free = 0 then scanTimeouts now rest scan
      else scanTimeouts now rest (scan.prepare index node)
    else scanTimeouts now rest scan

/-- `transport_remove_event`. -/
def removeEvent (map : Map Node) (data : ℕ) : Option (Map Node) := do
  let event ← map.table.find data
  if event ≠ map.table.nBuckets then map.del event else some map

/-- `transport_cancel_by_fd`: whether it returns 0, the cancels and the events. -/
def cancelByFd (map : Map Node) (fd free : ℕ) : Option (Bool × List ℕ × Map Node) :=
  match scanFd fd map.foreach ⟨free, [], []⟩ with
  | (true, scan) => (run Map.del map scan.toDelete).map fun next => (true, scan.prepared, next)
  | (false, scan) => some (false, scan.prepared, map)

/-- `transport_check_event_timeouts`: the cancels and the events. -/
def checkEventTimeouts (map : Map Node) (now : ℕ → ℕ) (free : ℕ) : Option (List ℕ × Map Node) :=
  let scan := scanTimeouts now map.foreach ⟨free, [], []⟩
  (run Map.del map scan.toDelete).map fun next => (scan.prepared, next)

/-! ## What is selected -/

/-- The nodes of a descriptor, with their slots. -/
def ofFd (map : Map Node) (fd : ℕ) : List (ℕ × Node) :=
  map.foreach.filter fun entry => entry.2.fd = fd

/-- The nodes that are due, with their slots, as far as the ring has entries. -/
def due (map : Map Node) (now : ℕ → ℕ) (free : ℕ) : List (ℕ × Node) :=
  (map.foreach.filter fun entry => expired (now entry.1) entry.2).take free

variable {map next : Map Node}

/-! ## The scans -/

section Scans

variable {entries : List (ℕ × Node)} {scan : Scan}

/-- The nodes are prepared as far as there are entries, and there is one for each or none is
left. -/
theorem scanFd_eq (fd : ℕ) (entries : List (ℕ × Node)) (scan : Scan) :
    let selected := entries.filter fun entry => entry.2.fd = fd
    scanFd fd entries scan = (decide (selected.length ≤ scan.free),
      ⟨scan.free - selected.length,
        scan.prepared ++ (selected.take scan.free).map fun entry => entry.2.data,
        scan.toDelete ++ (selected.take scan.free).map Prod.fst⟩) := by
  induction entries generalizing scan with
  | nil => simp [scanFd]
  | cons entry entries ih =>
    obtain ⟨index, node⟩ := entry
    unfold scanFd
    by_cases hfd : node.fd = fd
    · rw [if_pos hfd, List.filter_cons_of_pos (by simpa using hfd)]
      split_ifs with hfree
      · have hscan : scan = ⟨0, scan.prepared, scan.toDelete⟩ := by rw [← hfree]
        simp [hfree, ← hscan]
      · obtain ⟨rest, hrest⟩ := Nat.exists_eq_succ_of_ne_zero hfree
        have hfewer : (scan.prepare index node).free = rest := by
          unfold Scan.prepare
          rw [hrest, Nat.succ_sub_one]
        rw [ih, hfewer, hrest]
        simp [Scan.prepare]
    · rw [if_neg hfd, List.filter_cons_of_neg (by simpa using hfd)]
      exact ih scan

/-- The nodes that are due are prepared as far as there are entries. -/
theorem scanTimeouts_eq (now : ℕ → ℕ) (entries : List (ℕ × Node)) (scan : Scan) :
    let selected := entries.filter fun entry => expired (now entry.1) entry.2
    scanTimeouts now entries scan = ⟨scan.free - selected.length,
      scan.prepared ++ (selected.take scan.free).map fun entry => entry.2.data,
      scan.toDelete ++ (selected.take scan.free).map Prod.fst⟩ := by
  induction entries generalizing scan with
  | nil => simp [scanTimeouts]
  | cons entry entries ih =>
    obtain ⟨index, node⟩ := entry
    unfold scanTimeouts
    by_cases hdue : expired (now index) node = true
    · rw [if_pos hdue, List.filter_cons_of_pos (by simpa using hdue)]
      split_ifs with hfree
      · rw [ih, hfree]
        simp
      · obtain ⟨rest, hrest⟩ := Nat.exists_eq_succ_of_ne_zero hfree
        have hfewer : (scan.prepare index node).free = rest := by
          unfold Scan.prepare
          rw [hrest, Nat.succ_sub_one]
        rw [ih, hfewer, hrest]
        simp [Scan.prepare]
    · rw [if_neg hdue, List.filter_cons_of_neg (by simpa using hdue)]
      exact ih scan

end Scans

/-! ## The selected nodes -/

theorem sublist_ofFd (map : Map Node) (fd : ℕ) : (ofFd map fd).Sublist map.foreach :=
  List.filter_sublist

theorem sublist_due (map : Map Node) (now : ℕ → ℕ) (free : ℕ) :
    (due map now free).Sublist map.foreach :=
  (List.take_sublist _ _).trans List.filter_sublist

/-- The nodes of the slots are those of the map. -/
theorem ofFd_snd (map : Map Node) (fd : ℕ) :
    (ofFd map fd).map Prod.snd = map.nodes.filter fun node => node.fd = fd := by
  unfold ofFd
  rw [← foreach_snd, List.filter_map]
  rfl

/-- There are as many slots with nodes of a descriptor as there are nodes of it. -/
theorem length_ofFd (map : Map Node) (fd : ℕ) :
    (ofFd map fd).length = (map.nodes.filter fun node => node.fd = fd).length := by
  rw [← ofFd_snd, List.length_map]

variable {now : ℕ → ℕ} {free fd : ℕ}

/-- What is due is in the map, and has expired. -/
theorem mem_due {entry : ℕ × Node} (h : entry ∈ due map now free) :
    entry.2 ∈ map.nodes ∧ expired (now entry.1) entry.2 = true := by
  obtain ⟨hent, hexpired⟩ := List.mem_filter.mp (List.mem_of_mem_take h)
  exact ⟨mem_nodes.mpr ⟨entry.1, mem_foreach.mp hent⟩, hexpired⟩

/-! ## What the calls do -/

/-- With too few entries of the ring the first nodes are cancelled, and all nodes stay. -/
theorem cancelByFd_of_lt (h : free < (ofFd map fd).length) :
    cancelByFd map fd free =
      some (false, ((ofFd map fd).take free).map fun entry => entry.2.data, map) := by
  unfold ofFd at h ⊢
  unfold cancelByFd
  rw [scanFd_eq, decide_eq_false (not_le.mpr h)]
  simp

/-- With enough entries of the ring the slots of all nodes of the descriptor are deleted. -/
theorem cancelByFd_of_le (h : (ofFd map fd).length ≤ free) :
    cancelByFd map fd free = (run Map.del map ((ofFd map fd).map Prod.fst)).map fun next =>
      (true, (map.nodes.filter fun node => node.fd = fd).map Node.data, next) := by
  rw [← ofFd_snd]
  unfold ofFd at h ⊢
  unfold cancelByFd
  rw [scanFd_eq, decide_eq_true h, List.take_of_length_le h, List.map_map]
  rfl

/-- With no entry of the ring nothing is cancelled. -/
theorem cancelByFd_zero (map : Map Node) (fd : ℕ) :
    ∃ done, cancelByFd map fd 0 = some (done, [], map) := by
  rcases Nat.eq_zero_or_pos (ofFd map fd).length with hnone | hpos
  · have hfilter : (map.nodes.filter fun node => node.fd = fd) = [] := by
      rw [← ofFd_snd, List.eq_nil_of_length_eq_zero hnone]
      rfl
    rw [cancelByFd_of_le hnone.le, hfilter, List.eq_nil_of_length_eq_zero hnone]
    exact ⟨true, rfl⟩
  · exact ⟨false, cancelByFd_of_lt hpos⟩

/-- The slots of the nodes that are due are deleted. -/
theorem checkEventTimeouts_eq (map : Map Node) (now : ℕ → ℕ) (free : ℕ) :
    checkEventTimeouts map now free =
      (run Map.del map ((due map now free).map Prod.fst)).map fun next =>
        ((due map now free).map fun entry => entry.2.data, next) := by
  unfold checkEventTimeouts due
  rw [scanTimeouts_eq]
  simp

/-- A call that cancels only deletes slots. -/
theorem exists_run_of_cancelByFd {done : Bool} {prepared : List ℕ}
    (h : cancelByFd map fd free = some (done, prepared, next)) :
    ∃ indices, run Map.del map indices = some next := by
  rcases lt_or_ge free (ofFd map fd).length with hlt | hge
  · rw [cancelByFd_of_lt hlt] at h
    obtain ⟨-, -, rfl⟩ := h
    exact ⟨[], rfl⟩
  · rw [cancelByFd_of_le hge] at h
    obtain ⟨last, hrun, heq⟩ := Option.map_eq_some_iff.mp h
    obtain ⟨-, -, rfl⟩ := heq
    exact ⟨_, hrun⟩

/-- A completion only deletes a slot. -/
theorem exists_run_of_removeEvent {data : ℕ} (h : removeEvent map data = some next) :
    ∃ indices, run Map.del map indices = some next := by
  obtain ⟨event, -, h⟩ := Option.bind_eq_some_iff.mp h
  split_ifs at h
  · exact ⟨[event], run_cons_eq_some.mpr ⟨next, h, rfl⟩⟩
  · exact ⟨[], h⟩

/-- A check only deletes slots. -/
theorem exists_run_of_checkEventTimeouts {prepared : List ℕ}
    (h : checkEventTimeouts map now free = some (prepared, next)) :
    ∃ indices, run Map.del map indices = some next := by
  rw [checkEventTimeouts_eq] at h
  obtain ⟨last, hrun, heq⟩ := Option.map_eq_some_iff.mp h
  obtain ⟨-, rfl⟩ := heq
  exact ⟨_, hrun⟩

/-- A completion takes the node of its user data. -/
theorem exists_removeEvent (h : map.Valid) (data : ℕ) :
    ∃ next, removeEvent map data = some next ∧ Valid next ∧
      ∀ node, node ∈ next.nodes ↔ node ∈ map.nodes ∧ node.data ≠ data :=
  h.exists_remove (⟨data, 0, 0, 0⟩ : Node)

/-- With room, and in place, there is a cancel for each node of the descriptor, and these go. -/
theorem exists_cancelByFd (h : map.Valid) (hle : (ofFd map fd).length ≤ free)
    (hplace : InPlace map (ofFd map fd).length) :
    ∃ next, cancelByFd map fd free =
        some (true, (map.nodes.filter fun node => node.fd = fd).map Node.data, next) ∧
      Valid next ∧ map.nodes.Perm ((map.nodes.filter fun node => node.fd = fd) ++ next.nodes) := by
  obtain ⟨next, hrun, hvalid, hperm⟩ := h.perm_of_sublist (sublist_ofFd map fd) hplace
  rw [ofFd_snd] at hperm
  exact ⟨next, by rw [cancelByFd_of_le hle, hrun]; rfl, hvalid, hperm⟩

/-- In place, the nodes go for which there is a cancel. -/
theorem exists_checkEventTimeouts (h : map.Valid) (hplace : InPlace map (due map now free).length) :
    ∃ next, checkEventTimeouts map now free =
        some ((due map now free).map fun entry => entry.2.data, next) ∧
      Valid next ∧ map.nodes.Perm ((due map now free).map Prod.snd ++ next.nodes) := by
  obtain ⟨next, hrun, hvalid, hperm⟩ := h.perm_of_sublist (sublist_due map now free) hplace
  exact ⟨next, by rw [checkEventTimeouts_eq, hrun]; rfl, hvalid, hperm⟩

end EventMap

end FengShui.Transport
