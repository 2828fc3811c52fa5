import FengShui.Lib.OpenAddressing

/-!
# The hash map (`core/native/maps/simple.h`)

A table with open addressing and double hashing. A table that gets full is resized a batch of slots
at a time: `resize` moves the next batch to the shadow, and the last batch puts the shadow in the
place of the table. What the header is included with, a node with its key and its hash, is
`MapNode`. The loops of a search have as many rounds as the table has slots; `none` is a loop that
does not end, and an `abort`.
-/

namespace FengShui.SimpleMap

open OpenAddressing

/-- `simple_map_node_t`, `simple_map_key_t`, `simple_map_cmp` and `simple_map_hash`. -/
class MapNode (ν : Type) (κ : outParam Type) where
  key : ν → κ
  hash : κ → ℕ

variable {κ ν : Type} [MapNode ν κ]

/-- `simple_map_int_t k = simple_map_hash(node, arg)`. -/
def hashOf (ν : Type) [MapNode ν κ] (searched : κ) : ℕ := MapNode.hash ν searched % 2 ^ 32

structure Table (ν : Type) where
  /-- `p`, and the two bits of `b` for each node. -/
  slots : List (Slot ν)
  nDirty : ℕ
  size : ℕ
  deriving DecidableEq, Repr

def nextSlot (slot inc size : ℕ) : ℕ :=
  let slot := (slot + inc) % 2 ^ 32
  if slot ≥ size then slot - size else slot

namespace Table

/-- Behind a `calloc`. -/
def empty (nBuckets : ℕ) : Table ν := ⟨List.replicate nBuckets ⟨none, false⟩, 0, 0⟩

def nBuckets (table : Table ν) : ℕ := table.slots.length

/-- `n_buckets * SIMPLE_MAP_DENSITY`. -/
def upperBound (table : Table ν) : ℕ := table.nBuckets * 7 / 10

def inc (table : Table ν) (hash : ℕ) : ℕ := 1 + hash % (table.nBuckets - 1)

variable [DecidableEq κ]

/-- `simple_map_exist` and not `simple_map_cmp`. -/
def same (searched : κ) (slot : Slot ν) : Bool :=
  slot.node.any fun node => MapNode.key node = searched

/-! ## Searching -/

def findFrom (table : Table ν) (searched : κ) (inc : ℕ) : ℕ → ℕ → Option ℕ
  | 0, _ => none
  | fuel + 1, i =>
    if same searched (slotAt table.slots i) then some i
    else if (slotAt table.slots i).dirty then
      findFrom table searched inc fuel (nextSlot i inc table.nBuckets)
    else some table.nBuckets

/-- The slot of a key, or the number of slots. -/
def find (table : Table ν) (searched : κ) : Option ℕ :=
  let k := hashOf ν searched
  table.findFrom searched (table.inc k) table.nBuckets (k % table.nBuckets)

/-- The same, by a node. -/
def get (table : Table ν) (node : ν) : Option ℕ := table.find (MapNode.key node)

/-! ## Putting -/

/-- The first loop of `put_slot`: through the collisions, to a duplicate (`true`) or to a slot that
is free. -/
def skip (searched : κ) (inc : ℕ) : ℕ → List (Slot ν) → ℕ → Option (Bool × List (Slot ν) × ℕ)
  | 0, _, _ => none
  | fuel + 1, slots, i =>
    match (slotAt slots i).node with
    | none => some (false, slots, i)
    | some node =>
      if MapNode.key node = searched then some (true, slots, i)
      else skip searched inc fuel (slots.set i ⟨some node, true⟩) (nextSlot i inc slots.length)

/-- The second loop: a duplicate down the chain of collisions. -/
def duplicate (slots : List (Slot ν)) (searched : κ) (inc : ℕ) : ℕ → ℕ → Option (Option ℕ)
  | 0, _ => none
  | fuel + 1, i =>
    if (slotAt slots i).dirty then
      let i := nextSlot i inc slots.length
      if same searched (slotAt slots i) then some (some i) else duplicate slots searched inc fuel i
    else some none

/-- Writes the node to a slot. -/
def write (slots : List (Slot ν)) (x : ℕ) (node : ν) : List (Slot ν) :=
  slots.set x ⟨some node, (slotAt slots x).dirty⟩

/-- `put_slot`, and the write of the node that both of its callers make to the slot. -/
def putSlot (table : Table ν) (node : ν) : Option (ℕ × Table ν) := do
  let searched := MapNode.key node
  let k := hashOf ν searched
  let (exist, slots, i) ←
    skip searched (table.inc k) table.nBuckets table.slots (k % table.nBuckets)
  if exist then some (i, { table with slots := write slots i node })
  else
    match ← duplicate slots searched (table.inc k) table.nBuckets i with
    | some x => some (x, { table with slots := write slots x node })
    | none =>
      let nDirty := if (slotAt slots i).dirty then table.nDirty else table.nDirty + 1
      some (i, ⟨write slots i node, nDirty, table.size + 1⟩)

/-! ## Deleting -/

/-- `simple_map_setfree` and the two counters. -/
def free (table : Table ν) (x : ℕ) : Table ν :=
  let dirty := (slotAt table.slots x).dirty
  { slots := table.slots.set x ⟨none, dirty⟩
    nDirty := if dirty then table.nDirty else table.nDirty - 1
    size := table.size - 1 }

/-- `del` of a table that is not resized. -/
def del (table : Table ν) (x : ℕ) : Table ν :=
  if x ≠ table.nBuckets ∧ (slotAt table.slots x).exist then table.free x else table

end Table

/-! ## Resizing -/

/-- `__ac_prime_list`. -/
def primeList : List ℕ :=
  [3, 11, 23, 53, 97, 193, 389, 769, 1543, 3079, 6151, 12289, 24593, 49157, 98317, 196613, 393241,
    786433, 1572869, 3145739, 6291469, 12582917, 25165843, 50331653, 100663319,
      201326611, 402653189,
    805306457, 1610612741, 3221225473, 4294967291]

/-- The first prime of the list that is enough, from `prime` on. -/
def newPrime (buckets prime : ℕ) : ℕ :=
  prime + ((primeList.take 30).drop prime).findIdx fun count => count ≥ buckets

structure Map (ν : Type) where
  table : Table ν
  /-- `shadow`, without slots where the table is not resized. -/
  shadow : Table ν
  prime : ℕ
  resizeCnt : ℕ
  resizePosition : ℕ
  batch : ℕ
  deriving DecidableEq, Repr

namespace Map

variable [DecidableEq κ]

/-- `simple_map_foreach`: the slots that have a node, with it. -/
def foreach (map : Map ν) : List (ℕ × ν) :=
  map.table.slots.zipIdx.filterMap fun slot => slot.1.node.map fun node => (slot.2, node)

/-- `new`. -/
def create : Map ν := ⟨.empty (primeList.getD 0 0), ⟨[], 0, 0⟩, 0, 0, 0, 0⟩

/-- The loop of `resize` over the slots from `i` on: the shadow, and where the batch ends before the
slots do, the slot at which it does. -/
def move : List (Slot ν) → ℕ → ℕ → Table ν → Option (Table ν × Option ℕ)
  | [], _, _, shadow => some (shadow, none)
  | _ :: _, 0, i, shadow => some (shadow, some i)
  | slot :: slots, batch + 1, i, shadow =>
    match slot.node with
    | none => move slots batch (i + 1) shadow
    | some node => do
      let (_, shadow) ← shadow.putSlot node
      move slots batch (i + 1) shadow

def resize (map : Map ν) : Option (Map ν) := do
  let (shadow, stopped) ←
    move (map.table.slots.drop map.resizePosition) map.batch map.resizePosition map.shadow
  match stopped with
  | some i => some { map with shadow := shadow, resizePosition := i }
  | none =>
    if shadow.size ≠ map.table.size then none
    else
      some { map with
        table := shadow
        shadow := ⟨[], 0, 0⟩
        resizeCnt := map.resizeCnt + 1
        resizePosition := 0 }

def startResize (map : Map ν) (buckets batch : ℕ) : Option (Map ν) :=
  if map.resizePosition ≠ 0 then some map
  else if buckets < map.table.nBuckets then some map
  else
    let prime := newPrime buckets map.prime
    let newBatch := if batch > 0 then batch else map.table.nBuckets / (256 * 1024)
    let newBatch := if newBatch < 256 then 256 else newBatch
    resize { map with
      prime := prime
      batch := newBatch
      shadow := .empty (primeList.getD prime 0) }

/-- `size / SIMPLE_MAP_DENSITY`. -/
def reserve (map : Map ν) (size : ℕ) : Option (Map ν) :=
  map.startResize (size * 10 / 7) map.table.size

/-- What `put_copy` begins with: the next step of a resize, or the first where the table is full. -/
def advance (map : Map ν) : Option (Map ν) :=
  if map.resizePosition > 0 then map.resize
  else if map.table.nDirty ≥ map.table.upperBound then map.startResize (map.table.nBuckets + 1) 0
  else some map

/-- `put_copy` of the shadow. A shadow at its own bound would be resized into itself. -/
def putShadow (map : Map ν) (node : ν) : Option (Table ν) :=
  if map.resizePosition = 0 then some map.shadow
  else if map.shadow.size ≥ map.shadow.nBuckets then none
  else if map.shadow.nDirty ≥ map.shadow.upperBound then none
  else (map.shadow.putSlot node).map Prod.snd

def putCopy (map : Map ν) (node : ν) : Option (Map ν) :=
  if map.table.size ≥ map.table.nBuckets then none
  else do
    let map ← map.advance
    let shadow ← map.putShadow node
    let (_, table) ← map.table.putSlot node
    some { map with table := table, shadow := shadow }

/-- Of the node that was at the slot. -/
def delResize (map : Map ν) (node : ν) : Option (Map ν) := do
  let y ← map.shadow.get node
  resize { map with shadow := map.shadow.del y }

def del (map : Map ν) (x : ℕ) : Option (Map ν) :=
  match (slotAt map.table.slots x).node with
  | some node =>
    let map := { map with table := map.table.free x }
    if map.resizePosition ≠ 0 then map.delResize node else some map
  | none => some map

/-- The node of a key. -/
def findValue (map : Map ν) (searched : κ) : Option (Option ν) :=
  (map.table.find searched).map fun slot => (slotAt map.table.slots slot).node

end Map

end FengShui.SimpleMap
