import FengShui.Core.DartMap
import FengShui.Core.TupleProgress
import FengShui.Lib.Effect

/-!
# Results of a call (`storage/lua.dart`)

What a Lua function returned is a list whose one element is the result. The bytes are those from the
tuple's offset in its memory on, which is where the readers look. An extraction keeps the offsets it
has read at: `forward_iff` says for which bytes it goes from each to a later one.
-/

namespace FengShui.Storage

open ByteString Effect MessagePack

structure Extraction where
  /-- The offsets that were read at, the last one last. -/
  offsets : List ℕ := []
  /-- The `cleaner` has been called. -/
  cleaned : Bool := false

abbrev Extracting := EStateM DartException Extraction

/-- A reader called at an offset. -/
def readAt {α : Type} (read : ℕ → Except DartException α) (offset : ℕ) :
    Extracting α := fun state =>
  let state := { state with offsets := state.offsets ++ [offset] }
  match read offset with
  | .ok value => .ok value state
  | .error e => .error e state

def cleaner : Extracting PUnit := modify fun state => { state with cleaned := true }

/-- A reader that an application passes for the elements. -/
abbrev Mapper (T : Type) := Uint8List → ℕ → Except DartException (T × ℕ)

/-- The loop of `tarantoolCallExtractList`. -/
def extractItems {T : Type} (mapper : Mapper (Option T)) (tuple : Uint8List) :
    ℕ → ℕ → List (Option T) → Extracting (List (Option T))
  | 0, _, results => return results
  | length + 1, offset, results => do
    let item ← readAt (mapper tuple) offset
    extractItems mapper tuple length item.2 (results ++ [item.1])

def tarantoolCallExtractList {T : Type} (tuple : Uint8List) (mapper : Mapper (Option T)) :
    Extracting (List (Option T)) := do
  let outer ← readAt (tupleReadList tuple) 0
  let value ← readAt (tupleReadList tuple) outer.2
  let results ← extractItems mapper tuple value.1 value.2 []
  cleaner
  return results

/-- The loop of `tarantoolCallExtractMap`. -/
def extractEntries {K V : Type} [DecidableEq K] (keyMapper : Mapper K)
    (valueMapper : Mapper (Option V))
    (tuple : Uint8List) : ℕ → ℕ → DartMap K (Option V) → Extracting (DartMap K (Option V))
  | 0, _, results => return results
  | length + 1, offset, results => do
    let key ← readAt (keyMapper tuple) offset
    let value ← readAt (valueMapper tuple) key.2
    extractEntries keyMapper valueMapper tuple length value.2 (results.set key.1 value.1)

def tarantoolCallExtractMap {K V : Type} [DecidableEq K] (tuple : Uint8List) (keyMapper : Mapper K)
    (valueMapper : Mapper (Option V)) : Extracting (DartMap K (Option V)) := do
  let outer ← readAt (tupleReadList tuple) 0
  let value ← readAt (tupleReadMap tuple) outer.2
  let results ← extractEntries keyMapper valueMapper tuple value.1 value.2 .empty
  cleaner
  return results

/-- Each read is behind the one before it, and there are this many unless one throws. -/
def ReadsForward {α : Type} (extract : Extracting α) (count : ℕ) : Prop :=
  Meets {} extract
    (fun _ state => state.offsets.Pairwise (· < ·) ∧ state.offsets.length = count)
    (fun state => state.offsets.Pairwise (· < ·))

/-- The two headers, and each element once. -/
def ExtractsList (tuple : Uint8List) : Prop :=
  ∀ (T : Type) (mapper : Mapper (Option T)), (∀ offset, MovesOn (mapper tuple) offset) →
    ReadsForward (tarantoolCallExtractList tuple mapper)
      (2 + arrayLength (tuple.drop (skip tuple 0)))

/-- The two headers, and each key and each value once. -/
def ExtractsMap (tuple : Uint8List) : Prop :=
  ∀ (K V : Type) [DecidableEq K] (keyMapper : Mapper K) (valueMapper : Mapper (Option V)),
    (∀ offset, MovesOn (keyMapper tuple) offset) → (∀ offset, MovesOn (valueMapper tuple) offset) →
      ReadsForward (tarantoolCallExtractMap tuple keyMapper valueMapper)
        (2 + 2 * mapLength (tuple.drop (skip tuple 0)))

def IsListHeader (header : ℕ) : Prop := header &&& 0xF0 = 0x90 ∨ header = 0xdc ∨ header = 0xdd

/-- Neither the list of results nor the result in it is a null. -/
def HasResult (tuple : Uint8List) : Prop :=
  numberAt 1 tuple 0 ≠ 0xc0 ∧
    (IsListHeader (numberAt 1 tuple 0) → numberAt 1 tuple (skip tuple 0) ≠ 0xc0)

/-! ## Forward -/

/-- The reads so far, of which there are this many, are in front of the offset. -/
structure Before (offset count : ℕ) (state : Extraction) : Prop where
  pairwise : state.offsets.Pairwise (· < ·)
  lt : ∀ read ∈ state.offsets, read < offset
  length : state.offsets.length = count

section Forward

variable {tuple : Uint8List} {offset count : ℕ} {state : Extraction}

theorem Before.append (h : Before offset count state) :
    (state.offsets ++ [offset]).Pairwise (· < ·) := by
  apply List.pairwise_append.mpr
  exact ⟨h.pairwise, List.pairwise_singleton _ _, fun read hmem other hother => by
    rw [List.mem_singleton.mp hother]
    exact h.lt read hmem⟩

/-- A read that moves on is in front of the next one. -/
theorem Before.readAt {α : Type} {read : ℕ → Except DartException (α × ℕ)}
    (h : Before offset count state) (hread : MovesOn read offset) :
    Meets state (readAt read offset)
      (fun value next => read offset = .ok value ∧ Before value.2 (count + 1) next)
      (fun next => next.offsets.Pairwise (· < ·)) := by
  unfold Meets Storage.readAt
  dsimp only
  cases hres : read offset with
  | error e => exact h.append
  | ok value =>
    have hlt := hread value.1 value.2 hres
    refine ⟨rfl, h.append, ?_, ?_⟩
    · intro other hmem
      rcases List.mem_append.mp hmem with hmem | hmem
      · exact (h.lt other hmem).trans hlt
      · rw [List.mem_singleton.mp hmem]
        exact hlt
    · rw [List.length_append, h.length]
      rfl

theorem Before.extractItems {T : Type} {mapper : Mapper (Option T)}
    (hmapper : ∀ offset, MovesOn (mapper tuple) offset) (h : Before offset count state) (length : ℕ)
    (results : List (Option T)) :
    Meets state (extractItems mapper tuple length offset results)
      (fun _ next => next.offsets.Pairwise (· < ·) ∧ next.offsets.length = count + length)
      (fun next => next.offsets.Pairwise (· < ·)) := by
  induction length generalizing offset count state results with
  | zero => exact meets_pure ⟨h.pairwise, h.length⟩
  | succ length ih =>
    apply (h.readAt (hmapper offset)).bind
    rintro item next ⟨-, hnext⟩
    have hrest := ih hnext (results ++ [item.1])
    rw [show count + (length + 1) = count + 1 + length by omega]
    exact hrest

theorem Before.extractEntries {K V : Type} [DecidableEq K] {keyMapper : Mapper K}
    {valueMapper : Mapper (Option V)} (hkeys : ∀ offset, MovesOn (keyMapper tuple) offset)
    (hvals : ∀ offset, MovesOn (valueMapper tuple) offset) (h : Before offset count state)
    (length : ℕ) (results : DartMap K (Option V)) :
    Meets state (extractEntries keyMapper valueMapper tuple length offset results)
      (fun _ next => next.offsets.Pairwise (· < ·) ∧ next.offsets.length = count + 2 * length)
      (fun next => next.offsets.Pairwise (· < ·)) := by
  induction length generalizing offset count state results with
  | zero => exact meets_pure ⟨h.pairwise, h.length⟩
  | succ length ih =>
    apply (h.readAt (hkeys offset)).bind
    rintro key next ⟨-, hkey⟩
    apply (hkey.readAt (hvals key.2)).bind
    rintro value last ⟨-, hval⟩
    have hrest := ih hval (results.set key.1 value.1)
    rw [show count + 2 * (length + 1) = count + 1 + 1 + 2 * length by omega]
    exact hrest

/-- Behind the list of results is the result. -/
theorem outer_of_ok {length stop : ℕ} (hnull : numberAt 1 tuple 0 ≠ 0xc0)
    (h : tupleReadList tuple 0 = .ok (length, stop)) :
    IsListHeader (numberAt 1 tuple 0) ∧ stop = skip tuple 0 := by
  have hpos := (counts_tupleReadList hnull length stop h).1
  constructor
  · obtain ⟨header, hhdr, h⟩ := except_bind_eq_ok.mp h
    rw [← getNumber_eq_ok hhdr] at hnull ⊢
    rw [if_neg hnull] at h
    split_ifs at h with h₁ h₂ h₃
    · exact .inl h₁
    · exact .inr (.inl h₂)
    · exact .inr (.inr h₃)
  · rcases tupleReadHeader_skip layout_of_list rfl rfl h with hskip | ⟨-, rfl⟩
    · exact hskip
    · exact absurd hpos (Nat.lt_irrefl 0)

theorem meets_outer (h : HasResult tuple) :
    Meets {} (readAt (tupleReadList tuple) 0)
      (fun outer next => outer.2 = skip tuple 0 ∧ numberAt 1 tuple (skip tuple 0) ≠ 0xc0 ∧
        Before outer.2 1 next)
      (fun next => next.offsets.Pairwise (· < ·)) := by
  have hstart : Before 0 0 {} := ⟨.nil, fun _ hmem => (List.not_mem_nil hmem).elim, rfl⟩
  have hmoves : MovesOn (tupleReadList tuple) 0 := fun length stop hread =>
    (counts_tupleReadList h.1 length stop hread).1
  have hread := hstart.readAt hmoves
  unfold Meets at hread ⊢
  cases hres : readAt (tupleReadList tuple) 0 {} with
  | error e next =>
    rw [hres] at hread
    exact hread
  | ok outer next =>
    rw [hres] at hread
    obtain ⟨hok, hbefore⟩ := hread
    obtain ⟨hhdr, hstop⟩ := outer_of_ok h.1 hok
    exact ⟨hstop, h.2 hhdr, hbefore⟩

theorem extractsList_of_hasResult (h : HasResult tuple) : ExtractsList tuple := by
  intro T mapper hmapper
  apply (meets_outer h).bind
  rintro outer next ⟨hstop, hnull, hbefore⟩
  rw [hstop] at hbefore ⊢
  have hcounts := counts_tupleReadList hnull
  apply (hbefore.readAt fun length stop hread => (hcounts length stop hread).1).bind
  rintro value last ⟨hread, hlast⟩
  apply (hlast.extractItems hmapper value.1 []).bind
  rintro results final ⟨hpairwise, hlen⟩
  refine ⟨hpairwise, ?_⟩
  rw [← (hcounts value.1 value.2 hread).2]
  exact hlen

theorem extractsMap_of_hasResult (h : HasResult tuple) : ExtractsMap tuple := by
  intro K V _ keyMapper valueMapper hkeys hvals
  apply (meets_outer h).bind
  rintro outer next ⟨hstop, hnull, hbefore⟩
  rw [hstop] at hbefore ⊢
  have hcounts := counts_tupleReadMap hnull
  apply (hbefore.readAt fun length stop hread => (hcounts length stop hread).1).bind
  rintro value last ⟨hread, hlast⟩
  apply (hlast.extractEntries hkeys hvals value.1 .empty).bind
  rintro results final ⟨hpairwise, hlen⟩
  refine ⟨hpairwise, ?_⟩
  rw [← (hcounts value.1 value.2 hread).2]
  exact hlen

end Forward

/-! ## Back to the start -/

section Back

variable {tuple : Uint8List} {state : Extraction}

/-- No read is forgotten. -/
def Extends (state next : Extraction) : Prop := state.offsets <+: next.offsets

theorem Extends.refl (state : Extraction) : Extends state state := List.prefix_rfl

theorem Extends.trans (state next last : Extraction) (h : Extends state next)
    (h' : Extends next last) :
    Extends state last := List.IsPrefix.trans h h'

variable {α : Type} {read : ℕ → Except DartException α}

theorem keeps_readAt (read : ℕ → Except DartException α) (offset : ℕ) :
    Keeps (fun state next => next.offsets = state.offsets ++ [offset]) state
      (readAt read offset) := by
  unfold Keeps readAt
  dsimp only
  cases read offset with
  | ok value => rfl
  | error e => rfl

theorem extends_readAt (read : ℕ → Except DartException α) (offset : ℕ) :
    Keeps Extends state (readAt read offset) :=
  (keeps_readAt read offset).mono fun _ h => ⟨[offset], h.symm⟩

theorem extends_extractItems {T : Type} (mapper : Mapper (Option T)) (length offset : ℕ)
    (results : List (Option T)) :
    Keeps Extends state (extractItems mapper tuple length offset results) := by
  induction length generalizing offset results state with
  | zero => exact keeps_pure (.refl _) _
  | succ length ih =>
    apply Keeps.bind_trans Extends.trans (extends_readAt _ _)
    intro item next _ _
    exact ih item.2 (results ++ [item.1])

theorem extends_extractEntries {K V : Type} [DecidableEq K] (keyMapper : Mapper K)
    (valueMapper : Mapper (Option V)) (length offset : ℕ) (results : DartMap K (Option V)) :
    Keeps Extends state (extractEntries keyMapper valueMapper tuple length offset results) := by
  induction length generalizing offset results state with
  | zero => exact keeps_pure (.refl _) _
  | succ length ih =>
    apply Keeps.bind_trans Extends.trans (extends_readAt _ _)
    intro key next _ _
    apply Keeps.bind_trans Extends.trans (extends_readAt _ _)
    intro value last _ _
    exact ih value.2 (results.set key.1 value.1)

/-- A computation that reads at an offset first. -/
theorem extends_readAt_bind {β : Type} {offset : ℕ} {rest : α → Extracting β}
    (h : ∀ value next, Keeps Extends next (rest value)) :
    Keeps (fun state next => state.offsets ++ [offset] <+: next.offsets) state
      (readAt read offset >>= rest) := by
  apply (keeps_readAt read offset).bind fun value next _ _ => h value next
  · intro next heq
    rw [heq]
  · intro next last heq hrest
    rw [← heq]
    exact hrest

/-- The list of results and the null in it are read, since there is something behind the list. -/
theorem tupleReadList_outer (hhdr : IsListHeader (numberAt 1 tuple 0))
    (hnull : numberAt 1 tuple (skip tuple 0) = 0xc0) :
    ∃ length, tupleReadList tuple 0 = .ok (length, skip tuple 0) := by
  have hlt : skip tuple 0 < tuple.length := lt_of_numberAt (hnull.trans_ne (by decide))
  have hfirst : getNumber 1 tuple 0 = .ok (numberAt 1 tuple 0) :=
    getNumber_eq ((lt_skip tuple 0).trans hlt)
  unfold tupleReadList tupleReadHeader
  rw [hfirst]
  rcases hhdr with hshort | hmedium | hlong
  · have hskip := skip_fixed rfl (layout_of_list _ (numberAt_one_lt tuple 0) hshort)
    rw [hskip]
    exact ⟨numberAt 1 tuple 0 &&& 0xF, if_pos hshort⟩
  · have hskip : skip tuple 0 = 0 + 1 + 2 := skip_fixed hmedium rfl
    have hnum : getNumber 2 tuple (0 + 1) = .ok (numberAt 2 tuple (0 + 1)) :=
      getNumber_eq (by omega)
    rw [hmedium, hnum, hskip]
    exact ⟨numberAt 2 tuple (0 + 1), rfl⟩
  · have hskip : skip tuple 0 = 0 + 1 + 4 := skip_fixed hlong rfl
    have hnum : getNumber 4 tuple (0 + 1) = .ok (numberAt 4 tuple (0 + 1)) :=
      getNumber_eq (by omega)
    rw [hlong, hnum, hskip]
    exact ⟨numberAt 4 tuple (0 + 1), rfl⟩

theorem readAt_of_ok {β : Type} {offset : ℕ} {value : α} (h : read offset = .ok value)
    (rest : α → Extracting β) :
    (readAt read offset >>= rest) state =
      rest value { state with offsets := state.offsets ++ [offset] } := by
  show EStateM.bind (readAt read offset) rest state = _
  unfold EStateM.bind readAt
  dsimp only
  rw [h]

/-- Where a null is read as a list or a map, the next read is at the start. -/
theorem not_readsForward {second : ℕ → Except DartException (ℕ × ℕ)} {rest : ℕ × ℕ → Extracting α}
    {count : ℕ}
    (hsecond : ∀ offset, numberAt 1 tuple offset = 0xc0 → second offset = .ok (offset + 1, 0))
    (hrest : ∀ length state, Keeps (fun state next => state.offsets ++ [0] <+: next.offsets) state
      (rest (length + 1, 0))) (h : ¬HasResult tuple) :
    ¬ReadsForward (do
      let outer ← readAt (tupleReadList tuple) 0
      let value ← readAt second outer.2
      rest value) count := by
  -- The first read is at the start as well.
  have hagain {outer : ℕ × ℕ} (houter : tupleReadList tuple 0 = .ok outer)
      (hnull : numberAt 1 tuple outer.2 = 0xc0) : ¬ReadsForward (do
        let outer ← readAt (tupleReadList tuple) 0
        let value ← readAt second outer.2
        rest value) count := by
    intro hreads
    have hpairwise := Meets.stateOf hreads fun _ _ hpost => hpost.1
    rw [readAt_of_ok houter, readAt_of_ok (hsecond outer.2 hnull)] at hpairwise
    have hread := hpairwise.sublist (hrest outer.2 _).sublist
    have hzero := (List.pairwise_cons.mp hread).1 0 (by simp)
    exact Nat.lt_irrefl 0 hzero
  by_cases hnull : numberAt 1 tuple 0 = 0xc0
  · exact hagain (tupleReadList_null hnull) hnull
  · have hinner : IsListHeader (numberAt 1 tuple 0) ∧ numberAt 1 tuple (skip tuple 0) = 0xc0 := by
      by_contra hne
      exact h ⟨hnull, fun hhdr hinner => hne ⟨hhdr, hinner⟩⟩
    obtain ⟨length, houter⟩ := tupleReadList_outer hinner.1 hinner.2
    exact hagain houter hinner.2

/-- The results are read from the start on, and handed over. -/
theorem extends_cleaner {items : Extracting α}
    (h : Keeps (fun state next => state.offsets ++ [0] <+: next.offsets) state items) :
    Keeps (fun state next => state.offsets ++ [0] <+: next.offsets) state (do
      let results ← items
      cleaner
      return results) := by
  have hrest (results : α) (next : Extraction) : Keeps Extends next (do
      cleaner
      return results) := List.prefix_rfl
  apply h.bind fun results next _ _ => hrest results next
  · exact fun _ hread => hread
  · exact fun _ _ hread hlast => hread.trans hlast

theorem not_extractsList (h : ¬HasResult tuple) : ¬ExtractsList tuple := by
  intro hextracts
  let mapper : Mapper (Option Unit) := fun _ offset => .ok (none, offset + 1)
  have hmapper (offset : ℕ) : MovesOn (mapper tuple) offset := by
    rintro value stop ⟨⟩
    exact Nat.lt_succ_self offset
  apply not_readsForward (fun offset => tupleReadList_null) _ h (hextracts Unit mapper hmapper)
  intro length state
  apply extends_cleaner
  apply extends_readAt_bind
  intro item next
  exact extends_extractItems mapper length item.2 ([] ++ [item.1])

theorem not_extractsMap (h : ¬HasResult tuple) : ¬ExtractsMap tuple := by
  intro hextracts
  let keyMapper : Mapper Unit := fun _ offset => .ok ((), offset + 1)
  let valueMapper : Mapper (Option Unit) := fun _ offset => .ok (none, offset + 1)
  have hkeys (offset : ℕ) : MovesOn (keyMapper tuple) offset := by
    rintro key stop ⟨⟩
    exact Nat.lt_succ_self offset
  have hvals (offset : ℕ) : MovesOn (valueMapper tuple) offset := by
    rintro value stop ⟨⟩
    exact Nat.lt_succ_self offset
  apply not_readsForward (fun offset => tupleReadMap_null) _ h
    (hextracts Unit Unit keyMapper valueMapper hkeys hvals)
  intro length state
  apply extends_cleaner
  apply extends_readAt_bind
  intro key next
  apply Keeps.bind_trans Extends.trans (extends_readAt _ _)
  intro value last _ _
  exact extends_extractEntries keyMapper valueMapper length value.2 _

end Back

/-- A reader moves on from everything but a null that is read as a list or a map, and an extraction
goes forward unless one of its two headers is that null. -/
theorem forward_iff (buffer tuple : Uint8List) (offset : ℕ) :
    (ReadersMoveOn buffer offset ↔ numberAt 1 buffer offset ≠ 0xc0) ∧
      (ExtractsList tuple ↔ HasResult tuple) ∧ (ExtractsMap tuple ↔ HasResult tuple) := by
  refine ⟨readersMoveOn_iff, ?_, ?_⟩
  · exact ⟨not_imp_not.mp not_extractsList, extractsList_of_hasResult⟩
  · exact ⟨not_imp_not.mp not_extractsMap, extractsMap_of_hasResult⟩

/-- A null, and a function that returns one. -/
theorem not_forward :
    ¬((∀ buffer offset, offset < buffer.length → ReadersMoveOn buffer offset) ∧
      ∀ tuple, ExtractsList tuple ∧ ExtractsMap tuple) ∧
      ¬ReadersMoveOn [0xc0] 0 ∧ ¬ExtractsList [0x91, 0xc0] ∧ ¬ExtractsMap [0x91, 0xc0] := by
  have hnull : ¬ReadersMoveOn [0xc0] 0 := fun h => readersMoveOn_iff.mp h rfl
  have hresult : ¬HasResult [0x91, 0xc0] := fun h => h.2 (.inl rfl) rfl
  refine ⟨fun h => hnull (h.1 [0xc0] 0 Nat.one_pos), hnull, ?_, ?_⟩
  · exact not_extractsList hresult
  · exact not_extractsMap hresult

end FengShui.Storage
