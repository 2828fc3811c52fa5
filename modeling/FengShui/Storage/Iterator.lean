import Mathlib.Data.List.TakeDrop
import Mathlib.Data.List.TakeWhile
import Mathlib.Data.List.Nodup
import Mathlib.Data.Sum.Basic
import Mathlib.Order.Basic
import Mathlib.Data.Nat.Init
import Mathlib.Algebra.Order.Group.Nat

/-!
# Streams of an iterator (`StorageIterator.stream` in `storage/iterator.dart`)

The tuples that the iterator still has are a list, and `nextMany` takes the first of them. The body
is an `async*` without a `finally`: a listener that cancels leaves it at a `yield`.
-/

namespace FengShui.StorageIterator

open List

/-- What a stream gives its listener. -/
inductive Event (α : Type*) where
  | value (value : α)
  | error
  deriving DecidableEq

def Event.isError {α : Type*} : Event α → Bool
  | .value _ => false
  | .error => true

def Event.value? {α : Type*} : Event α → Option α
  | .value element => some element
  | .error => none

/-- The events of a stream, and whether its iterator was destroyed. -/
structure Outcome (α : Type*) where
  events : List (Event α)
  destroyed : Bool
  deriving DecidableEq

/-- The arguments of `stream`. A value of type `dynamic` is a tuple or anything else. -/
structure Query (Tuple Other : Type*) where
  filter : Option (Tuple → Bool)
  map : Option (Tuple → Tuple ⊕ Other)
  limit : Option ℕ
  offset : Option ℕ
  count : ℕ

variable {Tuple Other : Type*}

namespace Query

/-- The `count` of the body: `if (limit != null) count = min(count, limit)`. -/
def batch (query : Query Tuple Other) : ℕ :=
  match query.limit with
  | some limit => min query.count limit
  | none => query.count

/-- `offset != null && index <= offset`. -/
def skips (query : Query Tuple Other) (index : ℕ) : Bool := query.offset.any (index ≤ ·)

/-- `limit != null && index > limit`. -/
def stops (query : Query Tuple Other) (index : ℕ) : Bool := query.limit.any (· < index)

end Query

/-- A value of type `dynamic` where the stream takes tuples. -/
def yielded : Tuple ⊕ Other → Event (Tuple ⊕ Other)
  | .inl tuple => .value (.inl tuple)
  | .inr _ => .error

/-- `map!(tuple)`, on which the stream goes on with its next tuple when it fails. -/
def Query.mapped (query : Query Tuple Other) (tuple : Tuple) : Event (Tuple ⊕ Other) :=
  match query.map with
  | some map => yielded (map tuple)
  | none => .error

/-- `yield map(element)` or `yield element`. -/
def Query.element (query : Query Tuple Other) (tuple : Tuple) : Event (Tuple ⊕ Other) :=
  match query.map with
  | some map => yielded (map tuple)
  | none => .value (.inl tuple)

/-- Statements that yield, one after the other; the first that throws ends the body. -/
def yieldEach {α : Type*} : List (Event α) → Outcome α → Outcome α
  | [], rest => rest
  | .value value :: events, rest =>
    let next := yieldEach events rest
    { next with events := .value value :: next.events }
  | .error :: _, _ => ⟨[.error], false⟩

theorem length_drop_lt {α : Type*} {n : ℕ} {list : List α} (h : list.take n ≠ []) :
    (list.drop n).length < list.length := by
  rw [ne_eq, take_eq_nil_iff, not_or] at h
  have hpos := length_pos_of_ne_nil h.2
  rw [length_drop]
  omega

/-- The loop of the body without a filter. -/
def unfiltered (query : Query Tuple Other) (index : ℕ) (remaining : List Tuple) :
    Outcome (Tuple ⊕ Other) :=
  if _htaken : remaining.take query.batch = [] then ⟨[], true⟩
  else if query.skips index then unfiltered query (index + query.batch) (remaining.drop query.batch)
  else if query.stops index then ⟨[], false⟩
  else
    let next := unfiltered query (index + query.batch) (remaining.drop query.batch)
    { next with events := (remaining.take query.batch).map query.mapped ++ next.events }
termination_by remaining.length
decreasing_by all_goals exact length_drop_lt _htaken

/-- The loop of the body with a filter. -/
def filtered (query : Query Tuple Other) (filter : Tuple → Bool) (index : ℕ)
    (remaining : List Tuple) :
    Outcome (Tuple ⊕ Other) :=
  if _htaken : remaining.take query.batch = [] then ⟨[], true⟩
  else if query.skips index then
    filtered query filter (index + query.batch) (remaining.drop query.batch)
  else
    let matching := (remaining.take query.batch).filter filter
    if matching = [] then filtered query filter index (remaining.drop query.batch)
    else if query.stops index then ⟨[], false⟩
    else yieldEach (matching.map query.element)
      (filtered query filter (index + matching.length) (remaining.drop query.batch))
termination_by remaining.length
decreasing_by all_goals exact length_drop_lt _htaken

/-- `stream`. -/
def stream (query : Query Tuple Other) (tuples : List Tuple) : Outcome (Tuple ⊕ Other) :=
  match query.filter with
  | none => unfiltered query 0 tuples
  | some filter => filtered query filter 0 tuples

/-! ## Who listens -/

/-- The listener of a stream. -/
inductive Listener where
  /-- It stays to the end, as that of `collect`. -/
  | stays
  /-- It cancels while it handles the event behind so many others, as that of `first`, `take` and of
  a `forEach` whose action throws. -/
  | handles (before : ℕ)
  /-- It cancels behind so many events, while the body waits for its iterator. -/
  | waits (taken : ℕ)
  deriving DecidableEq

namespace Listener

/-- What it takes of what comes. -/
def takes {α : Type*} : Listener → List α → List α
  | stays, values => values
  | handles before, values => values.take (before + 1)
  | waits taken, values => values.take taken

/-- Of so many events none is left for a `yield` behind the cancellation. -/
def remains : Listener → ℕ → Bool
  | stays, _ => true
  | handles before, count => count ≤ before
  | waits taken, count => count ≤ taken

end Listener

/-- The stream for a listener: once it has cancelled, the body ends at its next `yield`, or at the
one where it is. -/
def Outcome.heard {α : Type*} (listener : Listener) (outcome : Outcome α) : Outcome α where
  events := listener.takes outcome.events
  destroyed := outcome.destroyed && listener.remains outcome.events.length

/-- `collect`: the list, if no error comes first. A listener that gives up at an error leaves the
body where it is. -/
def collect (query : Query Tuple Other) (tuples : List Tuple) :
    Option (List (Tuple ⊕ Other)) × Bool :=
  let outcome := stream query tuples
  if outcome.events.any Event.isError then (none, false)
  else (some (outcome.events.filterMap Event.value?), outcome.destroyed)

/-- The elements that an action is called with, up to the first at which it throws. -/
def called {α : Type*} (throws : α → Bool) (elements : List α) : List α :=
  elements.take (elements.findIdx throws + 1)

/-- `forEach`, with the elements that the action was called with: the listener gives up at an error
and where the action throws. -/
def forEach (query : Query Tuple Other) (throws : Tuple ⊕ Other → Bool) (tuples : List Tuple) :
    List (Tuple ⊕ Other) × Bool :=
  let outcome := stream query tuples
  let elements := (outcome.events.takeWhile fun event => !event.isError).filterMap Event.value?
  (called throws elements,
    !outcome.events.any Event.isError && !elements.any throws && outcome.destroyed)

/-! ## What a stream is for -/

/-- The elements that are asked for. -/
def wanted (query : Query Tuple Other) (tuples : List Tuple) : List (Tuple ⊕ Other) :=
  let matching := tuples.filter (query.filter.getD fun _ => true)
  let dropped := matching.drop (query.offset.getD 0)
  let cut := query.limit.elim dropped dropped.take
  cut.map (query.map.getD .inl)

/-- The stream and what is built on it give the elements that are asked for, as far as the listener
takes them, and the iterator is destroyed. -/
def Streams (query : Query Tuple Other) (listener : Listener) (throws : Tuple ⊕ Other → Bool)
    (tuples : List Tuple) : Prop :=
  (stream query tuples).heard listener =
      ⟨(listener.takes (wanted query tuples)).map .value, true⟩ ∧
    collect query tuples = (some (wanted query tuples), true) ∧
    forEach query throws tuples = (called throws (wanted query tuples), true)

/-! ## Both loops, batch by batch -/

section Loops

variable {query : Query Tuple Other} {filter : Tuple → Bool}

variable {α : Type*}

theorem take_drop_eq_nil {n : ℕ} {list : List α} (h : list.take n = []) (k : ℕ) :
    (list.drop k).take n = [] := by
  rw [take_eq_nil_iff] at h ⊢
  exact h.imp_right fun hnil => by rw [hnil, drop_nil]

/-- An outcome in which events come before the rest, unless one of them is an error that ends it. -/
structure YieldsThen {α : Type*} (events : List (Event α)) (rest outcome : Outcome α) : Prop where
  inversion : outcome.destroyed → rest.destroyed ∧ outcome.events = events ++ rest.events
  values : rest.destroyed → .error ∉ events → outcome.destroyed

/-- What both loops do with a batch, for a `filter` and the `element` of a match. -/
structure Passes (query : Query Tuple Other) (filter : Tuple → Bool)
    (element : Tuple → Event (Tuple ⊕ Other))
    (loop : ℕ → List Tuple → Outcome (Tuple ⊕ Other)) : Prop where
  ends : ∀ index remaining, remaining.take query.batch = [] → loop index remaining = ⟨[], true⟩
  skips : ∀ index remaining, remaining.take query.batch ≠ [] → query.skips index →
    loop index remaining = loop (index + query.batch) (remaining.drop query.batch)
  misses : ∀ index remaining, remaining.take query.batch ≠ [] → ¬query.skips index →
    (remaining.take query.batch).filter filter = [] →
      loop index remaining = loop index (remaining.drop query.batch)
  stops : ∀ index remaining, ¬query.skips index → (remaining.take query.batch).filter filter ≠ [] →
    query.stops index → loop index remaining = ⟨[], false⟩
  yields : ∀ index remaining, ¬query.skips index → (remaining.take query.batch).filter filter ≠ [] →
    ¬query.stops index → YieldsThen (((remaining.take query.batch).filter filter).map element)
      (loop (index + (remaining.take query.batch).countP filter) (remaining.drop query.batch))
      (loop index remaining)

theorem passes_unfiltered (query : Query Tuple Other) :
    Passes query (fun _ => true) query.mapped (unfiltered query) where
  ends index remaining htaken := by rw [unfiltered, dif_pos htaken]
  skips index remaining htaken hskips := by rw [unfiltered, dif_neg htaken, if_pos hskips]
  misses index remaining htaken _ hmatching := by
    rw [filter_true] at hmatching
    exact absurd hmatching htaken
  stops index remaining hskips hmatching hstops := by
    rw [filter_true] at hmatching
    rw [unfiltered, dif_neg hmatching, if_neg hskips, if_pos hstops]
  yields index remaining hskips hmatching hstops := by
    rw [filter_true] at hmatching ⊢
    -- The index behind the last batch may differ, and no batch follows.
    have hnext : unfiltered query (index + query.batch) (remaining.drop query.batch) =
        unfiltered query (index + (remaining.take query.batch).countP fun _ => true)
          (remaining.drop query.batch) := by
      rw [countP_true, length_take]
      by_cases hlen : query.batch ≤ remaining.length
      · rw [Nat.min_eq_left hlen]
      · have hnil : remaining.drop query.batch = [] := drop_eq_nil_of_le (by omega)
        rw [hnil, unfiltered, dif_pos take_nil, unfiltered, dif_pos take_nil]
    rw [← hnext, unfiltered.eq_def query index remaining, dif_neg hmatching, if_neg hskips,
      if_neg hstops]
    exact ⟨fun hdestr => ⟨hdestr, rfl⟩, fun hdestr _ => hdestr⟩

theorem yieldEach_of_error {events : List (Event α)} (rest : Outcome α) (h : .error ∈ events) :
    (yieldEach events rest).destroyed = false := by
  induction events with
  | nil => exact absurd h not_mem_nil
  | cons event events ih =>
    cases event with
    | error => rfl
    | value value => exact ih ((mem_cons.mp h).resolve_left nofun)

theorem yieldEach_of_values {events : List (Event α)} (rest : Outcome α) (h : .error ∉ events) :
    yieldEach events rest = { rest with events := events ++ rest.events } := by
  induction events with
  | nil => rfl
  | cons event events ih =>
    cases event with
    | error => exact absurd mem_cons_self h
    | value value =>
      rw [yieldEach, ih fun hmem => h (mem_cons_of_mem _ hmem)]
      rfl

theorem passes_filtered (query : Query Tuple Other) (filter : Tuple → Bool) :
    Passes query filter query.element (filtered query filter) where
  ends index remaining htaken := by rw [filtered, dif_pos htaken]
  skips index remaining htaken hskips := by rw [filtered, dif_neg htaken, if_pos hskips]
  misses index remaining htaken hskips hmatching := by
    rw [filtered, dif_neg htaken, if_neg hskips]
    exact if_pos hmatching
  stops index remaining hskips hmatching hstops := by
    have htaken : remaining.take query.batch ≠ [] := fun hnil => hmatching (by rw [hnil]; rfl)
    rw [filtered, dif_neg htaken, if_neg hskips]
    dsimp only
    rw [if_neg hmatching, if_pos hstops]
  yields index remaining hskips hmatching hstops := by
    have htaken : remaining.take query.batch ≠ [] := fun hnil => hmatching (by rw [hnil]; rfl)
    rw [countP_eq_length_filter, filtered.eq_def query filter index remaining, dif_neg htaken,
      if_neg hskips]
    dsimp only
    rw [if_neg hmatching, if_neg hstops]
    by_cases herror : .error ∈ ((remaining.take query.batch).filter filter).map query.element
    · refine ⟨fun hdestr => ?_, fun _ hvals => absurd herror hvals⟩
      rw [yieldEach_of_error _ herror] at hdestr
      exact absurd hdestr Bool.false_ne_true
    · rw [yieldEach_of_values _ herror]
      exact ⟨fun hdestr => ⟨hdestr, rfl⟩, fun hdestr _ => hdestr⟩

namespace Passes

variable {element : Tuple → Event (Tuple ⊕ Other)} {loop : ℕ → List Tuple → Outcome (Tuple ⊕ Other)}

/-- The batches at the front, up to the offset. -/
theorem skip_batches (h : Passes query filter element loop) (k index : ℕ) (remaining : List Tuple)
    (hskips : ∀ j < k, query.skips (index + j * query.batch)) :
    loop index remaining =
      loop (index + k * query.batch) (remaining.drop (k * query.batch)) := by
  induction k generalizing index remaining with
  | zero => rw [Nat.zero_mul, drop_zero, Nat.add_zero]
  | succ k ih =>
    by_cases htaken : remaining.take query.batch = []
    · rw [h.ends _ _ htaken, h.ends _ _ (take_drop_eq_nil htaken _)]
    have hfirst : query.skips index := by simpa using hskips 0 k.succ_pos
    have hrest : ∀ j < k, query.skips (index + query.batch + j * query.batch) := by
      intro j hj
      have hskip := hskips (j + 1) (Nat.succ_lt_succ hj)
      rwa [Nat.succ_mul, Nat.add_comm (j * _), ← Nat.add_assoc] at hskip
    rw [h.skips _ _ htaken hfirst, ih _ _ hrest, drop_drop, Nat.succ_mul,
      Nat.add_comm (k * _), ← Nat.add_assoc]

end Passes

/-- No batch with a match begins behind the limit. -/
def Room (query : Query Tuple Other) (filter : Tuple → Bool) (index : ℕ) (remaining : List Tuple) :
    Prop :=
  ∀ j, ((remaining.drop (j * query.batch)).take query.batch).filter filter ≠ [] →
    ¬query.stops (index + (remaining.take (j * query.batch)).countP filter)

theorem room_iff (index : ℕ) (remaining : List Tuple) :
    Room query filter index remaining ↔
      ((remaining.take query.batch).filter filter ≠ [] → ¬query.stops index) ∧
        Room query filter (index + (remaining.take query.batch).countP filter)
          (remaining.drop query.batch) := by
  have hdrop : ∀ j, remaining.drop ((j + 1) * query.batch) =
      (remaining.drop query.batch).drop (j * query.batch) := by
    intro j
    rw [drop_drop, Nat.succ_mul, Nat.add_comm]
  have htake : ∀ j, (remaining.take ((j + 1) * query.batch)).countP filter =
      (remaining.take query.batch).countP filter +
        ((remaining.drop query.batch).take (j * query.batch)).countP filter := by
    intro j
    rw [Nat.succ_mul, Nat.add_comm (j * _), take_add, countP_append]
  constructor
  · intro h
    refine ⟨by simpa using h 0, fun j => ?_⟩
    have hnext := h (j + 1)
    rwa [hdrop, htake, ← Nat.add_assoc] at hnext
  · rintro ⟨hfirst, hrest⟩ j
    cases j with
    | zero => simpa using hfirst
    | succ j =>
      rw [hdrop, htake, ← Nat.add_assoc]
      exact hrest j

namespace Passes

variable {element : Tuple → Event (Tuple ⊕ Other)} {loop : ℕ → List Tuple → Outcome (Tuple ⊕ Other)}

/-- Behind the skipped batches, an iterator that is destroyed has given all matches. -/
theorem of_destroyed (h : Passes query filter element loop) (hbatch : 0 < query.batch) (index : ℕ)
    (remaining : List Tuple) (hpast : ∀ i ≥ index, ¬query.skips i)
    (hdestr : (loop index remaining).destroyed) :
    Room query filter index remaining ∧
      (loop index remaining).events = (remaining.filter filter).map element := by
  induction hlen : remaining.length using Nat.strongRecOn generalizing index remaining with
  | _ length ih =>
    subst hlen
    by_cases htaken : remaining.take query.batch = []
    · obtain rfl : remaining = [] := (take_eq_nil_iff.mp htaken).resolve_left hbatch.ne'
      rw [h.ends _ _ htaken]
      refine ⟨fun j hj => absurd ?_ hj, rfl⟩
      rw [drop_nil, take_nil, filter_nil]
    have hshorter := length_drop_lt htaken
    have hsplit : remaining.filter filter = (remaining.take query.batch).filter filter ++
        (remaining.drop query.batch).filter filter := by
      rw [← filter_append, take_append_drop]
    have hskips := hpast index le_rfl
    by_cases hmatching : (remaining.take query.batch).filter filter = []
    · rw [h.misses _ _ htaken hskips hmatching] at hdestr ⊢
      obtain ⟨hroom, hev⟩ := ih _ hshorter _ _ hpast hdestr rfl
      refine ⟨(room_iff _ _).mpr ⟨fun hne => absurd hmatching hne, ?_⟩, ?_⟩
      · rwa [countP_eq_length_filter, hmatching]
      · rw [hev, hsplit, hmatching, nil_append]
    by_cases hstops : query.stops index
    · rw [h.stops _ _ hskips hmatching hstops] at hdestr
      exact absurd hdestr Bool.false_ne_true
    obtain ⟨hnext, hev⟩ := (h.yields _ _ hskips hmatching hstops).inversion hdestr
    obtain ⟨hroom, hrest⟩ := ih _ hshorter _ _ (fun i hi => hpast i (by omega)) hnext rfl
    refine ⟨(room_iff _ _).mpr ⟨fun _ => hstops, hroom⟩, ?_⟩
    rw [hev, hrest, hsplit, map_append]

/-- Behind the skipped batches, with room for all matches and no error among them, the iterator is
destroyed. -/
theorem destroyed (h : Passes query filter element loop) (index : ℕ) (remaining : List Tuple)
    (hpast : ∀ i ≥ index, ¬query.skips i) (hroom : Room query filter index remaining)
    (hvals : .error ∉ (remaining.filter filter).map element) :
    (loop index remaining).destroyed := by
  induction hlen : remaining.length using Nat.strongRecOn generalizing index remaining with
  | _ length ih =>
    subst hlen
    by_cases htaken : remaining.take query.batch = []
    · rw [h.ends _ _ htaken]
    have hshorter := length_drop_lt htaken
    have hskips := hpast index le_rfl
    obtain ⟨hfirst, hrest⟩ := (room_iff _ _).mp hroom
    rw [← take_append_drop query.batch remaining, filter_append, map_append,
      mem_append, not_or] at hvals
    by_cases hmatching : (remaining.take query.batch).filter filter = []
    · rw [h.misses _ _ htaken hskips hmatching]
      rw [countP_eq_length_filter, hmatching] at hrest
      exact ih _ hshorter _ _ hpast hrest hvals.2 rfl
    · refine (h.yields _ _ hskips hmatching (hfirst hmatching)).values ?_ hvals.1
      exact ih _ hshorter _ _ (fun i hi => hpast i (by omega)) hrest hvals.2 rfl

end Passes

end Loops

/-! ## When a stream gives what is asked for -/

/-- The tuples in the batches that are skipped, of which the last begins at the offset or before. -/
def Query.skipped (query : Query Tuple Other) : ℕ :=
  query.offset.elim 0 fun offset => (offset / query.batch + 1) * query.batch

/-- Nothing is asked for, or the skipped batches hold the matches to drop and no other, all the
other matches are asked for and none of their batches begins behind the limit, and they are mapped
to tuples. -/
def Aligned (query : Query Tuple Other) (tuples : List Tuple) : Prop :=
  let filter := query.filter.getD fun _ => true
  let matching := tuples.filter filter
  let dropped := query.offset.getD 0
  let passed := (tuples.take query.skipped).countP filter
  query.limit = some 0 ∨
    passed = min dropped matching.length ∧
    (∀ limit ∈ query.limit, matching.length - dropped ≤ limit) ∧
    Room query filter query.skipped (tuples.drop query.skipped) ∧
    ∀ tuple ∈ (tuples.drop query.skipped).filter filter,
      (query.filter.isSome ∨ query.map.isSome) ∧ (query.map.getD .inl tuple).isLeft

/-- Nobody cancels before the last of the elements that are asked for is handled: neither the
listener nor the action, which throws at none of them. -/
def Stays (query : Query Tuple Other) (listener : Listener) (throws : Tuple ⊕ Other → Bool)
    (tuples : List Tuple) : Prop :=
  listener.remains (wanted query tuples).length = true ∧
    (wanted query tuples).any throws = false

section Streams

variable {query : Query Tuple Other} {filter : Tuple → Bool} {tuples : List Tuple}
  {element : Tuple → Event (Tuple ⊕ Other)} {loop : ℕ → List Tuple → Outcome (Tuple ⊕ Other)}

theorem skips_of_lt {index k : ℕ} (hoff : query.offset = some k) (h : index ≤ k) :
    query.skips index := by
  simp [Query.skips, hoff, h]

theorem not_skips_of_skipped (hbatch : 0 < query.batch) {index : ℕ} (h : index ≥ query.skipped) :
    ¬query.skips index := by
  unfold Query.skipped at h
  unfold Query.skips
  cases hoff : query.offset with
  | none => exact Bool.false_ne_true
  | some offset =>
    rw [hoff] at h
    have hlt : offset < (offset / query.batch + 1) * query.batch := by
      rw [Nat.mul_comm]
      exact Nat.lt_mul_div_succ offset hbatch
    simp only [Option.any_some, decide_eq_true_eq, not_le]
    exact hlt.trans_le h

/-- A loop from its start is the loop behind the skipped batches. -/
theorem Passes.start (h : Passes query filter element loop) (hbatch : 0 < query.batch) :
    loop 0 tuples = loop query.skipped (tuples.drop query.skipped) := by
  unfold Query.skipped
  cases hoff : query.offset with
  | none => rfl
  | some offset =>
    rw [h.skip_batches (offset / query.batch + 1) 0 tuples, Nat.zero_add]
    · rfl
    · intro j hj
      have hle : j * query.batch ≤ offset :=
        (Nat.le_div_iff_mul_le hbatch).mp (Nat.le_of_lt_succ hj)
      exact skips_of_lt hoff (by rwa [Nat.zero_add])

/-- What a loop that destroys its iterator gives, and when it does. -/
theorem Passes.result (h : Passes query filter element loop) (hbatch : 0 < query.batch)
    (values : List (Tuple ⊕ Other)) :
    loop 0 tuples = ⟨values.map .value, true⟩ ↔
      Room query filter query.skipped (tuples.drop query.skipped) ∧
        ((tuples.drop query.skipped).filter filter).map element = values.map .value := by
  have hpast : ∀ i ≥ query.skipped, ¬query.skips i := fun i hi => not_skips_of_skipped hbatch hi
  rw [h.start hbatch]
  constructor
  · intro hloop
    obtain ⟨hroom, hev⟩ := h.of_destroyed hbatch _ _ hpast (congrArg Outcome.destroyed hloop)
    exact ⟨hroom, hev.symm.trans (congrArg Outcome.events hloop)⟩
  · rintro ⟨hroom, hvals⟩
    have herror : .error ∉ ((tuples.drop query.skipped).filter filter).map element := by
      rw [hvals]
      simp
    have hdestr := h.destroyed _ _ hpast hroom herror
    obtain ⟨-, hev⟩ := h.of_destroyed hbatch _ _ hpast hdestr
    calc loop query.skipped (tuples.drop query.skipped)
        = ⟨(loop query.skipped (tuples.drop query.skipped)).events,
            (loop query.skipped (tuples.drop query.skipped)).destroyed⟩ := rfl
      _ = ⟨values.map .value, true⟩ := by rw [hdestr, hev, hvals]

/-- The event of a match, in the loop that the query takes. -/
def Query.event (query : Query Tuple Other) : Tuple → Event (Tuple ⊕ Other) :=
  if query.filter.isSome then query.element else query.mapped

theorem passes_stream (query : Query Tuple Other) :
    ∃ loop, Passes query (query.filter.getD fun _ => true) query.event loop ∧
      ∀ tuples, stream query tuples = loop 0 tuples := by
  unfold stream Query.event
  cases query.filter with
  | none => exact ⟨_, passes_unfiltered query, fun _ => rfl⟩
  | some filter => exact ⟨_, passes_filtered query filter, fun _ => rfl⟩

theorem event_eq_value (tuple : Tuple) (value : Tuple ⊕ Other) :
    query.event tuple = .value value ↔
      ((query.filter.isSome ∨ query.map.isSome) ∧ (query.map.getD .inl tuple).isLeft) ∧
        value = query.map.getD .inl tuple := by
  unfold Query.event Query.element Query.mapped
  cases query.filter <;> cases query.map with
  | none => simp [eq_comm]
  | some map => cases h : map tuple <;> simp [yielded, h, eq_comm]

theorem map_event_eq (tuples : List Tuple) (values : List (Tuple ⊕ Other)) :
    tuples.map query.event = values.map .value ↔
      (∀ tuple ∈ tuples, (query.filter.isSome ∨ query.map.isSome) ∧
        (query.map.getD .inl tuple).isLeft) ∧ tuples.map (query.map.getD .inl) = values := by
  induction tuples generalizing values with
  | nil => cases values <;> simp
  | cons tuple tuples ih =>
    cases values with
    | nil => simp
    | cons value values =>
      rw [map_cons, map_cons, List.cons.injEq, event_eq_value, ih, forall_mem_cons,
        map_cons, List.cons.injEq, @eq_comm _ value]
      tauto

variable {α : Type*}

theorem takes_map {β : Type*} (f : α → β) (listener : Listener) (values : List α) :
    listener.takes (values.map f) = (listener.takes values).map f := by
  cases listener with
  | stays => rfl
  | handles before => exact map_take.symm
  | waits taken => exact map_take.symm

theorem map_value?_of_values {events : List (Event α)} (h : ¬events.any Event.isError = true) :
    (events.filterMap Event.value?).map .value = events := by
  induction events with
  | nil => rfl
  | cons event events ih =>
    cases event with
    | error => exact absurd rfl h
    | value value => exact congrArg (Event.value value :: ·) (ih h)

/-- What the stream alone says about its listeners, and about `collect` and `forEach`. -/
theorem streams_iff_stream {listener : Listener} {throws : Tuple ⊕ Other → Bool} :
    Streams query listener throws tuples ↔
      stream query tuples = ⟨(wanted query tuples).map .value, true⟩ ∧
        Stays query listener throws tuples := by
  unfold Streams Stays collect forEach
  generalize wanted query tuples = wanted
  have herrors : ∀ values : List (Tuple ⊕ Other),
      (values.map Event.value).any Event.isError = false := by
    intro values
    rw [any_map]
    exact any_eq_false.mpr fun _ _ => Bool.false_ne_true
  have htaken : ∀ values : List (Tuple ⊕ Other),
      (values.map Event.value).takeWhile (fun event => !event.isError) = values.map Event.value :=
    fun values => takeWhile_eq_self_iff.mpr fun event hmem => by
      obtain ⟨_, -, rfl⟩ := mem_map.mp hmem
      rfl
  have hvals : ∀ values : List (Tuple ⊕ Other),
      (values.map Event.value).filterMap Event.value? = values := by
    intro values
    rw [filterMap_map]
    exact filterMap_some
  constructor
  · rintro ⟨hheard, hcollect, hforEach⟩
    dsimp only at hcollect
    split_ifs at hcollect with herror
    · cases hcollect
    obtain ⟨hwanted, hdestr⟩ := Prod.mk.inj hcollect
    -- Without an error the events are the values that `collect` has.
    have hev : (stream query tuples).events = wanted.map .value := by
      rw [← Option.some.inj hwanted]
      exact (map_value?_of_values herror).symm
    have hstream : stream query tuples = ⟨wanted.map .value, true⟩ := by rw [← hev, ← hdestr]
    rw [hstream] at hheard hforEach
    have hremains := congrArg Outcome.destroyed hheard
    have hthrows := congrArg Prod.snd hforEach
    simp only [Outcome.heard, Bool.true_and, length_map] at hremains
    simp only [herrors, htaken, hvals, Bool.not_false, Bool.true_and, Bool.and_true,
      Bool.not_eq_true'] at hthrows
    exact ⟨hstream, hremains, hthrows⟩
  · rintro ⟨hstream, hremains, hthrows⟩
    simp only [hstream, herrors, htaken, hvals, hthrows, Outcome.heard, takes_map, length_map,
      hremains]
    exact ⟨rfl, rfl, rfl⟩

theorem drop_eq_take_drop {list : List α} {passed dropped limit : ℕ}
    (hpassed : passed = min dropped list.length) (hlimit : list.length - dropped ≤ limit) :
    list.drop passed = (list.drop dropped).take limit := by
  subst hpassed
  have hcut : (list.drop dropped).take limit = list.drop dropped :=
    take_of_length_le (by rwa [length_drop])
  rw [hcut]
  by_cases hdropped : dropped ≤ list.length
  · rw [Nat.min_eq_left hdropped]
  · rw [Nat.min_eq_right (by omega), drop_length, drop_eq_nil_of_le (by omega)]

/-- In a list of distinct elements the rest behind some of them is found nowhere else. -/
theorem of_drop_eq_take_drop {list : List α} {passed dropped limit : ℕ}
    (heq : list.drop passed = (list.drop dropped).take limit) (hlimit : 0 < limit)
    (hpassed : passed ≤ list.length) (hnodup : list.Nodup) :
    passed = min dropped list.length ∧ list.length - dropped ≤ limit := by
  have hlen := congrArg List.length heq
  rw [length_take, length_drop, length_drop] at hlen
  by_cases hfull : passed = list.length
  · omega
  have hpassed' : passed < list.length := by omega
  have hdropped : dropped < list.length := by omega
  have hfirst : list[passed]? = list[dropped]? := by
    have hhead := congrArg (·[0]?) heq
    simpa [hlimit] using hhead
  have hsame : passed = dropped := by
    rw [getElem?_eq_getElem hpassed', getElem?_eq_getElem hdropped] at hfirst
    exact (hnodup.getElem_inj_iff).mp (Option.some.inj hfirst)
  omega

theorem filter_drop (filter : α → Bool) (n : ℕ) (list : List α) :
    (list.drop n).filter filter = (list.filter filter).drop ((list.take n).countP filter) := by
  have hsplit : list.filter filter = (list.take n).filter filter ++
      (list.drop n).filter filter := by
    rw [← filter_append, take_append_drop]
  rw [hsplit, countP_eq_length_filter, drop_left]

theorem wanted_eq (query : Query Tuple Other) (tuples : List Tuple) :
    wanted query tuples =
      (((tuples.filter (query.filter.getD fun _ => true)).map (query.map.getD .inl)).drop
        (query.offset.getD 0)).take (query.limit.getD (tuples.length + 1)) := by
  have hlen : (tuples.filter (query.filter.getD fun _ => true)).length ≤ tuples.length :=
    length_filter_le _ _
  unfold wanted
  dsimp only
  cases query.limit with
  | some limit => rw [Option.elim_some, map_take, map_drop, Option.getD_some]
  | none =>
    rw [Option.elim_none, map_drop, Option.getD_none, take_of_length_le]
    rw [length_drop, length_map]
    omega

/-- The stream is what is asked for if and only if no batch begins behind the limit and the rest
behind the skipped batches is what is asked for. -/
theorem stream_iff_rest (hbatch : 0 < query.batch) :
    stream query tuples = ⟨(wanted query tuples).map .value, true⟩ ↔
      Room query (query.filter.getD fun _ => true) query.skipped (tuples.drop query.skipped) ∧
      (∀ tuple ∈ (tuples.drop query.skipped).filter (query.filter.getD fun _ => true),
        (query.filter.isSome ∨ query.map.isSome) ∧ (query.map.getD .inl tuple).isLeft) ∧
      ((tuples.drop query.skipped).filter (query.filter.getD fun _ => true)).map
        (query.map.getD .inl) = wanted query tuples := by
  obtain ⟨loop, hpasses, hloop⟩ := passes_stream query
  rw [hloop, hpasses.result hbatch, map_event_eq]

/-- A stream with aligned arguments is what is asked for, and no other is when the tuples are mapped
to distinct values. -/
theorem stream_iff_aligned (query : Query Tuple Other) (tuples : List Tuple)
    (hcount : 1 ≤ query.count) :
    (Aligned query tuples → stream query tuples = ⟨(wanted query tuples).map .value, true⟩) ∧
      ((tuples.map (query.map.getD .inl)).Nodup →
        stream query tuples = ⟨(wanted query tuples).map .value, true⟩ → Aligned query tuples) := by
  by_cases hzero : query.limit = some 0
  · have hbatch : query.batch = 0 := by
      unfold Query.batch
      rw [hzero]
      exact Nat.min_zero _
    -- With a limit of zero neither side gives anything.
    have hwanted : wanted query tuples = [] := by
      rw [wanted_eq, hzero]
      exact take_zero
    refine ⟨fun _ => ?_, fun _ _ => Or.inl hzero⟩
    obtain ⟨loop, hpasses, hloop⟩ := passes_stream query
    rw [hloop, hwanted, hpasses.ends _ _ (by rw [hbatch]; exact take_zero)]
    rfl
  have hlimit : 0 < query.limit.getD (tuples.length + 1) := by
    cases hlimit : query.limit with
    | none => exact Nat.succ_pos _
    | some limit => exact Nat.pos_of_ne_zero fun h => hzero (hlimit.trans (congrArg some h))
  have hbatch : 0 < query.batch := by
    unfold Query.batch
    cases hlimit : query.limit with
    | none => exact hcount
    | some limit =>
      have hpos : limit ≠ 0 := fun h => hzero (hlimit.trans (congrArg some h))
      dsimp only
      omega
  -- A limit that is not there is more than all tuples.
  have hall : ∀ n, n ≤ tuples.length →
      ((∀ limit ∈ query.limit, n ≤ limit) ↔ n ≤ query.limit.getD (tuples.length + 1)) := by
    intro n hn
    cases query.limit with
    | none => simp; omega
    | some limit => simp
  have hmatching : (tuples.filter (query.filter.getD fun _ => true)).length ≤ tuples.length :=
    length_filter_le _ _
  have hpassed : (tuples.take query.skipped).countP (query.filter.getD fun _ => true) ≤
      (tuples.filter (query.filter.getD fun _ => true)).length := by
    rw [← countP_eq_length_filter]
    exact (take_sublist _ _).countP_le
  rw [stream_iff_rest hbatch, wanted_eq, filter_drop, map_drop]
  unfold Aligned
  dsimp only
  rw [filter_drop, or_iff_right hzero, hall _ (by omega)]
  constructor
  · rintro ⟨hdropped, hcut, hroom, hvals⟩
    refine ⟨hroom, hvals, drop_eq_take_drop ?_ ?_⟩
    · rwa [length_map]
    · rwa [length_map]
  · rintro hnodup ⟨hroom, hvals, hrest⟩
    obtain ⟨hdropped, hcut⟩ := of_drop_eq_take_drop hrest hlimit (by rwa [length_map])
      (hnodup.sublist (filter_sublist.map _))
    rw [length_map] at hdropped hcut
    exact ⟨hdropped, hcut, hroom, hvals⟩

/-- Aligned arguments and a listener that stays are enough for any sequence, and when the tuples are
mapped to distinct values nothing else will do. -/
theorem streams_iff_aligned (query : Query Tuple Other) (listener : Listener)
    (throws : Tuple ⊕ Other → Bool) (tuples : List Tuple) (hcount : 1 ≤ query.count) :
    (Aligned query tuples ∧ Stays query listener throws tuples →
        Streams query listener throws tuples) ∧
      ((tuples.map (query.map.getD .inl)).Nodup → Streams query listener throws tuples →
        Aligned query tuples ∧ Stays query listener throws tuples) := by
  obtain ⟨hstream, haligned⟩ := stream_iff_aligned query tuples hcount
  rw [streams_iff_stream]
  exact ⟨And.imp_left hstream, fun hnodup => And.imp_left (haligned hnodup)⟩

/-- Three tuples without arguments but a map, in batches of two, for a listener that cancels behind
the last of them. -/
theorem streams_iff_aligned_three :
    Streams (⟨none, some .inl, none, none, 2⟩ : Query ℕ Empty) (.waits 3) (fun _ => false)
      [10, 20, 30] :=
  (streams_iff_aligned _ _ _ _ (by decide)).1
    ⟨.inr ⟨by decide, nofun, fun _ _ => Bool.false_ne_true, by decide⟩, by decide, by decide⟩

/-- The first tuple is to be dropped: the batches at 0 and 1 both go. -/
theorem not_streams : ¬∀ (query : Query ℕ Empty) (listener : Listener) (throws : ℕ ⊕ Empty → Bool)
    (tuples : List ℕ), 1 ≤ query.count → Streams query listener throws tuples := by
  intro h
  have hstreams :=
    (h ⟨none, some .inl, none, some 1, 1⟩ .stays (fun _ => false) [10, 20, 30] le_rfl).1
  have hgiven : stream (⟨none, some .inl, none, some 1, 1⟩ : Query ℕ Empty) [10, 20, 30] =
      ⟨[.value (.inl 30)], true⟩ := by
    simp [stream, unfiltered, Query.batch, Query.skips, Query.stops, Query.mapped, yielded]
  rw [hgiven] at hstreams
  exact absurd (congrArg Outcome.events hstreams) (by decide)

end Streams

end FengShui.StorageIterator
