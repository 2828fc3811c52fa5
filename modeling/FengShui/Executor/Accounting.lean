import FengShui.Executor.Executor
import Mathlib.Algebra.BigOperators.Group.List.Basic
import Mathlib.Logic.Function.Basic

/-!
# Pending calls of a producer (`executor/producer.dart`)

A call has its entry in `_calls` until `_onComplete` removes it, which is a microtask of its future.
An answer with an error ends the future without it. `accounted_iff` says in which runs the entries
are the calls without an answer.
-/

namespace FengShui.Executors

open Transition
open List hiding beq_eq_decide

/-- `ExecutorProducerImplementation` and its methods, with the calls that were issued. -/
structure Producer where
  /-- The pointers of the methods that `register` returned. -/
  objects : List ℕ
  /-- `_methods`: the place of a method for each pointer. -/
  methods : DartMap ℕ ℕ
  /-- The `_calls` of all methods, by the place of the method and the address of the task. -/
  calls : DartMap (ℕ × ℕ) CallState
  /-- `message.ref.method` of the task at an address. -/
  tasks : ℕ → ℕ
  /-- The calls whose `_onComplete` is due. -/
  microtasks : List (ℕ × ℕ)
  /-- The addresses of the calls whose answer has not arrived. -/
  outstanding : List ℕ

inductive ProducerAction where
  /-- `ExecutorMethodImplementation.call`; the ring may have no entry left. -/
  | call (place address : ℕ) (prepared : Bool)
  /-- The answer of a call is dispatched, with or without `executorTaskOutputEvent`. -/
  | answer (address : ℕ) (event : Bool)
  | microtask

namespace Producer

/-- `ExecutorProducerImplementation.register`. -/
def register (producer : Producer) (pointer : ℕ) : Producer :=
  { producer with
    methods := producer.methods.set pointer producer.objects.length
    objects := producer.objects ++ [pointer] }

/-- A producer with its methods, and no call. -/
def initial (pointers : List ℕ) (tasks : ℕ → ℕ) : Producer :=
  pointers.foldl register ⟨[], .empty, .empty, tasks, [], []⟩

/-- `_calls.length` of a method. -/
def pendingOf (producer : Producer) (place : ℕ) : ℕ :=
  producer.calls.keys.countP fun key => key.1 = place

def pending (producer : Producer) : ℕ := (producer.methods.values.map producer.pendingOf).sum

/-- `ExecutorMethodImplementation.call` of the method with a pointer. -/
def call (place address : ℕ) (prepared : Bool) (producer : Producer) (pointer : ℕ) : Producer :=
  let tasks := Function.update producer.tasks address pointer
  if prepared then
    { producer with
      tasks := tasks
      calls := producer.calls.set (place, address) .waiting
      outstanding := producer.outstanding ++ [address] }
  -- `systemCheck` throws.
  else { producer with tasks := tasks }

/-- The call that the answer of a task is for. -/
def target (producer : Producer) (address : ℕ) : Option (ℕ × ℕ) :=
  (producer.methods.get? (producer.tasks address)).map fun place => (place, address)

/-- `ExecutorProducerImplementation.callback`. -/
def callback (address : ℕ) (event : Bool) (producer : Producer) : Producer :=
  match producer.target address with
  | none => producer
  | some key =>
    match producer.calls.get? key with
    | none => producer
    | some .waiting =>
      if event then { producer with calls := producer.calls.set key .failed }
      else { producer with
        calls := producer.calls.set key .completed
        microtasks := producer.microtasks ++ [key] }
    -- The completer is completed already, and throws.
    | some .completed | some .failed => producer

/-- `_onComplete`. -/
def onComplete (producer : Producer) (key : ℕ × ℕ) : Producer :=
  { producer with calls := producer.calls.remove key }

/-- One action, `none` when it cannot happen. -/
def step (producer : Producer) : ProducerAction → Option Producer
  | .call place address prepared =>
    producer.objects[place]?.map (producer.call place address prepared)
  | .answer address event =>
    if address ∈ producer.outstanding then
      some
        { producer.callback address event with outstanding := producer.outstanding.erase address }
    else none
  | .microtask =>
    match producer.microtasks with
    | [] => none
    | key :: microtasks => some ({ producer with microtasks := microtasks }.onComplete key)

/-- The microtasks that are due have run. -/
def settled (producer : Producer) : Producer :=
  { producer.microtasks.foldl onComplete producer with microtasks := [] }

/-- The pending calls are those without an answer. -/
def Accounted (producer : Producer) : Prop := producer.settled.pending = producer.outstanding.length

instance (producer : Producer) : Decidable producer.Accounted := inferInstanceAs (Decidable (_ = _))

/-- A call that has no entry is sent by a method that is in `_methods`, and an answer without an
error finds the waiting entry of a call. -/
def Orderly (producer : Producer) : ProducerAction → Prop
  | .call place address prepared => prepared = true →
    place ∈ producer.methods.values ∧ (place, address) ∉ producer.calls.keys
  | .answer address event => event = false ∧
    ∃ key, producer.target address = some key ∧ producer.calls.get? key = some .waiting
  | .microtask => True

/-! ## Counts -/

/-- A call of these methods whose `_onComplete` is not due. -/
def counts (places : List ℕ) (due : List (ℕ × ℕ)) (key : ℕ × ℕ) : Bool :=
  key.1 ∈ places && key ∉ due

theorem counts_concat (places : List ℕ) (due : List (ℕ × ℕ)) (key other : ℕ × ℕ) :
    counts places (due ++ [key]) other = (counts places due other && other != key) := by
  unfold counts
  rw [Bool.and_assoc]
  simp [bne, beq_eq_decide]

theorem counts_cons (places : List ℕ) (due : List (ℕ × ℕ)) (key other : ℕ × ℕ) :
    counts places (key :: due) other = (counts places due other && other != key) := by
  unfold counts
  rw [Bool.and_assoc]
  simp [bne, beq_eq_decide, Bool.and_comm]

variable {producer : Producer}

theorem sum_ite_mem {places : List ℕ} (h : places.Nodup) (place : ℕ) :
    (places.map fun other => if decide (place = other) = true then 1 else 0).sum =
      if decide (place ∈ places) = true then 1 else 0 := by
  induction places with
  | nil => rfl
  | cons first places ih =>
    obtain ⟨hfirst, hplaces⟩ := nodup_cons.mp h
    rw [map_cons, sum_cons, ih hplaces]
    by_cases heq : place = first
    · subst heq
      simp [hfirst]
    · simp [heq]

/-- The entries of distinct methods, one method after the other. -/
theorem sum_pendingOf {places : List ℕ} (h : places.Nodup) (keys : List (ℕ × ℕ)) :
    (places.map fun place => keys.countP fun key => key.1 = place).sum =
      keys.countP fun key => key.1 ∈ places := by
  induction keys with
  | nil => simp
  | cons key keys ih =>
    simp only [countP_cons, sum_map_add, ih, sum_ite_mem h]

theorem pending_eq (h : producer.methods.values.Nodup) :
    producer.pending = producer.calls.keys.countP fun key => key.1 ∈ producer.methods.values :=
  sum_pendingOf h producer.calls.keys

/-- What the microtasks leave. -/
theorem keys_foldl (keys : List (ℕ × ℕ)) :
    (keys.foldl onComplete producer).calls.keys = producer.calls.keys.filter (· ∉ keys) := by
  induction keys generalizing producer with
  | nil => simp
  | cons key keys ih =>
    rw [foldl_cons, ih, onComplete, DartMap.keys_remove, filter_filter]
    apply filter_congr
    intro other _
    simp only [mem_cons, not_or, ne_eq, Bool.decide_and]
    exact Bool.and_comm _ _

theorem methods_foldl (keys : List (ℕ × ℕ)) :
    (keys.foldl onComplete producer).methods = producer.methods := by
  induction keys generalizing producer with
  | nil => rfl
  | cons key keys ih => exact ih

theorem accounted_iff_count (h : producer.methods.values.Nodup) :
    producer.Accounted ↔
      producer.calls.keys.countP (counts producer.methods.values producer.microtasks) =
        producer.outstanding.length := by
  have hmethods : producer.settled.methods = producer.methods := methods_foldl _
  have hkeys : producer.settled.calls.keys = producer.calls.keys.filter (· ∉ producer.microtasks) :=
    keys_foldl _
  unfold Accounted
  rw [pending_eq (by rwa [hmethods]), hmethods, hkeys, countP_filter]
  rfl

theorem Accounted.count (hacct : producer.Accounted) (h : producer.methods.values.Nodup) :
    producer.calls.keys.countP (counts producer.methods.values producer.microtasks) =
      producer.outstanding.length := (accounted_iff_count h).mp hacct

/-! ## Runs -/

variable {address : ℕ} {next : Producer} {key : ℕ × ℕ}

theorem answer_eq_some {event : Bool} (h : producer.step (.answer address event) = some next) :
    address ∈ producer.outstanding ∧
      next =
        { producer.callback address event with
          outstanding := producer.outstanding.erase address } := by
  unfold step at h
  dsimp only at h
  split_ifs at h with hmem
  exact ⟨hmem, (Option.some.inj h).symm⟩

theorem microtask_eq_some (h : producer.step .microtask = some next) :
    ∃ key microtasks, producer.microtasks = key :: microtasks ∧
      next = { producer.onComplete key with microtasks := microtasks } := by
  unfold step at h
  dsimp only at h
  cases hqueue : producer.microtasks with
  | nil =>
    rw [hqueue] at h
    cases h
  | cons key microtasks =>
    rw [hqueue] at h
    exact ⟨key, microtasks, rfl, (Option.some.inj h).symm⟩

theorem callback_of_waiting (htarget : producer.target address = some key)
    (hwait : producer.calls.get? key = some .waiting) :
    producer.callback address false = { producer with
      calls := producer.calls.set key .completed
      microtasks := producer.microtasks ++ [key] } := by
  unfold callback
  rw [htarget]
  dsimp only
  rw [hwait]
  rfl

/-- What is counted, and that what is due is completed. -/
structure Balanced (producer : Producer) : Prop where
  places : producer.methods.values.Nodup
  count : producer.calls.keys.countP (counts producer.methods.values producer.microtasks) =
    producer.outstanding.length
  completed : ∀ key ∈ producer.microtasks, producer.calls.get? key = some .completed
  nodup : producer.microtasks.Nodup

theorem Balanced.accounted (h : producer.Balanced) : producer.Accounted :=
  (accounted_iff_count h.places).mpr h.count

theorem not_due (h : producer.Balanced) (hkey : producer.calls.get? key ≠ some .completed) :
    key ∉ producer.microtasks := fun hmem => hkey (h.completed key hmem)

/-- One of distinct keys is counted no more. -/
theorem countP_ne {keys : List (ℕ × ℕ)} {counted : ℕ × ℕ → Bool} (hnodup : keys.Nodup)
    (hmem : key ∈ keys) (hkey : counted key = true) :
    keys.countP counted = (keys.countP fun other => counted other && other != key) + 1 := by
  rw [(perm_cons_erase hmem).countP_eq, countP_cons, if_pos hkey, hnodup.erase_eq_filter,
    countP_filter]

theorem target_eq_some (h : producer.target address = some key) :
    key.1 ∈ producer.methods.values := by
  obtain ⟨place, hplace, rfl⟩ := Option.map_eq_some_iff.mp h
  exact mem_map.mpr ⟨_, (DartMap.get?_eq_some _ _).mp hplace, rfl⟩

/-- A step in the order that keeps the balance. -/
theorem Balanced.step (h : producer.Balanced) {action : ProducerAction}
    (horderly : producer.Orderly action) (hstep : producer.step action = some next) :
    next.Balanced := by
  cases action with
  | call place address prepared =>
    obtain ⟨pointer, -, rfl⟩ := Option.map_eq_some_iff.mp hstep
    unfold call
    cases prepared with
    | false => exact ⟨h.places, h.count, h.completed, h.nodup⟩
    | true =>
      obtain ⟨hplace, hfresh⟩ := horderly rfl
      have hnone := producer.calls.get?_eq_none (place, address) hfresh
      have hdue : (place, address) ∉ producer.microtasks := not_due h (by rw [hnone]; rintro ⟨⟩)
      refine ⟨h.places, ?_, ?_, h.nodup⟩
      · show (producer.calls.set (place, address) .waiting).keys.countP
          (counts producer.methods.values producer.microtasks) =
            (producer.outstanding ++ [address]).length
        have hcounts : counts producer.methods.values producer.microtasks (place, address) =
            true := by
          simp [counts, hplace, hdue]
        rw [DartMap.keys_set_of_notMem _ _ hfresh, countP_append, h.count,
          countP_singleton, if_pos hcounts, length_append, length_singleton]
      · intro key hmem
        have hne : key ≠ (place, address) := fun heq => hdue (heq ▸ hmem)
        exact (DartMap.get?_set_of_ne _ _ hne _).trans (h.completed key hmem)
  | answer address event =>
    obtain ⟨rfl, key, htarget, hwait⟩ := horderly
    obtain ⟨hmem, rfl⟩ := answer_eq_some hstep
    have hkey : key ∈ producer.calls.keys := (DartMap.mem_keys_iff _ _).mpr ⟨_, hwait⟩
    have hdue : key ∉ producer.microtasks := not_due h (by rw [hwait]; rintro ⟨⟩)
    rw [callback_of_waiting htarget hwait]
    refine ⟨h.places, ?_, ?_, ?_⟩
    · show (producer.calls.set key .completed).keys.countP
        (counts producer.methods.values (producer.microtasks ++ [key])) =
          (producer.outstanding.erase address).length
      have hcounts : counts producer.methods.values producer.microtasks key = true := by
        simp [counts, target_eq_some htarget, hdue]
      have hcount := countP_ne producer.calls.nodup hkey hcounts
      have hother : counts producer.methods.values (producer.microtasks ++ [key]) = fun other =>
          counts producer.methods.values producer.microtasks other && other != key :=
        funext (counts_concat _ _ key)
      rw [DartMap.keys_set_of_mem _ _ hkey, length_erase_of_mem hmem, ← h.count, hother]
      exact Nat.eq_sub_of_add_eq hcount.symm
    · intro other hother
      rcases mem_append.mp hother with hother | hother
      · have hne : other ≠ key := fun heq => hdue (heq ▸ hother)
        exact (DartMap.get?_set_of_ne _ _ hne _).trans (h.completed other hother)
      · rw [mem_singleton.mp hother]
        exact DartMap.get?_set_self _ _ _
    · exact nodup_append.mpr ⟨h.nodup, nodup_singleton key, by
        rintro other hother _ hsame rfl
        rw [mem_singleton.mp hsame] at hother
        exact hdue hother⟩
  | microtask =>
    obtain ⟨key, microtasks, hqueue, rfl⟩ := microtask_eq_some hstep
    have hnodup := h.nodup
    rw [hqueue, nodup_cons] at hnodup
    have hcount := h.count
    rw [hqueue, funext (counts_cons _ _ key)] at hcount
    refine ⟨h.places, ?_, ?_, hnodup.2⟩
    · show (producer.calls.remove key).keys.countP (counts producer.methods.values microtasks) =
        producer.outstanding.length
      rw [DartMap.keys_remove, countP_filter, ← hcount]
      simp only [ne_eq, decide_not, bne, beq_eq_decide]
    · intro other hother
      have hne : other ≠ key := fun heq => hnodup.1 (heq ▸ hother)
      exact (DartMap.get?_remove_of_ne _ _ hne).trans
        (h.completed other (hqueue ▸ mem_cons_of_mem key hother))

/-- What an answer leaves as it is that carries an error or does not find a waiting entry. -/
theorem callback_of_not {event : Bool} (h : ¬producer.Orderly (.answer address event)) :
    (producer.callback address event).calls.keys = producer.calls.keys ∧
      (producer.callback address event).microtasks = producer.microtasks ∧
      (producer.callback address event).methods = producer.methods := by
  unfold callback
  cases htarget : producer.target address with
  | none => exact ⟨rfl, rfl, rfl⟩
  | some key =>
    dsimp only
    cases hcall : producer.calls.get? key with
    | none => exact ⟨rfl, rfl, rfl⟩
    | some state =>
      cases state with
      | completed | failed => exact ⟨rfl, rfl, rfl⟩
      | waiting =>
        cases event with
        | false => exact absurd ⟨rfl, key, htarget, hcall⟩ h
        | true =>
          have hkey : key ∈ producer.calls.keys := (DartMap.mem_keys_iff _ _).mpr ⟨_, hcall⟩
          exact ⟨DartMap.keys_set_of_mem _ _ hkey _, rfl, rfl⟩

/-- A step out of order is seen at once. -/
theorem Balanced.breaks (h : producer.Balanced) {action : ProducerAction}
    (hnot : ¬producer.Orderly action) (hstep : producer.step action = some next) :
    ¬next.Accounted := by
  cases action with
  | call place address prepared =>
    obtain ⟨pointer, -, rfl⟩ := Option.map_eq_some_iff.mp hstep
    cases prepared with
    | false => exact absurd (by rintro ⟨⟩) hnot
    | true =>
      intro hacct
      have hcount : (producer.calls.set (place, address) .waiting).keys.countP
          (counts producer.methods.values producer.microtasks) =
            (producer.outstanding ++ [address]).length :=
        hacct.count h.places
      rw [length_append, length_singleton, ← h.count] at hcount
      by_cases hkey : (place, address) ∈ producer.calls.keys
      · rw [DartMap.keys_set_of_mem _ _ hkey] at hcount
        omega
      · have hplace : place ∉ producer.methods.values := fun hplace => hnot fun _ => ⟨hplace, hkey⟩
        have hcounts : ¬counts producer.methods.values producer.microtasks (place, address) =
            true := by
          simp [counts, hplace]
        rw [DartMap.keys_set_of_notMem _ _ hkey, countP_append, countP_singleton,
          if_neg hcounts] at hcount
        omega
  | answer address event =>
    obtain ⟨hmem, rfl⟩ := answer_eq_some hstep
    obtain ⟨hkeys, hmicro, hmethods⟩ := callback_of_not hnot
    have hplaces : (producer.callback address event).methods.values.Nodup := by
      rw [hmethods]
      exact h.places
    intro hacct
    have hcount : (producer.callback address event).calls.keys.countP
        (counts (producer.callback address event).methods.values
          (producer.callback address event).microtasks) =
          (producer.outstanding.erase address).length := hacct.count hplaces
    have hpos := length_pos_of_mem hmem
    rw [hkeys, hmicro, hmethods, h.count, length_erase_of_mem hmem] at hcount
    omega
  | microtask => exact absurd trivial hnot

/-- `_methods` leads to a method with the pointer. -/
theorem objects_foldl (pointers : List ℕ)
    (h : ∀ pointer place, producer.methods.get? pointer = some place →
      producer.objects[place]? = some pointer) (pointer place : ℕ)
    (hplace : (pointers.foldl register producer).methods.get? pointer = some place) :
    (pointers.foldl register producer).objects[place]? = some pointer := by
  induction pointers generalizing producer with
  | nil => exact h pointer place hplace
  | cons first pointers ih =>
    apply ih _ hplace
    intro pointer place hget
    show (producer.objects ++ [first])[place]? = some pointer
    obtain ⟨rfl, rfl⟩ | ⟨-, hget⟩ := DartMap.get?_of_set _ _ hget
    · exact getElem?_concat_length
    · have hobj := h pointer place hget
      rw [getElem?_append_left (List.getElem?_eq_some_iff.mp hobj).1]
      exact hobj

theorem calls_foldl (pointers : List ℕ) :
    (pointers.foldl register producer).calls = producer.calls ∧
      (pointers.foldl register producer).microtasks = producer.microtasks ∧
      (pointers.foldl register producer).outstanding = producer.outstanding := by
  induction pointers generalizing producer with
  | nil => exact ⟨rfl, rfl, rfl⟩
  | cons first pointers ih => exact ih

theorem balanced_initial (pointers : List ℕ) (tasks : ℕ → ℕ) :
    (initial pointers tasks).Balanced := by
  obtain ⟨hcalls, hmicro, hout⟩ :=
    @calls_foldl ⟨[], .empty, .empty, tasks, [], []⟩ pointers
  refine ⟨?_, ?_, ?_, ?_⟩
  · have hobjs := @objects_foldl ⟨[], .empty, .empty, tasks, [], []⟩ pointers
      nofun
    apply List.Nodup.map_on _ (List.Nodup.of_map _ (initial pointers tasks).methods.nodup)
    intro entry hent other hother heq
    have hfirst := hobjs entry.1 entry.2 ((DartMap.get?_eq_some _ _).mpr hent)
    have hsecond := hobjs other.1 other.2 ((DartMap.get?_eq_some _ _).mpr hother)
    rw [heq, hsecond] at hfirst
    exact Prod.ext (Option.some.inj hfirst).symm heq
  · unfold initial
    rw [hcalls, hout]
    rfl
  · unfold initial
    rw [hmicro]
    exact nofun
  · unfold initial
    rw [hmicro]
    exact nodup_nil

/-- The pending calls of a producer are those without an answer, at every moment of a run, if and
only if no answer carries an error or misses its entry, and no call takes the place of another or is
sent by a method that was registered again. -/
theorem accounted_iff (pointers : List ℕ) (tasks : ℕ → ℕ) {actions : List ProducerAction}
    {last : Producer} (hrun : run step (initial pointers tasks) actions = some last) :
    Throughout step Accounted (initial pointers tasks) actions ↔
      Along step Orderly (initial pointers tasks) actions :=
  throughout_iff Balanced (fun _ => Balanced.accounted)
    (fun _ _ _ h horderly hstep => h.step horderly hstep)
    (fun _ _ _ h hnot hstep => h.breaks hnot hstep) (balanced_initial pointers tasks) hrun

/-- A call and its answer. -/
theorem accounted_iff_answer :
    Throughout step Accounted (initial [7] fun _ => 0) [.call 0 3 true, .answer 3 false,
      .microtask] ↔
      Along step Orderly (initial [7] fun _ => 0) [.call 0 3 true, .answer 3 false, .microtask] :=
  accounted_iff [7] (fun _ => 0) rfl

/-- A call and an answer with an error. -/
theorem not_accounted : ¬∀ (pointers : List ℕ) (tasks : ℕ → ℕ) (actions : List ProducerAction)
    (last : Producer), run step (initial pointers tasks) actions = some last →
      Throughout step Accounted (initial pointers tasks) actions := by
  intro hall
  have hlast :=
    hall [7] (fun _ => 0) [.call 0 3 true, .answer 3 true] _ rfl _ [] _ (List.append_nil _).symm rfl
  exact absurd hlast (by decide)

end Producer

end FengShui.Executors
