import FengShui.Core.Dart
import Mathlib.Data.List.TakeWhile

/-!
# The callbacks of a batched write (`provider.dart` and `responder.dart` of `transport`)

`writeMany` (of `TransportFile` too), `sendMany` and `respondMany` give every buffer of the batch
the same two closures over two counters, which are to call the caller back once, behind the last
completion. The closure of a success counts only while there is no error, so the counters reach the
length of the batch only when no success comes behind an error (`counted_eq_length`), and otherwise
the caller is never called.
-/

namespace FengShui.Transport

open List

/-- The completion of one buffer of a batch. -/
inductive Completion (ε : Type) where
  | done
  | error (e : ε)
  deriving DecidableEq, Repr

namespace Completion

variable {ε : Type}

def isDone : Completion ε → Bool
  | done => true
  | error _ => false

def isError : Completion ε → Bool
  | done => false
  | error _ => true

@[simp] theorem isDone_done : (done : Completion ε).isDone = true := rfl

@[simp] theorem isDone_error (e : ε) : (error e).isDone = false := rfl

@[simp] theorem isError_done : (done : Completion ε).isError = false := rfl

@[simp] theorem isError_error (e : ε) : (error e).isError = true := rfl

end Completion

/-- The variables of the closures, and the calls of the caller's `onDone` and `onError` so far. -/
structure Batch (ε : Type) where
  length : ℕ
  doneCounter : ℕ
  errorCounter : ℕ
  called : List (Completion ε)
  deriving DecidableEq, Repr

namespace Batch

variable {ε : Type}

def start (length : ℕ) : Batch ε := ⟨length, 0, 0, []⟩

/-- The closure `onError`. -/
def onError (e : ε) (batch : Batch ε) : Batch ε :=
  let batch := { batch with errorCounter := batch.errorCounter + 1 }
  if batch.errorCounter + batch.doneCounter = batch.length then
    { batch with called := batch.called ++ [.error e] }
  else batch

/-- The closure `onDone`: `&&` counts only without an error. -/
def onDone (batch : Batch ε) : Batch ε :=
  if batch.errorCounter = 0 then
    let batch := { batch with doneCounter := batch.doneCounter + 1 }
    if batch.doneCounter = batch.length then { batch with called := batch.called ++ [.done] }
    else batch
  else batch

def complete (batch : Batch ε) : Completion ε → Batch ε
  | .done => batch.onDone
  | .error e => batch.onError e

/-- The batch behind completions, in their order. -/
def run (batch : Batch ε) (completions : List (Completion ε)) : Batch ε :=
  completions.foldl complete batch

end Batch

def TransportClientConnection.writeMany {ε : Type} (bytes : List Uint8List) : Batch ε :=
  .start bytes.length

def TransportDatagramClient.sendMany {ε : Type} (bytes : List Uint8List) : Batch ε :=
  .start bytes.length

def TransportServerConnection.writeMany {ε : Type} (bytes : List Uint8List) : Batch ε :=
  .start bytes.length

def TransportServerDatagramResponder.respondMany {ε : Type} (bytes : List Uint8List) : Batch ε :=
  .start bytes.length

/-- The caller is called once, behind the last completion, and with `onDone` just when there is no
error. -/
def Aggregates {ε : Type} (batch : Batch ε) (completions : List (Completion ε)) : Prop :=
  (∀ front back, completions = front ++ back → back ≠ [] → (batch.run front).called = []) ∧
    ∃ call, (batch.run completions).called = [call] ∧
      (call.isDone = true ↔ ∀ completion ∈ completions, completion.isDone = true)

/-- No success behind an error. -/
def DonesFirst {ε : Type} (completions : List (Completion ε)) : Prop :=
  completions.Pairwise fun first later => first.isError = true → later.isError = true

instance {ε : Type} (completions : List (Completion ε)) : Decidable (DonesFirst completions) :=
  inferInstanceAs (Decidable (List.Pairwise _ _))

section Counters

variable {ε : Type} {completions : List (Completion ε)} {n : ℕ}

/-- What the counters count: the successes in front of the first error, and the errors. -/
def counted (completions : List (Completion ε)) : ℕ :=
  (completions.takeWhile Completion.isDone).length + completions.countP Completion.isError

theorem counted_done (completions : List (Completion ε)) :
    counted (.done :: completions) = counted completions + 1 := by
  unfold counted
  rw [takeWhile_cons_of_pos rfl, countP_cons_of_neg (by simp), length_cons]
  omega

theorem counted_error (e : ε) (completions : List (Completion ε)) :
    counted (.error e :: completions) = completions.countP Completion.isError + 1 := by
  unfold counted
  rw [takeWhile_cons_of_neg (by simp), countP_cons_of_pos rfl, length_nil, Nat.zero_add]

theorem counted_le_length (completions : List (Completion ε)) :
    counted completions ≤ completions.length := by
  induction completions with
  | nil => exact le_rfl
  | cons completion completions ih =>
    cases completion with
    | done =>
      rw [counted_done, length_cons]
      exact Nat.succ_le_succ ih
    | error e =>
      rw [counted_error, length_cons]
      exact Nat.succ_le_succ countP_le_length

/-- Everything is counted just when no success comes behind an error. -/
theorem counted_eq_length (completions : List (Completion ε)) :
    counted completions = completions.length ↔ DonesFirst completions := by
  induction completions with
  | nil => simp [counted, DonesFirst]
  | cons completion completions ih =>
    unfold DonesFirst at ih ⊢
    rw [pairwise_cons, length_cons]
    cases completion with
    | done =>
      rw [counted_done, Nat.succ_inj, ih]
      simp
    | error e =>
      rw [counted_error, Nat.succ_inj, countP_eq_length]
      constructor
      · intro hall
        exact ⟨fun later hmem _ => hall later hmem,
          List.Pairwise.imp_of_mem (fun _ hmem _ _ => hall _ hmem)
            (pairwise_of_forall fun _ _ => trivial)⟩
      · exact fun h later hmem => h.1 later hmem rfl

/-- There is no error just when the successes in front of the first are all. -/
theorem countP_isError_eq_zero (completions : List (Completion ε)) :
    completions.countP Completion.isError = 0 ↔
      (completions.takeWhile Completion.isDone).length = completions.length := by
  induction completions with
  | nil => simp
  | cons completion completions ih =>
    cases completion with
    | done =>
      rw [countP_cons_of_neg (by simp), takeWhile_cons_of_pos rfl, length_cons,
        length_cons, Nat.succ_inj, ih]
    | error e =>
      rw [countP_cons_of_pos rfl, takeWhile_cons_of_neg (by simp)]
      simp

theorem run_concat (batch : Batch ε)
    (completions : List (Completion ε)) (completion : Completion ε) :
    batch.run (completions ++ [completion]) = (batch.run completions).complete completion :=
  foldl_concat ..

/-- A last success is one of the first just when there is no error. -/
theorem length_takeWhile_concat_done (completions : List (Completion ε)) :
    ((completions ++ [Completion.done]).takeWhile Completion.isDone).length =
      if completions.countP Completion.isError = 0 then completions.length + 1
      else (completions.takeWhile Completion.isDone).length := by
  have hall := countP_isError_eq_zero completions
  rw [takeWhile_append]
  by_cases hzero : completions.countP Completion.isError = 0
  · rw [if_pos (hall.mp hzero), if_pos hzero, length_append]
    rfl
  · rw [if_neg (mt hall.mpr hzero), if_neg hzero]

theorem length_takeWhile_concat_error (completions : List (Completion ε)) (e : ε) :
    ((completions ++ [Completion.error e]).takeWhile Completion.isDone).length =
      (completions.takeWhile Completion.isDone).length := by
  rw [takeWhile_append, takeWhile_cons_of_neg (by simp), append_nil]
  split
  · rename_i hall
    exact hall.symm
  · rfl

/-- The counters behind any completions. -/
theorem counters_run (n : ℕ) (completions : List (Completion ε)) :
    ((Batch.start n).run completions).length = n ∧
      ((Batch.start n).run completions).doneCounter =
        (completions.takeWhile Completion.isDone).length ∧
      ((Batch.start n).run completions).errorCounter = completions.countP Completion.isError := by
  induction completions using List.reverseRecOn with
  | nil => exact ⟨rfl, rfl, rfl⟩
  | append_singleton completions completion ih =>
    obtain ⟨hlen, hdone, herror⟩ := ih
    rw [run_concat, countP_append]
    cases completion with
    | done =>
      -- A success counts only as long as there is no error.
      rw [Batch.complete, Batch.onDone, length_takeWhile_concat_done, ← herror]
      split
      · rename_i hzero
        have hall := (countP_isError_eq_zero completions).mp (herror ▸ hzero)
        dsimp only
        split <;> simp [hlen, hdone, hall]
      · exact ⟨hlen, hdone, by simp⟩
    | error e =>
      rw [Batch.complete, Batch.onError, length_takeWhile_concat_error]
      dsimp only
      split <;> simp [hlen, hdone, herror]

theorem counted_run (n : ℕ) (completions : List (Completion ε)) :
    ((Batch.start n).run completions).doneCounter + ((Batch.start n).run completions).errorCounter =
      counted completions := by
  obtain ⟨-, hdone, herror⟩ := counters_run n completions
  rw [hdone, herror, counted]

/-- Nobody is called before the last completion. -/
theorem called_eq_nil (h : completions.length < n) :
    ((Batch.start n).run completions).called = [] := by
  induction completions using List.reverseRecOn with
  | nil => rfl
  | append_singleton completions completion ih =>
    rw [length_append, length_singleton] at h
    have ih := ih (by omega)
    obtain ⟨hlen, -, -⟩ := counters_run n completions
    have hcounted := counted_run n completions
    have hle := counted_le_length completions
    rw [run_concat]
    cases completion with
    | done =>
      rw [Batch.complete, Batch.onDone]
      split
      · dsimp only
        rw [if_neg (by omega)]
        exact ih
      · exact ih
    | error e =>
      rw [Batch.complete, Batch.onError]
      dsimp only
      rw [if_neg (by omega)]
      exact ih

/-- Who is called behind the last completion, if that is a success. -/
theorem called_done (completions : List (Completion ε)) :
    ((Batch.start (completions.length + 1)).run (completions ++ [.done])).called =
      if completions.countP Completion.isError = 0 then [.done] else [] := by
  obtain ⟨hlen, hdone, herror⟩ := counters_run (completions.length + 1) completions
  have hnone := called_eq_nil (Nat.lt_succ_self completions.length)
  rw [run_concat, Batch.complete, Batch.onDone, herror]
  split
  · rename_i hzero
    have hall := (countP_isError_eq_zero completions).mp hzero
    dsimp only
    rw [if_pos (by omega), hnone]
    rfl
  · exact hnone

theorem called_error (e : ε) (completions : List (Completion ε)) :
    ((Batch.start (completions.length + 1)).run (completions ++ [.error e])).called =
      if counted completions = completions.length then [.error e] else [] := by
  obtain ⟨hlen, -, -⟩ := counters_run (completions.length + 1) completions
  have hcounted := counted_run (completions.length + 1) completions
  have hnone := called_eq_nil (Nat.lt_succ_self completions.length)
  rw [run_concat, Batch.complete, Batch.onError]
  dsimp only
  split
  · rw [if_pos (by omega), hnone]
    rfl
  · rw [if_neg (by omega)]
    exact hnone

end Counters

/-- The last completion of a batch that is not empty decides. -/
theorem aggregates_start {ε : Type} (first : Completion ε) (rest : List (Completion ε)) :
    Aggregates (.start (rest.length + 1)) (first :: rest) ↔ DonesFirst (first :: rest) := by
  obtain ⟨front, last, hsplit⟩ := (eq_nil_or_concat' (first :: rest)).resolve_left (by simp)
  have hlen : rest.length = front.length := by simpa using congrArg List.length hsplit
  rw [hsplit, hlen]
  -- Nothing is called before the last completion.
  have hearly (before back : List (Completion ε)) (h : front ++ [last] = before ++ back)
      (hback : back ≠ []) : ((Batch.start (front.length + 1)).run before).called = [] := by
    have hcount := congrArg List.length h
    have hpos := length_pos_iff.mpr hback
    simp only [length_append, length_singleton] at hcount
    exact called_eq_nil (by omega)
  unfold Aggregates
  rw [and_iff_right hearly, ← counted_eq_length, length_append, length_singleton]
  cases last with
  | done =>
    have hle := counted_le_length front
    rw [called_done, counted, length_takeWhile_concat_done, countP_append]
    by_cases hzero : front.countP Completion.isError = 0
    · rw [if_pos hzero, if_pos hzero]
      refine ⟨fun _ => by simp [hzero], fun _ => ⟨.done, rfl, ?_⟩⟩
      have hnone := countP_eq_zero.mp hzero
      simp only [Completion.isDone_done, true_iff]
      intro completion hmem
      rcases mem_append.mp hmem with hmem | hmem
      · cases completion with
        | done => rfl
        | error e => exact absurd rfl (hnone _ hmem)
      · rw [mem_singleton.mp hmem]
        rfl
    · rw [if_neg hzero, if_neg hzero]
      unfold counted at hle
      -- An error in front stops the count short of the end.
      refine ⟨fun ⟨call, hcall, _⟩ => (by cases hcall), fun hall => ?_⟩
      simp at hall
      omega
  | error e =>
    have hcounted : counted (front ++ [.error e]) = counted front + 1 := by
      unfold counted
      rw [length_takeWhile_concat_error, countP_append, countP_cons_of_pos rfl]
      rfl
    rw [called_error, hcounted, Nat.succ_inj]
    constructor
    · rintro ⟨call, hcall, -⟩
      split at hcall
      · assumption
      · cases hcall
    · intro hall
      rw [if_pos hall]
      refine ⟨.error e, rfl, ?_⟩
      simp only [Completion.isDone_error, Bool.false_eq_true, false_iff]
      exact fun h => absurd (h _ (mem_append_right _ mem_cons_self)) (by simp)

/-- The caller of a batch that is not empty hears once of it, and rightly, just when no success
comes behind an error. -/
theorem aggregates_iff {ε : Type} (byte : Uint8List) (bytes : List Uint8List)
    (completions : List (Completion ε)) (hcount : completions.length = (byte :: bytes).length) :
    (Aggregates (TransportClientConnection.writeMany (byte :: bytes)) completions ↔
        DonesFirst completions) ∧
      (Aggregates (TransportDatagramClient.sendMany (byte :: bytes)) completions ↔
        DonesFirst completions) ∧
      (Aggregates (TransportServerConnection.writeMany (byte :: bytes)) completions ↔
        DonesFirst completions) ∧
      (Aggregates (TransportServerDatagramResponder.respondMany (byte :: bytes)) completions ↔
        DonesFirst completions) := by
  have h : Aggregates (.start (byte :: bytes).length) completions ↔ DonesFirst completions := by
    cases completions with
    | nil => cases hcount
    | cons first rest =>
      rw [← hcount]
      exact aggregates_start first rest
  exact ⟨h, h, h, h⟩

theorem aggregates_iff_two :
    Aggregates (TransportClientConnection.writeMany [[1], [2]]) [.done, .error "reset"] :=
  (aggregates_iff [1] [[2]] [.done, .error "reset"] rfl).1.mpr (by decide)

/-- An error and then a success: the caller is never called. -/
theorem aggregates_false :
    ¬Aggregates (TransportClientConnection.writeMany [[1], [2]]) [.error "reset", .done] := by
  rintro ⟨-, call, hcall, -⟩
  cases hcall

end FengShui.Transport
