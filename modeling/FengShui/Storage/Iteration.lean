import FengShui.Storage.Box
import Mathlib.Data.List.TakeDrop

/-!
# The calls of an iterator (`storage_iterator_next_single`, `storage_iterator_next_many`)

The end of an iterator and a failure are the same to the handlers: a request for more tuples than
there are is answered with an error, and the tuples that were taken for it are lost. The counter of
`storage_iterator_next_many` has 32 bits, and never reaches an input size that has more. The calls
of an iterator give its tuples one behind the other if and only if none of them asks for more than
there is (`iterated_iff`).
-/

namespace FengShui.Storage

variable {Database Tuple : Type} [DecidableEq Tuple]

/-! ## The loop -/

/-- The loop of `storage_iterator_next_many`, with `uint32_t found`, for so many rounds; without a
result where it goes on behind them. -/
def nextRounds (box : Box Database Tuple) (iterator inputSize : ℕ) :
    (rounds found : ℕ) → List Tuple → Handler Database Tuple
  | 0, _, _, _ => none
  | rounds + 1, found, entries, native =>
    if found < inputSize then
      match box.call (.iteratorNext iterator) native.database with
      | (.tuple tuple, database) =>
        if box.portAddFails entries then
          some (.error, { native with database := database }.unref entries)
        else nextRounds box iterator inputSize rounds ((found + 1) % 2 ^ 32) (entries ++ [tuple])
          ({ native with database := database }.ref [tuple])
      | (_, database) => some (.error, { native with database := database }.unref entries)
    else some (.port entries, native)

/-- A call of `StorageIterator`. -/
inductive IteratorCall where
  | nextSingle
  | nextMany (count : ℕ)

namespace IteratorCall

/-- How many tuples are asked for. -/
def count : IteratorCall → ℕ
  | nextSingle => 1
  | nextMany count => count

/-- The handler of a call is over, with this reply. -/
def Replies (box : Box Database Tuple) (iterator : ℕ) (native : Native Database Tuple)
    (reply : Reply Tuple) (after : Native Database Tuple) : IteratorCall → Prop
  | nextSingle => storageIteratorNextSingle box iterator native = some (reply, after)
  | nextMany count =>
    ∃ rounds, nextRounds box iterator count rounds 0 [] native = some (reply, after)

end IteratorCall

/-- The tuples of an answer, unless it is an error. -/
def Reply.tuples : Reply Tuple → Option (List Tuple)
  | .error => none
  | .unchanged | .number _ | .buffer _ => some []
  | .tuple result => some [result]
  | .port entries => some entries

/-- The answers to calls of an iterator, one behind the other. -/
inductive Answers (box : Box Database Tuple) (iterator : ℕ) :
    List IteratorCall → Native Database Tuple → List (Option (List Tuple)) → Prop
  | nil {native : Native Database Tuple} : Answers box iterator [] native []
  | cons {call : IteratorCall} {calls : List IteratorCall} {native after : Native Database Tuple}
      {reply : Reply Tuple} {answers : List (Option (List Tuple))}
      (hreplies : call.Replies box iterator native reply after)
      (hanswers : Answers box iterator calls after answers) :
    Answers box iterator (call :: calls) native (reply.tuples :: answers)

/-! ## What an iterator is for -/

/-- A list in pieces of the sizes of calls, of which the last may be shorter or empty. -/
def pieces : List IteratorCall → List Tuple → List (List Tuple)
  | [], _ => []
  | call :: calls, tuples => tuples.take call.count :: pieces calls (tuples.drop call.count)

/-- What `box_iterator_next` does: it gives the next of the remaining tuples, and `NULL` at their
end. -/
structure Iterates (box : Box Database Tuple) (iterator : ℕ)
    (Remaining : List Tuple → Database → Prop) :
    Prop where
  next : ∀ tuple tuples database, Remaining (tuple :: tuples) database →
    ∃ after, box.call (.iteratorNext iterator) database = (.tuple tuple, after) ∧
      Remaining tuples after
  ends : ∀ database, Remaining [] database →
    ∃ after, box.call (.iteratorNext iterator) database = (.null, after) ∧ Remaining [] after

/-- The calls are answered with the remaining tuples in pieces, and none with an error. -/
def Iterated (box : Box Database Tuple) (iterator : ℕ) (calls : List IteratorCall)
    (native : Native Database Tuple) (tuples : List Tuple) : Prop :=
  Answers box iterator calls native ((pieces calls tuples).map some)

/-- There are so many tuples, and a port with these entries has memory for them. -/
def HasRoom (box : Box Database Tuple) (entries : List Tuple) (count : ℕ)
    (tuples : List Tuple) : Prop :=
  count ≤ tuples.length ∧ ∀ taken < count, box.portAddFails (entries ++ tuples.take taken) = false

/-- A call asks for no more than there is, and for less than the counter has. -/
def IteratorCall.Fits (box : Box Database Tuple) (tuples : List Tuple) : IteratorCall → Prop
  | nextSingle => 1 ≤ tuples.length
  | nextMany count => count < 2 ^ 32 ∧ HasRoom box [] count tuples

/-- No call goes beyond the end of the iterator. -/
def AllFit (box : Box Database Tuple) : List IteratorCall → List Tuple → Prop
  | [], _ => True
  | call :: calls, tuples => call.Fits box tuples ∧ AllFit box calls (tuples.drop call.count)

/-! ## Rounds -/

section Rounds

variable {box : Box Database Tuple} {iterator inputSize rounds found : ℕ} {entries : List Tuple}
  {native after : Native Database Tuple} {reply : Reply Tuple}

/-- A result stays what it is. -/
theorem nextRounds_mono {more : ℕ} (hle : rounds ≤ more)
    (h : nextRounds box iterator inputSize rounds found entries native = some (reply, after)) :
    nextRounds box iterator inputSize more found entries native = some (reply, after) := by
  induction rounds generalizing more found entries native with
  | zero => cases h
  | succ rounds ih =>
    obtain ⟨more, rfl⟩ : ∃ fewer, more = fewer + 1 := ⟨more - 1, by omega⟩
    unfold nextRounds at h ⊢
    by_cases hfound : found < inputSize
    · rw [if_pos hfound] at h ⊢
      rcases hcall : box.call (.iteratorNext iterator) native.database with ⟨result, database⟩
      rw [hcall] at h
      cases result with
      | error | null => exact h
      | tuple tuple =>
        dsimp only at h ⊢
        by_cases hfull : box.portAddFails entries = true
        · rw [if_pos hfull] at h ⊢
          exact h
        · rw [if_neg hfull] at h ⊢
          exact ih (Nat.le_of_succ_le_succ hle) h
    · rw [if_neg hfound] at h ⊢
      exact h

/-- An input size that the counter reaches: the loop is the one that counts down. -/
theorem nextRounds_eq {missing : ℕ} (hcounter : inputSize < 2 ^ 32)
    (hmissing : found + missing = inputSize)
    (entries : List Tuple) (native : Native Database Tuple) :
    nextRounds box iterator inputSize (missing + 1) found entries native =
      nextLoop box iterator missing entries native := by
  induction missing generalizing found entries native with
  | zero =>
    unfold nextRounds nextLoop
    rw [if_neg (by omega)]
  | succ missing ih =>
    have hnext : (found + 1) % 2 ^ 32 = found + 1 := Nat.mod_eq_of_lt (by omega)
    unfold nextRounds nextLoop
    rw [if_pos (by omega), hnext]
    rcases box.call (.iteratorNext iterator) native.database with ⟨result, database⟩
    cases result with
    | error | null => rfl
    | tuple tuple =>
      dsimp only
      rw [ih (by omega)]

end Rounds

/-! ## Calls -/

section Calls

variable {box : Box Database Tuple} {iterator : ℕ} {Remaining : List Tuple → Database → Prop}
  {tuples entries : List Tuple} {native after : Native Database Tuple} {reply : Reply Tuple}
  {call : IteratorCall}

omit [DecidableEq Tuple] in
theorem hasRoom_cons {count : ℕ} {tuple : Tuple} :
    HasRoom box entries (count + 1) (tuple :: tuples) ↔
      box.portAddFails entries = false ∧ HasRoom box (entries ++ [tuple]) count tuples := by
  unfold HasRoom
  constructor
  · rintro ⟨hcount, hroom⟩
    refine ⟨?_, Nat.le_of_succ_le_succ hcount, fun taken htaken => ?_⟩
    · have hfirst := hroom 0 (Nat.succ_pos count)
      rwa [List.take_zero, List.append_nil] at hfirst
    · have hnext := hroom (taken + 1) (Nat.succ_lt_succ htaken)
      rwa [List.take_succ_cons, List.append_cons] at hnext
  · rintro ⟨hfirst, hcount, hroom⟩
    refine ⟨Nat.succ_le_succ hcount, fun taken htaken => ?_⟩
    cases taken with
    | zero => rwa [List.take_zero, List.append_nil]
    | succ taken =>
      rw [List.take_succ_cons, List.append_cons]
      exact hroom taken (Nat.lt_of_succ_lt_succ htaken)

/-- The loop gives so many tuples, by induction on how many. -/
theorem nextLoop_of_iterates (hiterates : Iterates box iterator Remaining) {count : ℕ}
    (hrem : Remaining tuples native.database) :
    ∃ reply after, nextLoop box iterator count entries native = some (reply, after) ∧
      (HasRoom box entries count tuples ∧ reply = .port (entries ++ tuples.take count) ∧
          Remaining (tuples.drop count) after.database ∨
        ¬HasRoom box entries count tuples ∧ reply = .error) := by
  induction count generalizing tuples entries native with
  | zero =>
    refine ⟨.port entries, native, rfl, .inl ⟨⟨Nat.zero_le _, ?_⟩, ?_, hrem⟩⟩
    · exact fun taken htaken => absurd htaken (Nat.not_lt_zero taken)
    · rw [List.take_zero, List.append_nil]
  | succ count ih =>
    unfold nextLoop
    cases tuples with
    | nil =>
      obtain ⟨ended, hcall, -⟩ := hiterates.ends native.database hrem
      rw [hcall]
      refine ⟨.error, _, rfl, .inr ⟨?_, rfl⟩⟩
      exact fun hroom => absurd hroom.1 (Nat.not_succ_le_zero count)
    | cons tuple tuples =>
      obtain ⟨later, hcall, hlater⟩ := hiterates.next tuple tuples native.database hrem
      rw [hcall, hasRoom_cons]
      dsimp only
      by_cases hfull : box.portAddFails entries = true
      · rw [if_pos hfull]
        refine ⟨.error, _, rfl, .inr ⟨?_, rfl⟩⟩
        exact fun hroom => Bool.false_ne_true (hroom.1.symm.trans hfull)
      · have hcons : entries ++ tuple :: tuples.take count =
          entries ++ [tuple] ++ tuples.take count :=
          List.append_cons ..
        rw [if_neg hfull, List.take_succ_cons, hcons]
        have hfits := Bool.eq_false_of_not_eq_true hfull
        have hnext : Remaining tuples (({ native with database := later }).ref [tuple]).database :=
          hlater
        obtain ⟨reply, after, hloop, hres⟩ := @ih _ (entries ++ [tuple]) _ hnext
        refine ⟨reply, after, hloop, ?_⟩
        rcases hres with ⟨hroom, hreply, hbehind⟩ | ⟨hroom, hreply⟩
        · exact .inl ⟨⟨hfits, hroom⟩, hreply, hbehind⟩
        · exact .inr ⟨fun h => hroom h.2, hreply⟩

/-- The counter never reaches an input size from 2 ^ 32 on: the loop ends with the iterator. -/
theorem nextRounds_of_large (hiterates : Iterates box iterator Remaining) {inputSize found : ℕ}
    (hlarge : 2 ^ 32 ≤ inputSize) (hfound : found < 2 ^ 32)
    (hrem : Remaining tuples native.database) :
    ∃ after, nextRounds box iterator inputSize (tuples.length + 1) found entries native =
      some (.error, after) := by
  induction tuples generalizing found entries native with
  | nil =>
    obtain ⟨ended, hcall, -⟩ := hiterates.ends native.database hrem
    unfold nextRounds
    rw [if_pos (by omega), hcall]
    exact ⟨_, rfl⟩
  | cons tuple tuples ih =>
    obtain ⟨later, hcall, hlater⟩ := hiterates.next tuple tuples native.database hrem
    unfold nextRounds
    rw [if_pos (by omega), hcall]
    dsimp only
    by_cases hfull : box.portAddFails entries = true
    · rw [if_pos hfull]
      exact ⟨_, rfl⟩
    · rw [if_neg hfull]
      exact ih (Nat.mod_lt _ (by decide)) hlater

/-- A call has one answer. -/
theorem IteratorCall.replies_unique {other : Reply Tuple} {later : Native Database Tuple}
    (h : call.Replies box iterator native reply after)
    (hother : call.Replies box iterator native other later) : reply = other ∧ after = later := by
  have hpair {result : Option (Reply Tuple × Native Database Tuple)}
    (h : result = some (reply, after))
      (hother : result = some (other, later)) : reply = other ∧ after = later :=
    Prod.mk.inj (Option.some.inj (h.symm.trans hother))
  cases call with
  | nextSingle => exact hpair h hother
  | nextMany count =>
    obtain ⟨rounds, hrounds⟩ := h
    obtain ⟨more, hmore⟩ := hother
    exact hpair (nextRounds_mono (Nat.le_max_left rounds more) hrounds)
      (nextRounds_mono (Nat.le_max_right rounds more) hmore)

/-- A call is answered: with the next tuples where it fits, and with an error otherwise. -/
theorem IteratorCall.replies_of_iterates (hiterates : Iterates box iterator Remaining)
    (hrem : Remaining tuples native.database) (call : IteratorCall) :
    ∃ reply after, call.Replies box iterator native reply after ∧
      (call.Fits box tuples ∧ reply.tuples = some (tuples.take call.count) ∧
          Remaining (tuples.drop call.count) after.database ∨
        ¬call.Fits box tuples ∧ reply.tuples = none) := by
  cases call with
  | nextSingle =>
    unfold Replies storageIteratorNextSingle
    cases tuples with
    | nil =>
      obtain ⟨ended, hcall, -⟩ := hiterates.ends native.database hrem
      rw [hcall]
      exact ⟨.error, _, rfl, .inr ⟨Nat.not_succ_le_zero 0, rfl⟩⟩
    | cons tuple tuples =>
      obtain ⟨later, hcall, hlater⟩ := hiterates.next tuple tuples native.database hrem
      rw [hcall]
      exact ⟨.tuple tuple, _, rfl, .inl ⟨Nat.succ_le_succ (Nat.zero_le _), rfl, hlater⟩⟩
  | nextMany count =>
    by_cases hcounter : count < 2 ^ 32
    · obtain ⟨reply, after, hloop, hres⟩ :=
        @nextLoop_of_iterates _ _ _ box iterator Remaining tuples [] native hiterates count hrem
      have hrounds : nextRounds box iterator count (count + 1) 0 [] native = some (reply, after) :=
        (nextRounds_eq hcounter (Nat.zero_add count) [] native).trans hloop
      refine ⟨reply, after, ⟨count + 1, hrounds⟩, ?_⟩
      rcases hres with ⟨hroom, rfl, hbehind⟩ | ⟨hroom, rfl⟩
      · exact .inl ⟨⟨hcounter, hroom⟩, rfl, hbehind⟩
      · exact .inr ⟨fun hfits => hroom hfits.2, rfl⟩
    · obtain ⟨after, hrounds⟩ := @nextRounds_of_large _ _ _ box iterator Remaining tuples [] native
        hiterates count 0 (Nat.le_of_not_lt hcounter) (by decide) hrem
      exact ⟨.error, after, ⟨_, hrounds⟩, .inr ⟨fun hfits => hcounter hfits.1, rfl⟩⟩

end Calls

/-! ## Runs -/

/-- Calls of an iterator, in any order and of any sizes, give the remaining tuples in pieces, every
one once and none of them an error, if and only if no call asks for more than there is or than the
counter has, and the ports have memory. -/
theorem iterated_iff (box : Box Database Tuple) (iterator : ℕ)
    (Remaining : List Tuple → Database → Prop) (hiterates : Iterates box iterator Remaining)
    (calls : List IteratorCall) (native : Native Database Tuple) (tuples : List Tuple)
    (hremaining : Remaining tuples native.database) :
    Iterated box iterator calls native tuples ↔ AllFit box calls tuples := by
  unfold Iterated
  induction calls generalizing native tuples with
  | nil => exact iff_of_true .nil trivial
  | cons call calls ih =>
    obtain ⟨reply, after, hreplies, hresult⟩ := call.replies_of_iterates hiterates hremaining
    rw [pieces, AllFit, List.map_cons]
    constructor
    · intro hanswers
      generalize hfirst : some (tuples.take call.count) = first at hanswers
      cases hanswers with
      | cons hother hrest =>
        obtain ⟨rfl, rfl⟩ := IteratorCall.replies_unique hreplies hother
        rcases hresult with ⟨hfits, -, hbehind⟩ | ⟨-, herror⟩
        · exact ⟨hfits, (ih _ _ hbehind).mp hrest⟩
        · exact absurd (hfirst.trans herror) (Option.some_ne_none _)
    · rintro ⟨hfits, hrest⟩
      rcases hresult with ⟨-, htuples, hbehind⟩ | ⟨hnot, -⟩
      · rw [← htuples]
        exact .cons hreplies ((ih _ _ hbehind).mpr hrest)
      · exact absurd hfits hnot

/-- A database that is what its iterator still has. -/
def listed : Box (List ℕ) ℕ where
  call call tuples :=
    match call, tuples with
    | .iteratorNext _, [] => (.null, [])
    | .iteratorNext _, tuple :: tuples => (.tuple tuple, tuples)
    | _, tuples => (.error, tuples)
  query _ _ := 0
  select _ _ := none
  lua _ tuples := (none, tuples)
  truncate _ tuples := tuples
  iteratorFree _ tuples := tuples
  portAddFails _ := false
  commitFails _ := false

theorem iterates_listed (iterator : ℕ) :
    Iterates listed iterator (fun tuples database => database = tuples) where
  next := by
    rintro tuple tuples _ rfl
    exact ⟨tuples, rfl, rfl⟩
  ends := by
    rintro _ rfl
    exact ⟨[], rfl, rfl⟩

/-- Three tuples, by two calls. -/
theorem iterated_iff_listed :
    Iterated listed 5 [.nextMany 2, .nextSingle] ⟨[7, 8, 9], fun _ => 0⟩ [7, 8, 9] ↔
      AllFit listed [.nextMany 2, .nextSingle] [7, 8, 9] :=
  iterated_iff listed 5 _ (iterates_listed 5) _ _ _ rfl

/-- One tuple, of which two are asked for: the answer is an error, and the tuple is lost. -/
theorem not_iterated : ¬∀ (calls : List IteratorCall) (tuples : List ℕ),
    Iterated listed 5 calls ⟨tuples, fun _ => 0⟩ tuples := by
  intro hall
  have hiterated := hall [.nextMany 2] [7]
  obtain ⟨reply, after, hreplies, hresult⟩ := @IteratorCall.replies_of_iterates _ _ _ listed 5 _ [7]
    ⟨[7], fun _ => 0⟩ (iterates_listed 5) rfl (.nextMany 2)
  have hnot : ¬(IteratorCall.nextMany 2).Fits listed [7] := fun hfits =>
    absurd hfits.2.1 (by decide)
  unfold Iterated at hiterated
  generalize hpieces : (pieces [.nextMany 2] [7]).map some = answers at hiterated
  cases hiterated with
  | cons hother _ =>
    obtain ⟨rfl, -⟩ := IteratorCall.replies_unique hreplies hother
    rcases hresult with ⟨hfits, -⟩ | ⟨-, herror⟩
    · exact hnot hfits
    · rw [herror] at hpieces
      cases hpieces

end FengShui.Storage
