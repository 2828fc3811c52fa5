import FengShui.Lib.Effect
import FengShui.Lib.While
import Mathlib.Tactic.Ring

/-!
# Times of seconds and nanoseconds (`core/native/time/time.h`)

The macros work on the fields of a `struct timespec`, which are signed numbers of 64 bits; C has no
meaning for a sum of them that does not fit. `time_normalize` brings the nanoseconds between 0 and a
second, in one loop for large values, another for negative ones, and a correction behind them. What
it comes to depends on the total number of nanoseconds alone (`computes_timeNormalize`), and so do
`time_add` and `time_sub` (`computes_timeCombine`).
-/

namespace FengShui.Time

open FengShui.While

/-- `NANOSECONDS_PER_SECOND`. -/
def nanosecondsPerSecond : ℤ := 1000000000

/-- `struct timespec`. -/
structure Timespec where
  tv_sec : Int64
  tv_nsec : Int64
  deriving DecidableEq, Repr

/-- What C leaves undefined. -/
inductive Undefined where
  | overflow
  deriving DecidableEq, Repr

/-- It is a signed number of 64 bits. -/
def Fits (value : ℤ) : Prop := -2 ^ 63 ≤ value ∧ value < 2 ^ 63

instance (value : ℤ) : Decidable (Fits value) := inferInstanceAs (Decidable (_ ∧ _))

/-- The result of an operation on signed numbers. -/
def checked (value : ℤ) : Except Undefined Int64 :=
  if Fits value then .ok (.ofInt value) else .error .overflow

/-! ## The macros -/

/-- The body of the first loop of `time_normalize`. -/
def carry (time : Timespec) : Except Undefined Timespec := do
  let sec ← checked (time.tv_sec.toInt + 1)
  let nsec ← checked (time.tv_nsec.toInt - nanosecondsPerSecond)
  return ⟨sec, nsec⟩

/-- The body of the second loop. -/
def borrow (time : Timespec) : Except Undefined Timespec := do
  let sec ← checked (time.tv_sec.toInt - 1)
  let nsec ← checked (time.tv_nsec.toInt + nanosecondsPerSecond)
  return ⟨sec, nsec⟩

/-- What stands behind the loops. -/
def correct (time : Timespec) : Except Undefined Timespec := do
  if time.tv_nsec.toInt < 0 then
    let sec ← checked (time.tv_sec.toInt - 1)
    let nsec ← checked (nanosecondsPerSecond + time.tv_nsec.toInt)
    return ⟨sec, nsec⟩
  else return time

/-- `time_normalize`: its value, and what it leaves in its argument. -/
def timeNormalize (time : Timespec) : Fueled Undefined Timespec := do
  let time ← whileDo (fun time => nanosecondsPerSecond ≤ time.tv_nsec.toInt) carry time
  let time ← whileDo (fun time => time.tv_nsec.toInt ≤ -nanosecondsPerSecond) borrow time
  exactly (correct time)

/-- `time_add` and `time_sub`: the value, which is left in `result`, and what is left in the other
argument. -/
def timeCombine (operation : ℤ → ℤ → ℤ) (result operand : Timespec) :
    Fueled Undefined (Timespec × Timespec) := do
  let result ← timeNormalize result
  let operand ← timeNormalize operand
  let sec ← exactly (checked (operation result.tv_sec.toInt operand.tv_sec.toInt))
  let nsec ← exactly (checked (operation result.tv_nsec.toInt operand.tv_nsec.toInt))
  let result ← timeNormalize ⟨sec, nsec⟩
  return (result, operand)

/-- `time_add`. -/
def timeAdd (result adding : Timespec) : Fueled Undefined (Timespec × Timespec) :=
  timeCombine (fun sum added => sum + added) result adding

/-- `time_sub`. -/
def timeSub (result subtracting : Timespec) : Fueled Undefined (Timespec × Timespec) :=
  timeCombine (fun difference subtracted => difference - subtracted) result subtracting

/-! ## Totals -/

namespace Timespec

/-- The time in nanoseconds. -/
def total (time : Timespec) : ℤ := time.tv_sec.toInt * nanosecondsPerSecond + time.tv_nsec.toInt

/-- The nanoseconds are less than a second. -/
def Normalized (time : Timespec) : Prop :=
  0 ≤ time.tv_nsec.toInt ∧ time.tv_nsec.toInt < nanosecondsPerSecond

instance (time : Timespec) : Decidable time.Normalized := inferInstanceAs (Decidable (_ ∧ _))

end Timespec

/-- The normalized time of so many nanoseconds. -/
def ofTotal (nanoseconds : ℤ) : Except Undefined Timespec := do
  let sec ← checked (nanoseconds / nanosecondsPerSecond)
  return ⟨sec, .ofInt (nanoseconds % nanosecondsPerSecond)⟩

/-! ## Checked numbers -/

theorem fits_toInt (word : Int64) : Fits word.toInt := ⟨word.le_toInt, word.toInt_lt⟩

variable {value : ℤ}

theorem toInt_ofInt (h : Fits value) : (Int64.ofInt value).toInt = value :=
  Int64.toInt_ofInt_of_le h.1 h.2

theorem checked_of_fits (h : Fits value) : checked value = .ok (.ofInt value) := if_pos h

theorem checked_of_not (h : ¬Fits value) : checked value = .error .overflow := if_neg h

theorem checked_toInt (word : Int64) : checked word.toInt = .ok word := by
  rw [checked_of_fits (fits_toInt word), Int64.ofInt_toInt]

theorem checked_eq_ok {word : Int64} : checked value = .ok word ↔ word.toInt = value := by
  constructor
  · intro h
    unfold checked at h
    split_ifs at h with hfits
    rw [← Except.ok.inj h, toInt_ofInt hfits]
  · rintro rfl
    exact checked_toInt word

/-! ## Seconds moved between the fields -/

/-- So many seconds are added, and their nanoseconds taken away. -/
def shift (seconds : ℤ) (time : Timespec) : Except Undefined Timespec := do
  let sec ← checked (time.tv_sec.toInt + seconds)
  let nsec ← checked (time.tv_nsec.toInt - seconds * nanosecondsPerSecond)
  return ⟨sec, nsec⟩

section Shift

variable {time next : Timespec} {seconds rest : ℤ}

theorem shift_zero (time : Timespec) : shift 0 time = .ok time := by
  unfold shift
  rw [Int.add_zero, Int.zero_mul, Int.sub_zero, checked_toInt, checked_toInt]
  rfl

theorem shift_eq_ok : shift seconds time = .ok next ↔
    next.tv_sec.toInt = time.tv_sec.toInt + seconds ∧
      next.tv_nsec.toInt = time.tv_nsec.toInt - seconds * nanosecondsPerSecond := by
  rw [← checked_eq_ok, ← checked_eq_ok]
  constructor
  · intro h
    obtain ⟨sec, hsec, h⟩ := except_bind_eq_ok.mp h
    obtain ⟨nsec, hnsec, h⟩ := except_bind_eq_ok.mp h
    obtain rfl := Except.ok.inj h
    exact ⟨hsec, hnsec⟩
  · rintro ⟨hsec, hnsec⟩
    exact except_bind_eq_ok.mpr ⟨next.tv_sec, hsec,
      except_bind_eq_ok.mpr ⟨next.tv_nsec, hnsec, rfl⟩⟩

/-- Shifts in one direction add up, since the first one overflows only where both do. -/
theorem shift_bind {move : Timespec → Except Undefined Timespec}
    (hfits : Fits (time.tv_nsec.toInt - seconds * nanosecondsPerSecond))
    (hmove : ∀ next, next.tv_nsec.toInt = time.tv_nsec.toInt - seconds * nanosecondsPerSecond →
      move next = shift rest next) (hsign : 0 ≤ seconds ∧ 0 ≤ rest ∨ seconds ≤ 0 ∧ rest ≤ 0) :
    shift seconds time >>= move = shift (seconds + rest) time := by
  have hsecond := fits_toInt time.tv_sec
  by_cases hsec : Fits (time.tv_sec.toInt + seconds)
  · obtain ⟨next, hfirst⟩ : ∃ next, shift seconds time = .ok next :=
      ⟨⟨.ofInt (time.tv_sec.toInt + seconds),
        .ofInt (time.tv_nsec.toInt - seconds * nanosecondsPerSecond)⟩,
        shift_eq_ok.mpr ⟨toInt_ofInt hsec, toInt_ofInt hfits⟩⟩
    obtain ⟨hsum, hdiff⟩ := shift_eq_ok.mp hfirst
    rw [hfirst]
    show move next = _
    rw [hmove next hdiff]
    unfold shift
    rw [hsum, hdiff, Int.add_assoc, Int.add_mul, Int.sub_sub]
  · -- Further seconds in the same direction do not bring the sum back.
    have hboth : ¬Fits (time.tv_sec.toInt + (seconds + rest)) := by
      unfold Fits at hsec hsecond ⊢
      omega
    unfold shift
    rw [checked_of_not hsec, checked_of_not hboth]
    rfl

/-- A round of the first loop. -/
theorem carry_eq (time : Timespec) : carry time = shift 1 time := by
  unfold carry shift
  rw [Int.one_mul]

/-- A round of the second loop. -/
theorem borrow_eq (time : Timespec) : borrow time = shift (-1) time := by
  unfold borrow shift
  rw [Int.neg_one_mul, Int.sub_neg, Int.sub_eq_add_neg]

theorem correct_eq (time : Timespec) :
    correct time = shift (if time.tv_nsec.toInt < 0 then -1 else 0) time := by
  unfold correct
  split_ifs
  · unfold shift
    rw [Int.neg_one_mul, Int.sub_neg, Int.sub_eq_add_neg, Int.add_comm nanosecondsPerSecond]
  · exact (shift_zero time).symm

end Shift

/-! ## The loops -/

/-- A loop of shifts in one direction comes to one shift. -/
theorem solves_shifts {guard : Timespec → Prop} {body : Timespec → Except Undefined Timespec}
    (seconds : ℤ → ℤ) (step : ℤ) (hbody : ∀ time, body time = shift step time)
    (hexit : ∀ time, ¬guard time → seconds time.tv_nsec.toInt = 0)
    (hround : ∀ time rest, guard time → rest = time.tv_nsec.toInt - step * nanosecondsPerSecond →
      Fits rest ∧ rest.natAbs < time.tv_nsec.toInt.natAbs ∧
        seconds time.tv_nsec.toInt = step + seconds rest ∧
        (0 ≤ step ∧ 0 ≤ seconds rest ∨ step ≤ 0 ∧ seconds rest ≤ 0)) :
    Solves guard body (fun time => time.tv_nsec.toInt.natAbs)
      (fun time => shift (seconds time.tv_nsec.toInt) time) where
  exit time h := by rw [hexit time h, shift_zero]
  round time h := by
    obtain ⟨hfits, -, hseconds, hsign⟩ := hround time _ h rfl
    rw [hbody, hseconds]
    apply shift_bind hfits _ hsign
    intro next hnext
    rw [hnext]
  less time next h hnext := by
    obtain ⟨-, hless, -, -⟩ := hround time _ h rfl
    rw [hbody, shift_eq_ok] at hnext
    rw [hnext.2]
    exact hless

/-- The first loop shifts by its whole seconds. -/
theorem computes_carry (time : Timespec) :
    Computes (whileDo (fun time => nanosecondsPerSecond ≤ time.tv_nsec.toInt) carry time)
      (shift (max 0 (time.tv_nsec.toInt / nanosecondsPerSecond)) time) := by
  apply (solves_shifts (fun nsec => max 0 (nsec / nanosecondsPerSecond)) 1 carry_eq _ _).computes
    time
  · intro time hexit
    unfold nanosecondsPerSecond at hexit ⊢
    omega
  · rintro time rest hround rfl
    have hbounds := fits_toInt time.tv_nsec
    unfold Fits nanosecondsPerSecond at *
    omega

/-- The second loop stops in front of the second that is not whole. -/
theorem computes_borrow (time : Timespec) :
    Computes (whileDo (fun time => time.tv_nsec.toInt ≤ -nanosecondsPerSecond) borrow time)
      (shift (min 0 (-(-time.tv_nsec.toInt / nanosecondsPerSecond))) time) := by
  apply (solves_shifts (fun nsec => min 0 (-(-nsec / nanosecondsPerSecond)))
    (-1) borrow_eq _ _).computes time
  · intro time hexit
    unfold nanosecondsPerSecond at hexit ⊢
    omega
  · rintro time rest hround rfl
    have hbounds := fits_toInt time.tv_nsec
    unfold Fits nanosecondsPerSecond at *
    omega

/-- What the first loop leaves is either in range, or was negative. -/
theorem bind_carried (time : Timespec) {move : Timespec → Except Undefined Timespec}
    (hmove : ∀ next, move next = shift (min 0 (next.tv_nsec.toInt / nanosecondsPerSecond)) next) :
    shift (max 0 (time.tv_nsec.toInt / nanosecondsPerSecond)) time >>= move =
      shift (time.tv_nsec.toInt / nanosecondsPerSecond) time := by
  have hbounds := fits_toInt time.tv_nsec
  have hsum : time.tv_nsec.toInt / nanosecondsPerSecond =
      max 0 (time.tv_nsec.toInt / nanosecondsPerSecond) +
        min 0 ((time.tv_nsec.toInt -
          max 0 (time.tv_nsec.toInt / nanosecondsPerSecond) * nanosecondsPerSecond) /
            nanosecondsPerSecond) := by
    unfold nanosecondsPerSecond
    omega
  conv_rhs => rw [hsum]
  apply shift_bind
  · unfold Fits nanosecondsPerSecond at *
    omega
  · intro next hnext
    rw [hmove, hnext]
  · unfold nanosecondsPerSecond
    omega

/-- The correction takes the second that is not whole. -/
theorem bind_borrowed (time : Timespec) :
    shift (min 0 (-(-time.tv_nsec.toInt / nanosecondsPerSecond))) time >>= correct =
      shift (min 0 (time.tv_nsec.toInt / nanosecondsPerSecond)) time := by
  have hbounds := fits_toInt time.tv_nsec
  have hsum : min 0 (time.tv_nsec.toInt / nanosecondsPerSecond) =
      min 0 (-(-time.tv_nsec.toInt / nanosecondsPerSecond)) +
        if time.tv_nsec.toInt -
          min 0 (-(-time.tv_nsec.toInt / nanosecondsPerSecond)) * nanosecondsPerSecond < 0
        then -1 else 0 := by
    unfold nanosecondsPerSecond
    split_ifs <;> omega
  rw [hsum]
  apply shift_bind
  · unfold Fits nanosecondsPerSecond at *
    omega
  · intro next hnext
    rw [correct_eq, hnext]
  · split_ifs <;> omega

/-! ## What the macros come to -/

section Totals

variable {time result : Timespec} {nanoseconds : ℤ}

theorem ediv_total (time : Timespec) : time.total / nanosecondsPerSecond =
    time.tv_sec.toInt + time.tv_nsec.toInt / nanosecondsPerSecond := by
  unfold Timespec.total nanosecondsPerSecond
  omega

theorem emod_total (time : Timespec) :
    time.total % nanosecondsPerSecond = time.tv_nsec.toInt % nanosecondsPerSecond := by
  unfold Timespec.total nanosecondsPerSecond
  omega

theorem fits_emod (value : ℤ) : Fits (value % nanosecondsPerSecond) := by
  unfold Fits nanosecondsPerSecond
  omega

/-- There is one normalized time for a total at most. -/
theorem ofTotal_eq_ok :
    ofTotal nanoseconds = .ok result ↔ result.Normalized ∧ result.total = nanoseconds := by
  have hrange : result.Normalized ∧ result.total = nanoseconds ↔
      result.tv_sec.toInt = nanoseconds / nanosecondsPerSecond ∧
        result.tv_nsec.toInt = nanoseconds % nanosecondsPerSecond := by
    unfold Timespec.Normalized Timespec.total nanosecondsPerSecond
    omega
  have hnsec := toInt_ofInt (fits_emod nanoseconds)
  rw [hrange, ← checked_eq_ok]
  constructor
  · intro h
    obtain ⟨sec, hsec, h⟩ := except_bind_eq_ok.mp h
    obtain rfl := Except.ok.inj h
    exact ⟨hsec, hnsec⟩
  · rintro ⟨hsec, hsame⟩
    obtain ⟨sec, nsec⟩ := result
    have hword : Int64.ofInt (nanoseconds % nanosecondsPerSecond) = nsec :=
      Int64.toInt_inj.mp (hnsec.trans hsame.symm)
    exact except_bind_eq_ok.mpr ⟨sec, hsec, by rw [hword]; rfl⟩

/-- A total can be normalized where its seconds fit. -/
theorem exists_ofTotal_iff :
    (∃ result, ofTotal nanoseconds = .ok result) ↔ Fits (nanoseconds / nanosecondsPerSecond) := by
  constructor
  · rintro ⟨result, hres⟩
    obtain ⟨sec, hsec, -⟩ := except_bind_eq_ok.mp hres
    exact checked_eq_ok.mp hsec ▸ fits_toInt sec
  · intro hfits
    exact ⟨_, except_bind_eq_ok.mpr ⟨_, checked_of_fits hfits, rfl⟩⟩

/-- A shift by the seconds of the nanoseconds normalizes. -/
theorem shift_eq_ofTotal (time : Timespec) :
    shift (time.tv_nsec.toInt / nanosecondsPerSecond) time = ofTotal time.total := by
  have hnsec :
    time.tv_nsec.toInt - time.tv_nsec.toInt / nanosecondsPerSecond * nanosecondsPerSecond =
      time.total % nanosecondsPerSecond := by
    rw [emod_total]
    unfold nanosecondsPerSecond
    omega
  unfold shift ofTotal
  rw [hnsec, ediv_total, checked_of_fits (fits_emod time.total)]
  rfl

theorem computes_timeNormalize (time : Timespec) :
    Computes (timeNormalize time) (ofTotal time.total) := by
  have hcomputes := (computes_carry time).bind fun carried =>
    (computes_borrow carried).bind fun borrowed => computes_exactly (correct borrowed)
  -- The three shifts are one, by the seconds of the nanoseconds rounded down.
  rw [bind_carried time bind_borrowed, shift_eq_ofTotal] at hcomputes
  exact hcomputes

end Totals

/-! ## Sums and differences -/

/-- An operation on times that works field by field. -/
structure Fieldwise (operation : ℤ → ℤ → ℤ) : Prop where
  total : ∀ sec nsec sec' nsec',
    operation (sec * nanosecondsPerSecond + nsec) (sec' * nanosecondsPerSecond + nsec') =
      operation sec sec' * nanosecondsPerSecond + operation nsec nsec'
  fits : ∀ nsec nsec', 0 ≤ nsec → nsec < nanosecondsPerSecond → 0 ≤ nsec' →
    nsec' < nanosecondsPerSecond → Fits (operation nsec nsec')

theorem fieldwise_add : Fieldwise fun sum added => sum + added where
  total sec nsec sec' nsec' := by ring
  fits nsec nsec' h₀ h h₀' h' := by
    unfold Fits nanosecondsPerSecond at *
    omega

theorem fieldwise_sub : Fieldwise fun difference subtracted => difference - subtracted where
  total sec nsec sec' nsec' := by ring
  fits nsec nsec' h₀ h h₀' h' := by
    unfold Fits nanosecondsPerSecond at *
    omega

/-- `timeCombine` with what `time_normalize` comes to. -/
def combined (operation : ℤ → ℤ → ℤ) (result operand : Timespec) :
    Except Undefined (Timespec × Timespec) := do
  let result ← ofTotal result.total
  let operand ← ofTotal operand.total
  let sec ← checked (operation result.tv_sec.toInt operand.tv_sec.toInt)
  let nsec ← checked (operation result.tv_nsec.toInt operand.tv_nsec.toInt)
  let result ← ofTotal (Timespec.total ⟨sec, nsec⟩)
  return (result, operand)

section Combined

variable {operation : ℤ → ℤ → ℤ} {time other result left : Timespec}

theorem computes_timeCombine (operation : ℤ → ℤ → ℤ) (time other : Timespec) :
    Computes (timeCombine operation time other) (combined operation time other) := by
  apply (computes_timeNormalize time).bind
  intro result
  apply (computes_timeNormalize other).bind
  intro operand
  apply (computes_exactly _).bind
  intro sec
  apply (computes_exactly _).bind
  intro nsec
  apply (computes_timeNormalize ⟨sec, nsec⟩).bind
  intro last
  exact computes_pure (last, operand)

/-- What the fields of two normalized times are combined to. -/
theorem Fieldwise.total_eq (h : Fieldwise operation) {first : Timespec} {sec nsec : Int64}
    (hfirst : first.total = time.total) (hleft : left.total = other.total)
    (hsec : sec.toInt = operation first.tv_sec.toInt left.tv_sec.toInt)
    (hnsec : nsec.toInt = operation first.tv_nsec.toInt left.tv_nsec.toInt) :
    Timespec.total ⟨sec, nsec⟩ = operation time.total other.total := by
  have htotal := h.total first.tv_sec.toInt first.tv_nsec.toInt left.tv_sec.toInt left.tv_nsec.toInt
  rw [← hfirst, ← hleft]
  unfold Timespec.total
  rw [htotal, hsec, hnsec]

/-- The operation is exact where the times can be normalized, and the seconds of the result fit,
also in front of its carry. -/
theorem combined_eq_ok (h : Fieldwise operation) :
    combined operation time other = .ok (result, left) ↔
      ∃ first, ofTotal time.total = .ok first ∧ ofTotal other.total = .ok left ∧
        Fits (operation first.tv_sec.toInt left.tv_sec.toInt) ∧
        ofTotal (operation time.total other.total) = .ok result := by
  constructor
  · intro hok
    obtain ⟨first, hfirst, hok⟩ := except_bind_eq_ok.mp hok
    obtain ⟨second, hsecond, hok⟩ := except_bind_eq_ok.mp hok
    obtain ⟨sec, hsec, hok⟩ := except_bind_eq_ok.mp hok
    obtain ⟨nsec, hnsec, hok⟩ := except_bind_eq_ok.mp hok
    obtain ⟨last, hlast, hok⟩ := except_bind_eq_ok.mp hok
    obtain ⟨rfl, rfl⟩ := Prod.mk.inj (Except.ok.inj hok)
    have hsec := checked_eq_ok.mp hsec
    have htotal := h.total_eq (ofTotal_eq_ok.mp hfirst).2 (ofTotal_eq_ok.mp hsecond).2 hsec
      (checked_eq_ok.mp hnsec)
    rw [htotal] at hlast
    exact ⟨first, hfirst, hsecond, hsec ▸ fits_toInt sec, hlast⟩
  · rintro ⟨first, hfirst, hleft, hsec, hres⟩
    obtain ⟨hrange, htime⟩ := ofTotal_eq_ok.mp hfirst
    obtain ⟨hrange', hother⟩ := ofTotal_eq_ok.mp hleft
    have hnsec := h.fits _ _ hrange.1 hrange.2 hrange'.1 hrange'.2
    have htotal := h.total_eq htime hother (toInt_ofInt hsec) (toInt_ofInt hnsec)
    unfold combined
    rw [hfirst, hleft]
    show (checked _ >>= _) = _
    rw [checked_of_fits hsec]
    show (checked _ >>= _) = _
    rw [checked_of_fits hnsec]
    show (ofTotal _ >>= _) = _
    rw [htotal, hres]
    rfl

/-- The seconds of a normalized time are those of its total. -/
theorem Timespec.Normalized.tv_sec_eq (h : time.Normalized) :
    time.tv_sec.toInt = time.total / nanosecondsPerSecond := by
  obtain ⟨hlower, hupper⟩ := h
  rw [ediv_total, Int.ediv_eq_zero_of_lt hlower hupper, Int.add_zero]

/-- What two totals need for `time_add` or `time_sub`: both times can be normalized, their seconds
can be combined, and so can the carry of the nanoseconds. -/
structure Combinable (operation : ℤ → ℤ → ℤ) (total total' : ℤ) : Prop where
  left : Fits (total / nanosecondsPerSecond)
  right : Fits (total' / nanosecondsPerSecond)
  seconds : Fits (operation (total / nanosecondsPerSecond) (total' / nanosecondsPerSecond))
  both : Fits (operation total total' / nanosecondsPerSecond)

/-- A macro comes to a value exactly for such totals. -/
theorem exists_combined_iff (h : Fieldwise operation) :
    (∃ value, combined operation time other = .ok value) ↔
      Combinable operation time.total other.total := by
  constructor
  · rintro ⟨⟨result, left⟩, hok⟩
    obtain ⟨first, hfirst, hleft, hsec, hres⟩ := (combined_eq_ok h).mp hok
    obtain ⟨hrange, htime⟩ := ofTotal_eq_ok.mp hfirst
    obtain ⟨hrange', hother⟩ := ofTotal_eq_ok.mp hleft
    rw [hrange.tv_sec_eq, hrange'.tv_sec_eq, htime, hother] at hsec
    exact ⟨exists_ofTotal_iff.mp ⟨first, hfirst⟩, exists_ofTotal_iff.mp ⟨left, hleft⟩, hsec,
      exists_ofTotal_iff.mp ⟨result, hres⟩⟩
  · intro hfits
    obtain ⟨first, hfirst⟩ := exists_ofTotal_iff.mpr hfits.left
    obtain ⟨left, hleft⟩ := exists_ofTotal_iff.mpr hfits.right
    obtain ⟨result, hres⟩ := exists_ofTotal_iff.mpr hfits.both
    obtain ⟨hrange, htime⟩ := ofTotal_eq_ok.mp hfirst
    obtain ⟨hrange', hother⟩ := ofTotal_eq_ok.mp hleft
    have hsec := hfits.seconds
    rw [← htime, ← hother, ← hrange.tv_sec_eq, ← hrange'.tv_sec_eq] at hsec
    exact ⟨(result, left), (combined_eq_ok h).mpr ⟨first, hfirst, hleft, hsec, hres⟩⟩

end Combined

/-! ## Exactness -/

/-- Some sum in the computation does not fit. -/
def Overflows {α : Type} (m : Fueled Undefined α) : Prop := Computes m (.error .overflow)

/-- A computation overflows, or it comes to a value. -/
theorem overflows_iff {α : Type} {m : Fueled Undefined α} {result : Except Undefined α}
    (h : Computes m result) : Overflows m ↔ ¬∃ value, result = .ok value := by
  rw [Overflows, h.iff]
  cases result with
  | error e =>
    cases e
    exact iff_of_true rfl (fun ⟨_, hval⟩ => by cases hval)
  | ok value => exact iff_of_false nofun (not_not.mpr ⟨value, rfl⟩)

/-- The sums of `time_normalize` fit where the seconds of the total do. -/
theorem overflows_timeNormalize_iff (time : Timespec) :
    Overflows (timeNormalize time) ↔ ¬Fits (time.total / nanosecondsPerSecond) :=
  (overflows_iff (computes_timeNormalize time)).trans exists_ofTotal_iff.not

/-- The sums of `time_add` and `time_sub` fit where the totals can be combined. -/
theorem overflows_timeCombine_iff {operation : ℤ → ℤ → ℤ} (h : Fieldwise operation)
    (time other : Timespec) : Overflows (timeCombine operation time other) ↔
      ¬Combinable operation time.total other.total :=
  (overflows_iff (computes_timeCombine operation time other)).trans (exists_combined_iff h).not

/-- For times whose sums fit, a macro is exact on totals, and another one undoes it where the
seconds of its own difference fit: with the argument that the first one leaves, and with a copy from
before. -/
def Exact (operation inverse : ℤ → ℤ → ℤ)
    (forward backward : Timespec → Timespec → Fueled Undefined (Timespec × Timespec)) : Prop :=
  ∀ time other, Combinable operation time.total other.total → ∃ result left,
    Computes (forward time other) (.ok (result, left)) ∧
      result.Normalized ∧ result.total = operation time.total other.total ∧
      left.Normalized ∧ left.total = other.total ∧
      (Fits (inverse (operation time.total other.total / nanosecondsPerSecond)
          (other.total / nanosecondsPerSecond)) →
        ∀ operand ∈ [other, left], ∃ back kept,
          Computes (backward result operand) (.ok (back, kept)) ∧
            Computes (timeNormalize time) (.ok back))

theorem Fieldwise.exact {operation inverse : ℤ → ℤ → ℤ} (h : Fieldwise operation)
    (h' : Fieldwise inverse)
    (hundo : ∀ value other, inverse (operation value other) other = value) :
    Exact operation inverse (timeCombine operation) (timeCombine inverse) := by
  intro time other hfits
  obtain ⟨⟨result, left⟩, hforward⟩ := (exists_combined_iff h).mpr hfits
  obtain ⟨first, -, hleft, -, hres⟩ := (combined_eq_ok h).mp hforward
  obtain ⟨hrange, htotal⟩ := ofTotal_eq_ok.mp hres
  obtain ⟨hrange', htotal'⟩ := ofTotal_eq_ok.mp hleft
  refine ⟨result, left, hforward ▸ computes_timeCombine operation time other, hrange,
    htotal, hrange', htotal', fun hseconds operand hoperand => ?_⟩
  have hsame : operand.total = other.total := by
    rcases List.mem_cons.mp hoperand with rfl | hoperand
    · rfl
    · rw [List.mem_singleton.mp hoperand, htotal']
  -- The totals of the way back are the result and the second argument, of which all but the
  -- difference of the seconds is known to fit.
  have hback : Combinable inverse result.total operand.total := by
    rw [htotal, hsame]
    exact ⟨hfits.both, hfits.right, hseconds, (hundo time.total other.total).symm ▸ hfits.left⟩
  obtain ⟨⟨back, kept⟩, hbackward⟩ := (exists_combined_iff h').mpr hback
  obtain ⟨second, -, -, -, hlast⟩ := (combined_eq_ok h').mp hbackward
  have hnormal := computes_timeNormalize time
  rw [htotal, hsame, hundo] at hlast
  rw [hlast] at hnormal
  exact ⟨back, kept, hbackward ▸ computes_timeCombine inverse result operand, hnormal⟩

/-- Where the sums fit, `time_normalize` ends and keeps the total; `time_add` and `time_sub` are
exact, and undo each other. -/
theorem time_exact :
    (∀ time : Timespec, Fits (time.total / nanosecondsPerSecond) → ∃ result,
      Computes (timeNormalize time) (.ok result) ∧ result.Normalized ∧ result.total = time.total) ∧
    Exact (fun sum added => sum + added) (fun difference subtracted => difference - subtracted)
      timeAdd timeSub ∧
    Exact (fun difference subtracted => difference - subtracted) (fun sum added => sum + added)
      timeSub timeAdd := by
  refine ⟨fun time hfits => ?_, ?_, ?_⟩
  · obtain ⟨result, hresult⟩ := exists_ofTotal_iff.mpr hfits
    exact ⟨result, hresult ▸ computes_timeNormalize time, ofTotal_eq_ok.mp hresult⟩
  · exact fieldwise_add.exact fieldwise_sub Int.add_sub_cancel
  · exact fieldwise_sub.exact fieldwise_add Int.sub_add_cancel

/-- A nanosecond before a minute, and a second that is written in nanoseconds. -/
theorem time_exact_minute :
    (∃ result, Computes (timeNormalize ⟨60, -1⟩) (.ok result) ∧ result.Normalized ∧
      result.total = Timespec.total ⟨60, -1⟩) ∧
    ∃ result left, Computes (timeAdd ⟨60, -1⟩ ⟨0, 1000000000⟩) (.ok (result, left)) ∧
      result.total = 60999999999 ∧ ∃ back kept, Computes (timeSub result left) (.ok (back, kept)) ∧
        Computes (timeNormalize ⟨60, -1⟩) (.ok back) := by
  obtain ⟨result, left, hcomputes, -, htotal, -, -, hback⟩ :=
    time_exact.2.1 ⟨60, -1⟩ ⟨0, 1000000000⟩ ⟨by decide, by decide, by decide, by decide⟩
  exact ⟨time_exact.1 ⟨60, -1⟩ (by decide), result, left, hcomputes, htotal.trans (by decide),
    hback (by decide) left (List.mem_cons_of_mem _ List.mem_cons_self)⟩

end FengShui.Time
