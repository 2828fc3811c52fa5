import FengShui.Core.DartMap
import FengShui.Reactive.Constants

/-!
# Stream ids (`reactive/supplier.dart`)
-/

namespace FengShui.Reactive

structure ReactiveStreamIdSupplier where
  current : ℤ
  initial : ℤ
  deriving DecidableEq, Repr

namespace ReactiveStreamIdSupplier

def client : ReactiveStreamIdSupplier :=
  ⟨reactiveClientInitialStreamId, reactiveClientInitialStreamId⟩

def server : ReactiveStreamIdSupplier :=
  ⟨reactiveServerInitialStreamId, reactiveServerInitialStreamId⟩

/-- The body of the loop of `next`. -/
def advance (supplier : ReactiveStreamIdSupplier) : ReactiveStreamIdSupplier :=
  let current := supplier.current + reactiveStreamIdIncrement
  { supplier with
    current :=
      if current > reactiveStreamIdMask then supplier.initial + reactiveStreamIdIncrement
      else current }

/-- The loop of `next`, with a bound on its rounds. -/
def nextLoop (streamIds : List ℤ) :
    ℕ → ReactiveStreamIdSupplier → Option (ℤ × ReactiveStreamIdSupplier)
  | 0, _ => none
  | rounds + 1, supplier =>
    let supplier := supplier.advance
    if supplier.current = 0 ∨ supplier.current ∈ streamIds then nextLoop streamIds rounds supplier
    else some (supplier.current, supplier)

/-- The next id that is not used. The ids repeat only after all of them, so of one more than are
used one is free, or none ever is and the loop has no end. -/
def next (streamIds : List ℤ) (supplier : ReactiveStreamIdSupplier) :
    Option (ℤ × ReactiveStreamIdSupplier) :=
  nextLoop streamIds (streamIds.length + 1) supplier

/-- The id that is found is not used. -/
theorem notMem_of_next {streamIds : List ℤ} {supplier supplier' : ReactiveStreamIdSupplier} {id : ℤ}
    (h : supplier.next streamIds = some (id, supplier')) : id ∉ streamIds := by
  unfold next at h
  generalize streamIds.length + 1 = rounds at h
  induction rounds generalizing supplier with
  | zero => cases h
  | succ rounds ih =>
    rw [nextLoop] at h
    split at h
    · exact ih h
    · rename_i hfree
      cases h
      exact fun hmem => hfree (.inr hmem)

end ReactiveStreamIdSupplier

end FengShui.Reactive
