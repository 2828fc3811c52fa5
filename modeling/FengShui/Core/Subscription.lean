import FengShui.Core.Dart

/-!
# The subscription of a stream controller (`dart:async`)

A single-subscription `StreamController` keeps the events that its subscription has not taken. The
subscription counts its pauses, takes one event after the other while it is not paused, and takes
none any more once it is canceled.
-/

namespace FengShui

structure Subscription (α : Type) where
  /-- The events that are not taken yet. -/
  events : List α
  paused : ℕ
  canceled : Bool
  deriving DecidableEq, Repr

namespace Subscription

variable {α : Type}

/-- `StreamController.add`. -/
def add (subscription : Subscription α) (event : α) : Subscription α :=
  if subscription.canceled then subscription
  else { subscription with events := subscription.events ++ [event] }

def pause (subscription : Subscription α) : Subscription α :=
  if subscription.canceled then subscription
  else { subscription with paused := subscription.paused + 1 }

/-- A resume takes back one pause, and is ignored when there is none. -/
def resume (subscription : Subscription α) : Subscription α :=
  if subscription.canceled then subscription
  else { subscription with paused := subscription.paused - 1 }

def cancel (subscription : Subscription α) : Subscription α :=
  { subscription with events := [], canceled := true }

/-- The event that is taken next, and the subscription without it. -/
def next? (subscription : Subscription α) : Option (α × Subscription α) :=
  if subscription.canceled || subscription.paused ≠ 0 then none
  else match subscription.events with
    | [] => none
    | event :: events => some (event, { subscription with events := events })

variable (subscription : Subscription α)

/-- An event cancels nothing. -/
@[simp]
theorem canceled_add (event : α) : (subscription.add event).canceled = subscription.canceled := by
  unfold add
  split <;> rfl

/-- An event pauses nothing. -/
@[simp]
theorem paused_add (event : α) : (subscription.add event).paused = subscription.paused := by
  unfold add
  split <;> rfl

/-- A pause cancels nothing. -/
@[simp]
theorem canceled_pause : subscription.pause.canceled = subscription.canceled := by
  unfold pause
  split <;> rfl

/-- A pause keeps the events. -/
@[simp]
theorem events_pause : subscription.pause.events = subscription.events := by
  unfold pause
  split <;> rfl

/-- A resume cancels nothing. -/
@[simp]
theorem canceled_resume : subscription.resume.canceled = subscription.canceled := by
  unfold resume
  split <;> rfl

/-- A resume keeps the events. -/
@[simp]
theorem events_resume : subscription.resume.events = subscription.events := by
  unfold resume
  split <;> rfl

variable {subscription}

/-- The event is the last one. -/
theorem events_add (h : subscription.canceled = false) (event : α) :
    (subscription.add event).events = subscription.events ++ [event] := by
  rw [add, h]
  rfl

/-- Pauses are counted. -/
theorem paused_pause (h : subscription.canceled = false) :
    subscription.pause.paused = subscription.paused + 1 := by
  rw [pause, h]
  rfl

/-- Only `add` brings events in. -/
theorem mem_events_of_add {event other : α} (h : other ∈ (subscription.add event).events) :
    other ∈ subscription.events ∨ other = event := by
  unfold add at h
  split at h
  · exact .inl h
  · simpa using h

/-- What a subscription that takes an event looks like. -/
theorem next?_eq_some {event : α} {rest : Subscription α} :
    subscription.next? = some (event, rest) ↔
      subscription.canceled = false ∧ subscription.paused = 0 ∧
        subscription.events = event :: rest.events ∧ rest.canceled = false ∧ rest.paused = 0 := by
  obtain ⟨events, paused, canceled⟩ := subscription
  obtain ⟨events', paused', canceled'⟩ := rest
  unfold next?
  cases canceled with
  | true => simp
  | false =>
    rcases Nat.eq_zero_or_pos paused with rfl | hpaused
    · cases events with
      | nil => simp
      | cons head tail => simp [Subscription.mk.injEq]; grind
    · simp [show paused ≠ 0 by omega]

end Subscription

end FengShui
