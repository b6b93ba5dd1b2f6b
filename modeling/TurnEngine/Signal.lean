import TurnEngine.Clock

/-!
# Cancellation signals

A signal fires once and for all. On a time line it is the moment at which it fires, if it ever
does. Waiting against a signal ends at the end of the wait or at that moment, whichever comes
first; a signal that has fired ends a wait before it begins.
-/

namespace TurnEngine

/-- When a signal fires, if it does. -/
structure Signal where
  firesAt : Option Nat := none
  deriving DecidableEq, Repr

/-- How a wait against a signal ends, and when. -/
inductive Signal.Wait where
  | elapsed (finish : Nat)
  | cancelled (finish : Nat)
  deriving DecidableEq, Repr

namespace Signal

/-- The signal that never fires. -/
def never : Signal := {}

/-- The signal that fires at a moment. -/
def firingAt (t : Nat) : Signal := ⟨some t⟩

/-- The signal of somebody who waits, from now on, and then fires it. -/
def firingAfter (now ms : Nat) : Signal := firingAt (Clock.after now ms)

/-- Whether the signal has fired by a moment. -/
def firedBy (s : Signal) (now : Nat) : Bool :=
  match s.firesAt with
  | none => false
  | some t => t ≤ now

/-- Fires the signal now, unless it fired before. -/
def fire (s : Signal) (now : Nat) : Signal :=
  if s.firedBy now then s else ⟨some now⟩

/-- Waits for a duration, or until the signal fires. -/
def sleep (s : Signal) (now ms : Nat) : Wait :=
  let finish := Clock.after now ms
  match s.firesAt with
  | none => .elapsed finish
  | some t =>
    if t ≤ now then .cancelled now
    else if t ≤ finish then .cancelled t
    else .elapsed finish

/-- A wait against a signal ends when the signal fires, or at once if it has fired; otherwise it
lasts as long as it should. -/
theorem sleep_cases (s : Signal) (now ms : Nat) :
    (∃ t, s.firesAt = some t ∧ t ≤ Clock.after now ms ∧
      s.sleep now ms = .cancelled (max t now)) ∨
    (s.firedBy (Clock.after now ms) = false ∧ s.sleep now ms = .elapsed (Clock.after now ms)) := by
  have hle : now ≤ Clock.after now ms := Nat.le_add_right _ _
  unfold sleep firedBy
  cases s.firesAt with
  | none => exact .inr ⟨rfl, rfl⟩
  | some t =>
    dsimp only
    split
    · exact .inl ⟨t, rfl, by omega, by rw [Nat.max_eq_right ‹_›]⟩
    · split
      · exact .inl ⟨t, rfl, ‹_›, by rw [Nat.max_eq_left (by omega)]⟩
      · exact .inr ⟨by simpa using ‹¬t ≤ Clock.after now ms›, rfl⟩

end Signal

end TurnEngine
