import TurnEngine.Fallback.Chain
import TurnEngine.Listeners.Hub

/-!
# Runs with listeners

The listeners of a chain are called with every notice, on the spot and in order of registration,
and the run goes on when they are done. A listener may do anything to the world, and it may panic on
the way: a panic ends its callback and nothing else. Who listens is a matter of the world, so
listeners may come and go while a run is under way.

`Chain.runWith` is a run of a chain with its listeners. `Chain.run` is the same run where nobody
listens (`runWith_silence`); it leaves to its surroundings who is told.
-/

namespace TurnEngine.Fallback

/-- A listener: its name, and what it does to the world when it hears a notice. -/
structure Listener (σ : Type) where
  name : Nat
  hear : Notice → σ → Except Panic Unit × σ

/-- The listeners that are registered in a world. -/
abbrev Subscribers (σ : Type) := σ → Hub (Listener σ)

/-- A world, and which listeners were called with what in it. -/
structure Notified (σ : Type) where
  world : σ
  heard : List (Nat × Notice) := []

variable {σ α : Type}

/-- Tells the listeners of a notice that are there now. -/
def Subscribers.tell (listeners : Subscribers σ) (n : Notice) (r : Notified σ) : Notified σ :=
  (listeners r.world).emit
    (fun l r => { world := guarded (l.hear n r.world), heard := r.heard ++ [(l.name, n)] }) r

/-- Tells the listeners of all notices among some events. -/
def Subscribers.announce (listeners : Subscribers σ) (events : List Event)
    (r : Notified σ) : Notified σ :=
  (notices events).foldl (fun r n => listeners.tell n r) r

namespace Chain

/-- The candidates from an index on, with listeners. -/
def runFromWith (c : Chain) (w : World σ α) (listeners : Subscribers σ) (candidates : List String) :
    (index : Nat) → (rest : List String) → (done : List Event) → Notified σ →
      List Event × Ending α × Notified σ
  | _, [], done, r => (done, .failed (.exhausted (trail done)), r)
  | index, reference :: rest, done, r =>
    if w.cancelled r.world then (done, .failed .cancelled, r)
    else
      let (events, name, verdict, s) := c.tryCandidate w reference r.world
      let r := { r with world := s }
      let done := done ++ .visit index :: events
      match verdict with
      | .ended e => (done, e, r)
      | .spent reason =>
        let handover := advance candidates index name reason
        c.runFromWith w listeners candidates (index + 1) rest (done ++ handover)
          (listeners.announce handover r)

/-- Runs work against the candidates with listeners: the course of events, the ending, and the world
after it, with who was called. -/
def runWith (c : Chain) (w : World σ α) (listeners : Subscribers σ) (candidates : List String)
    (r : Notified σ) : List Event × Ending α × Notified σ :=
  if candidates.isEmpty then ([], .failed (.config "no fallback candidates given"), r)
  else c.runFromWith w listeners candidates 0 candidates [] r

end Chain

/-- Nobody listens. -/
def silence : Subscribers σ := fun _ => {}

theorem announce_silence (events : List Event) (r : Notified σ) :
    silence.announce events r = r := by
  unfold Subscribers.announce
  induction notices events with
  | nil => rfl
  | cons n ns ih => exact ih

theorem runFromWith_silence (c : Chain) (w : World σ α) (candidates : List String)
    (index : Nat) (rest : List String) (done : List Event) (r : Notified σ) :
    c.runFromWith w silence candidates index rest done r =
      let (course, ending, after) := c.runFrom w candidates index rest done r.world
      (course, ending, { r with world := after }) := by
  induction rest generalizing index done r with
  | nil => rfl
  | cons reference rest ih =>
    unfold Chain.runFromWith Chain.runFrom
    by_cases hfired : w.cancelled r.world = true
    · rw [if_pos hfired, if_pos hfired]
    · rw [if_neg hfired, if_neg hfired]
      obtain ⟨events, name, verdict, s⟩ := c.tryCandidate w reference r.world
      cases verdict with
      | ended e => rfl
      | spent reason =>
        dsimp only
        rw [announce_silence, ih]

/-- Where nobody listens, a run is the run of the chain. -/
theorem runWith_silence (c : Chain) (w : World σ α) (candidates : List String) (r : Notified σ) :
    c.runWith w silence candidates r =
      let (course, ending, after) := c.run w candidates r.world
      (course, ending, { r with world := after }) := by
  unfold Chain.runWith Chain.run
  by_cases hnone : candidates.isEmpty = true
  · rw [if_pos hnone, if_pos hnone]
  · rw [if_neg hnone, if_neg hnone, runFromWith_silence]

end TurnEngine.Fallback
