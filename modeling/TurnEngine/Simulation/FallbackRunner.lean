import TurnEngine.Fallback.Chain
import TurnEngine.Simulation.TimedRunner

/-!
# Simulating executions under a fallback chain

A chain whose work is an execution: the model resolved for a candidate carries the conversation on,
under the signal of the chain. An execution that ends in an error counts as a failure of the
transport with its message; one that is refused fails as it was refused.
-/

namespace TurnEngine.Simulation

/-- A timed runner with breakers in front of it. -/
structure FallbackRunner where
  runner : TimedRunner
  registry : Breaker.Registry := {}
  /-- The execution that every candidate runs. -/
  submission : Submission
  signal : Signal

namespace FallbackRunner

/-- What an execution counts as. -/
def verdict (r : Run.Result Message) : Except Failure (Run.Result Message) :=
  match r.status with
  | .error => .error (.http (r.error.getD ""))
  | _ => .ok r

/-- Runs the execution on a model. -/
def work (m : Model) (e : FallbackRunner) :
    Fallback.Waited (Except Failure (Run.Result Message)) × FallbackRunner :=
  let job := e.runner.records.length
  let submission : Submission :=
    { e.submission with
      setup := { e.submission.setup with model := m.modelId }
      signal := e.signal }
  let h := e.runner.rouse (.enter submission)
  let bound := 2 * (h.commandBound submission.setup + h.timers.length + 4)
  let h := h.runUntil (·.hasEnded job) bound
  let e := { e with runner := h, signal := h.signalOf job }
  (.back (((h.outcome? job).getD (.error .cancelled)).bind verdict), e)

/-- Waits for a duration, or until the signal fires. -/
def sleep (ms : Nat) (e : FallbackRunner) : Fallback.Waited Bool × FallbackRunner :=
  match e.signal.sleep e.runner.now ms with
  | .elapsed t => (.back true, { e with runner := { e.runner with now := t } })
  | .cancelled t => (.back false, { e with runner := { e.runner with now := t } })

/-- The world in which the chain runs. -/
def world : Fallback.World FallbackRunner (Run.Result Message) where
  now e := e.runner.now
  cancelled e := e.signal.firedBy e.runner.now
  breakers e := e.registry
  setBreakers r e := { e with registry := r }
  work
  sleep

/-- Runs the chain: its course, its ending, and the runner after it. -/
def run (e : FallbackRunner) (c : Fallback.Chain) (candidates : List String) :
    List Fallback.Event × Fallback.Ending (Run.Result Message) × FallbackRunner :=
  c.run world candidates e

/-- What the listeners of all executions heard and when. -/
def heard (e : FallbackRunner) : List (Nat × Run.LiveEvent) :=
  (List.range e.runner.records.length).flatMap e.runner.heard

end FallbackRunner

end TurnEngine.Simulation
