import TurnEngine.Simulation.TimedRunner

/-!
# Scripts of a runner

A script is everything that happens at a runner in one simulation: slots that somebody else holds
at first, what is done to the lanes and when, and the executions in the order in which they begin.
It is over when all executions have ended.
-/

namespace TurnEngine.Simulation

/-- A simulation of executions that share a runner. -/
structure RunnerScript where
  laneConfig : Lane.Config := {}
  backend : Backend := {}
  executor : Executor := .toolbox {}
  /-- The keys of slots held at first, and when they are released. -/
  held : List (String × Option Nat) := []
  /-- What is done to the lanes, and when. -/
  actions : List (Nat × Lane.Op) := []
  /-- The executions, and when they begin if not at once. -/
  submissions : List (Option Nat × Submission) := []

namespace RunnerScript

/-- The runner before the script. -/
def emptyRunner (p : RunnerScript) : TimedRunner where
  runner := { pool := { registry := { config := p.laneConfig } } }
  backend := p.backend
  executor := p.executor
  poolPlace := p.submissions.length + 1

/-- Somebody else takes a slot, and releases it at a moment if one is given. -/
def hold (h : TimedRunner) (slot : String × Option Nat) : TimedRunner :=
  let (runner, reply) := h.runner.use (.acquire slot.1)
  let h := { h with runner }
  match reply, slot.2 with
  | .handle x, some t => h.setTimer (Clock.after h.now t) (.lane (.release x.number))
  | _, _ => h

/-- An execution gets ready to begin. -/
def call (h : TimedRunner) (p : Option Nat × Submission) : TimedRunner :=
  match p.1 with
  | some t => h.setTimer (Clock.after h.now t) (.enter p.2)
  | none => h.rouse (.enter p.2)

/-- The runner when the script begins. -/
def opening (p : RunnerScript) : TimedRunner :=
  let h := p.held.foldl hold p.emptyRunner
  let h := p.actions.foldl (fun h a => h.setTimer (Clock.after h.now a.1) (.lane a.2)) h
  p.submissions.foldl call h

/-- Whether all executions have ended. -/
def isOver (p : RunnerScript) (h : TimedRunner) : Bool :=
  (h.records.filter fun x => x.endedAt.isSome).length = p.submissions.length

/-- The most steps a script takes: every command sets one timer at most, every job gets one
letter at most, and for every timer there is a step that moves the clock. -/
def stepBound (p : RunnerScript) (h : TimedRunner) : Nat :=
  let commands := p.submissions.foldl (fun n c => n + h.commandBound c.2.setup) 0
  2 * (commands + 3 * p.submissions.length + h.timers.length) + 1

/-- The runner when the script is over. -/
def run (p : RunnerScript) : TimedRunner :=
  let h := p.opening
  h.runUntil p.isOver (p.stepBound h)

/-- The job of the submission with a label. -/
def jobOf? (h : TimedRunner) (label : Nat) : Option Nat :=
  h.records.findIdx? fun x => x.label = label

/-- The occupancy and the queue of the lane of every execution, in ascending order of keys. -/
def lanes (p : RunnerScript) (h : TimedRunner) : List (String × Nat × Nat) :=
  let keys := (p.submissions.map fun c => c.2.setup.session).eraseDups
  (keys.mergeSort fun a b => !(b < a)).map fun k =>
    (k, h.runner.pool.registry.occupancy k, h.runner.pool.registry.queued k)

end RunnerScript

end TurnEngine.Simulation
