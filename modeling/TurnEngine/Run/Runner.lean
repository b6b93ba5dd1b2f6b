import TurnEngine.Lane.Pool
import TurnEngine.Run.Execution

/-!
# Executions that share lanes

A runner is a pool of lanes with the executions that come through it. An execution enters, waits for
a slot of its lane or gets one at once, holds a handle while it runs, and gives the handle up when
it ends, whatever way it ends. A `Job` is an execution with its `LaneStatus`: where it stands with
its lane.

Only the runner admits and refuses: of what happens to an execution elsewhere, `deliver` passes on
everything but these two.
-/

namespace TurnEngine.Run

/-- Where an execution stands with its lane. -/
inductive LaneStatus where
  /-- It has not asked for a slot. -/
  | outside
  /-- It waits with a ticket. -/
  | waiting (ticket : Nat)
  /-- It holds a handle. -/
  | holding (handle : Nat)
  /-- It has ended or was dropped. -/
  | left
  deriving DecidableEq, Repr

/-- An execution with its status at the lane. -/
structure Job where
  execution : Execution
  lane : LaneStatus := .outside

/-- A pool and the executions that came through it, in the order in which they entered. -/
structure Runner where
  pool : Lane.Pool := {}
  jobs : List Job := []

/-- What came of something that happened at a runner: the live events of one job, and what it asks
for. A job that asks for a slot waits in the queue of its lane. -/
structure Response where
  runner : Runner
  events : List LiveEvent := []
  command : Option Command := none

namespace Runner

/-- The runner when nothing came of it. -/
def unmoved (f : Runner) : Response := { runner := f }

/-- Puts a job in its place. -/
def put (f : Runner) (i : Nat) (g : Job) : Runner :=
  { f with jobs := f.jobs.set i g }

/-- Gives up what a status has of the lane. -/
def vacate (f : Runner) : LaneStatus → Runner
  | .waiting ticket => { f with pool := (f.pool.apply (.abandon ticket)).1 }
  | .holding handle => { f with pool := (f.pool.apply (.drop handle)).1 }
  | .outside => f
  | .left => f

/-- Takes a move of a job at its lane into account: a job that has ended leaves. -/
def settle (f : Runner) (i : Nat) (lane : LaneStatus) (m : Move) : Response :=
  match m.command with
  | some .finish =>
    { runner := (f.vacate lane).put i ⟨m.execution, .left⟩
      events := m.events
      command := m.command }
  | command => { runner := f.put i ⟨m.execution, lane⟩, events := m.events, command }

/-- Passes the pool's answer to a job that wants a slot. -/
def answer (f : Runner) (now i : Nat) (x : Execution) (lane : LaneStatus) : Lane.Reply → Response
  | .handle h => f.settle i (.holding h.number) (x.on now .admitted)
  | .failed e => f.settle i .outside (x.on now (.refused e))
  | .ticket t => { runner := f.put i ⟨x, .waiting t⟩, command := some .acquire }
  | _ => { runner := f.put i ⟨x, lane⟩ }

/-- An execution enters; it is the last of the jobs. -/
def enter (f : Runner) (now : Nat) (setup : Setup) (messages : List Message) (cancelled : Bool) :
    Response :=
  let i := f.jobs.length
  let m := Execution.start now setup messages cancelled
  let f : Runner := { f with jobs := f.jobs ++ [⟨m.execution, .outside⟩] }
  match m.command with
  | some .acquire =>
    let (pool, reply) := f.pool.apply (.acquire setup.session)
    answer { f with pool } now i m.execution .outside reply
  | _ => f.settle i .outside m

/-- Something happens to a job. -/
def deliver (f : Runner) (now i : Nat) (s : Stimulus) : Response :=
  match f.jobs[i]?, s with
  | none, _ => f.unmoved
  | some _, .admitted => f.unmoved
  | some _, .refused _ => f.unmoved
  | some ⟨_, .left⟩, _ => f.unmoved
  | some ⟨x, lane⟩, s => f.settle i lane (x.on now s)

/-- A job that waits does something with its ticket. -/
def useTicket (f : Runner) (now i : Nat) (op : Nat → Lane.Op) : Response :=
  match f.jobs[i]? with
  | some ⟨x, .waiting t⟩ =>
    let (pool, reply) := f.pool.apply (op t)
    answer { f with pool } now i x (.waiting t) reply
  | _ => f.unmoved

/-- A job that waits looks into its box. -/
def collect (f : Runner) (now i : Nat) : Response :=
  f.useTicket now i .collect

/-- The time of a job that waits is up. -/
def expire (f : Runner) (now i waitedMs : Nat) : Response :=
  f.useTicket now i fun t => .expire t waitedMs

/-- A job is dropped, wherever it is. -/
def drop (f : Runner) (i : Nat) : Runner :=
  match f.jobs[i]? with
  | some ⟨x, lane⟩ => (f.vacate lane).put i ⟨x, .left⟩
  | none => f

/-- Somebody else uses the pool. -/
def use (f : Runner) (op : Lane.Op) : Runner × Lane.Reply :=
  let (pool, reply) := f.pool.apply op
  ({ f with pool }, reply)

end Runner

end TurnEngine.Run
