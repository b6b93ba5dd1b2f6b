import TurnEngine.Simulation.Backend
import TurnEngine.Simulation.Tools
import TurnEngine.Run.Runner

/-!
# Simulating executions

A timed runner is a runner with a clock, a scripted backend and scripted tools. A moment goes
by in rounds: a round serves those that have something to do in the order of the script, each until
it has to wait; whoever is woken by somebody before it is served in the same round, whoever is woken
by somebody behind it in the next one. When nobody has anything to do, the clock moves to the next
timer. What takes no time is done on the spot.
-/

namespace TurnEngine.Simulation

/-- An execution as a script has it. -/
structure Submission where
  /-- Its place in the script. -/
  label : Nat := 0
  setup : Run.Setup
  messages : List Message
  /-- When its caller's signal fires. -/
  signal : Signal := .never

/-- Something that is due. -/
inductive Wake where
  /-- An execution enters. -/
  | enter (submission : Submission)
  /-- The signal of a job fires. -/
  | signal (job : Nat)
  /-- A wait of a job is over, unless it was cut short. -/
  | wait (job number : Nat)
  /-- A job has a letter. -/
  | letter (job : Nat)
  /-- Somebody uses the pool. -/
  | lane (op : Lane.Op)

/-- Something that becomes due at a moment. -/
structure Timer where
  due : Nat
  wake : Wake

/-- What ends a wait of a job. -/
inductive WaitEnd where
  /-- Something happens to it. -/
  | happens (s : Run.Stimulus)
  /-- The time to wait for a slot is up. -/
  | timeUp (since : Nat)

/-- What a timed runner keeps of a job beyond what the runner keeps. -/
structure JobRecord where
  /-- Its place in the script. -/
  label : Nat := 0
  signal : Signal
  /-- What is left of the current stream. -/
  stream : List Item := []
  /-- The number of the current wait, and what ends it. -/
  waits : Nat := 0
  waitEnd : Option WaitEnd := none
  /-- What its listener heard and when, latest first. -/
  heard : List (Nat × Run.LiveEvent) := []
  endedAt : Option Nat := none

/-- What runs the tools. -/
inductive Executor where
  | toolbox (box : Toolbox)
  /-- The results of batch after batch; batches without results have none. -/
  | batches (results : List (List ToolResult))

/-- A runner in virtual time. -/
structure TimedRunner where
  now : Nat := 0
  runner : Run.Runner := {}
  backend : Backend := {}
  executor : Executor := .toolbox {}
  /-- One for every job of the runner. -/
  records : List JobRecord := []
  /-- In the order in which they become due. -/
  timers : List Timer := []
  /-- The place that this round serves or has served last. -/
  place : Nat := 0
  /-- The place of what is done to the pool: it comes behind all executions. -/
  poolPlace : Nat := 0
  /-- What is left to do in this round, by place. -/
  ready : List (Nat × Wake) := []
  /-- What is to do in the next round, by place. -/
  later : List (Nat × Wake) := []

namespace TimedRunner

/-! ## Rounds -/

/-- The record of a job. -/
def record (h : TimedRunner) (job : Nat) : JobRecord :=
  h.records[job]?.getD { signal := .never }

/-- The place in a round at which something is done: first the executions as the script has them,
then what is done to the pool. -/
def placeOf (h : TimedRunner) : Wake → Nat
  | .enter submission => submission.label + 1
  | .signal job => (h.record job).label + 1
  | .wait job _ => (h.record job).label + 1
  | .letter job => (h.record job).label + 1
  | .lane _ => h.poolPlace

/-- Puts something to do behind what has no later place. -/
def insertWake (w : Nat × Wake) : List (Nat × Wake) → List (Nat × Wake)
  | [] => [w]
  | v :: vs => if v.1 ≤ w.1 then v :: insertWake w vs else w :: v :: vs

/-- Gives somebody something to do, in this round if its place is still to come. -/
def rouse (h : TimedRunner) (w : Wake) : TimedRunner :=
  let p := h.placeOf w
  if h.place < p then { h with ready := insertWake (p, w) h.ready }
  else { h with later := insertWake (p, w) h.later }

/-! ## Timers -/

/-- Puts a timer behind those that are due no later. -/
def insertTimer (t : Timer) : List Timer → List Timer
  | [] => [t]
  | u :: us => if u.due ≤ t.due then u :: insertTimer t us else t :: u :: us

/-- Sets a timer; one that is due goes off at once. -/
def setTimer (h : TimedRunner) (due : Nat) (wake : Wake) : TimedRunner :=
  if due ≤ h.now then h.rouse wake
  else { h with timers := insertTimer ⟨due, wake⟩ h.timers }

/-! ## Letters -/

/-- The tickets with a letter in their box. -/
def lettered (r : Lane.Registry) : List Nat :=
  (r.callers.filter fun c => c.letter.isSome).map (·.ticket)

/-- The job that waits with a ticket. -/
def jobWith (f : Run.Runner) (ticket : Nat) : Option Nat :=
  f.jobs.findIdx? fun g => g.lane = .waiting ticket

/-- Moves on to a changed runner; jobs that got a letter are woken. -/
def setRunner (h : TimedRunner) (f : Run.Runner) : TimedRunner :=
  let had := lettered h.runner.pool.registry
  let new := (lettered f.pool.registry).filter fun t => !had.contains t
  (new.filterMap (jobWith f)).foldl (fun h job => h.rouse (.letter job)) { h with runner := f }

/-! ## Records -/

/-- Changes the record of a job. -/
def changeRecord (h : TimedRunner) (job : Nat) (f : JobRecord → JobRecord) : TimedRunner :=
  { h with records := h.records.modify job f }

/-- Whether the signal of a job has fired. -/
def isCancelled (h : TimedRunner) (job : Nat) : Bool :=
  (h.runner.jobs[job]?.map (·.execution.cancelled)).getD false

/-- When the signal of a job fires; its listener may have fired it before its time. -/
def signalOf (h : TimedRunner) (job : Nat) : Signal :=
  let s := (h.record job).signal
  if h.isCancelled job then s.fire h.now else s

/-- Takes down what came of something: the runner and what the job's listener heard. -/
def note (h : TimedRunner) (job : Nat) (r : Run.Response) : TimedRunner :=
  (h.setRunner r.runner).changeRecord job fun p =>
    { p with heard := (r.events.map fun e => (h.now, e)).reverse ++ p.heard }

/-! ## Commands -/

/-- What a command of a job leads to. -/
inductive Course where
  /-- A wait of some length, and what ends it. -/
  | waits (ms : Nat) (e : WaitEnd)
  /-- A wait until the next round, and what ends it. -/
  | yields (e : WaitEnd)
  /-- Nothing more by itself. -/
  | rests

/-- Runs the tools for a job. A batch that is looked at a second time ends in the next round, even
if it takes no time. -/
def runTools (h : TimedRunner) (job : Nat) (calls : List ToolCall) : TimedRunner × Course :=
  let answer (results : List ToolResult) : WaitEnd := .happens (.results results)
  match h.executor with
  | .toolbox box =>
    let b := box.runBatch h.now (h.signalOf job) calls
    let h := h.changeRecord job fun p => { p with signal := b.signal }
    let h := if b.signal.firedBy h.now then
        { h with runner := (h.runner.deliver h.now job .cancel).runner } else h
    if b.finish = h.now && b.pending then (h, .yields (answer b.results))
    else (h, .waits (b.finish - h.now) (answer b.results))
  | .batches [] => (h, .waits 0 (answer []))
  | .batches (rs :: rest) => ({ h with executor := .batches rest }, .waits 0 (answer rs))

/-- Carries out a command of a job. -/
def carryOut (h : TimedRunner) (job : Nat) : Run.Command → TimedRunner × Course
  | .acquire => (h, .waits h.runner.pool.registry.config.waitTimeoutMs.toNat (.timeUp h.now))
  | .openStream r =>
    let (backend, reply) := h.backend.ask r
    let items := match reply.stream with
      | .ok items => items
      | .error _ => []
    ({ h with backend }.changeRecord job fun p => { p with stream := items },
      .waits (Clock.sleepLength reply.opensAfterMs)
        (.happens (.opened (reply.stream.map fun _ => ()))))
  | .pull =>
    match (h.record job).stream with
    | [] => (h, .waits 0 (.happens (.item none)))
    | .never :: _ => (h, .rests)
    | .arrives ms item :: rest =>
      (h.changeRecord job fun p => { p with stream := rest },
        .waits (Clock.sleepLength ms) (.happens (.item (some item))))
  | .pause ms => (h, .waits (Clock.sleepLength ms) (.happens .awake))
  | .dispatch calls => h.runTools job calls
  | .finish => (h.changeRecord job fun p => { p with endedAt := some h.now }, .rests)

/-- What comes of the end of a wait. -/
def endWait (h : TimedRunner) (job : Nat) : WaitEnd → Run.Response
  | .happens s => h.runner.deliver h.now job s
  | .timeUp since => h.runner.expire h.now job (h.now - since)

/-- A job begins a new wait; what ends an earlier one counts no more. -/
def beginWait (h : TimedRunner) (job : Nat) (e : Option WaitEnd) : TimedRunner :=
  h.changeRecord job fun p => { p with waits := p.waits + 1, waitEnd := e }

/-- Serves a job after something happened to it: takes down what came of it and carries out
commands until one takes time, at most `n` of them. -/
def serve : (n : Nat) → TimedRunner → Nat → Run.Response → TimedRunner
  | 0, h, job, r => h.note job r
  | n + 1, h, job, r =>
    let h := h.note job r
    match r.command with
    | none => h
    | some c =>
      match h.carryOut job c with
      | (h, .rests) => h.beginWait job none
      | (h, .waits 0 e) => serve n h job (h.endWait job e)
      | (h, .waits ms e) =>
        let h := h.beginWait job (some e)
        h.setTimer (h.now + ms) (.wait job (h.record job).waits)
      | (h, .yields e) =>
        let h := h.beginWait job (some e)
        h.rouse (.wait job (h.record job).waits)

/-! ## Bounds -/

/-- The items of all streams that the backend has left. -/
def itemsLeft (h : TimedRunner) : Nat :=
  (h.backend.replies.entries.flatMap (·.2)).foldl (fun n r =>
    match r.stream with
    | .ok items => n + items.length
    | .error _ => n) 0

/-- The most commands an execution can give: in every attempt of every turn it opens a stream, reads
items up to its end, and pauses or has tools run. -/
def commandBound (h : TimedRunner) (s : Run.Setup) : Nat :=
  (s.turnLimit + 1) * (s.plan.maxAttempts + 1) * (h.itemsLeft + 4) + 4

/-- The most commands a job can give. -/
def jobBound (h : TimedRunner) (job : Nat) : Nat :=
  match h.runner.jobs[job]? with
  | some g => h.commandBound g.execution.setup + (h.record job).stream.length
  | none => 0

/-! ## Running -/

/-- An execution enters; it is the last of the jobs. -/
def enter (h : TimedRunner) (p : Submission) : TimedRunner :=
  let job := h.records.length
  let r := h.runner.enter h.now p.setup p.messages (p.signal.firedBy h.now)
  let h := { h with records := h.records ++ [{ label := p.label, signal := p.signal }] }
  let h := match p.signal.firesAt with
    | some t => if h.now < t then h.setTimer t (.signal job) else h
    | none => h
  serve (h.commandBound p.setup) h job r

/-- Does something that is due. -/
def wake (h : TimedRunner) : Wake → TimedRunner
  | .enter p => h.enter p
  | .signal job => serve (h.jobBound job) h job (h.runner.deliver h.now job .cancel)
  | .wait job number =>
    match h.record job with
    | { waits, waitEnd := some e, .. } =>
      if waits = number then serve (h.jobBound job) h job (h.endWait job e) else h
    | _ => h
  | .letter job => serve (h.jobBound job) h job (h.runner.collect h.now job)
  | .lane op => h.setRunner (h.runner.use op).1

/-- Moves the clock to the next timer; all timers that are due then go off. -/
def tick (h : TimedRunner) : Option TimedRunner :=
  match h.timers with
  | [] => none
  | t :: _ =>
    let due := h.timers.takeWhile fun u => u.due ≤ t.due
    let h := { h with
      now := max h.now t.due
      place := 0
      timers := h.timers.dropWhile fun u => u.due ≤ t.due }
    some (due.foldl (fun h u => h.rouse u.wake) h)

/-- Does the next thing of this round, or else of a new one, or else moves the clock; `none` if
there is nothing to do and no timer. -/
def step (h : TimedRunner) : Option TimedRunner :=
  match h.ready, h.later with
  | (place, w) :: ready, _ => some ({ h with place, ready }.wake w)
  | [], (place, w) :: later => some ({ h with place, ready := later, later := [] }.wake w)
  | [], [] => h.tick

/-- Runs until something holds, at most `n` steps. -/
def runUntil (done : TimedRunner → Bool) : (n : Nat) → TimedRunner → TimedRunner
  | 0, h => h
  | n + 1, h =>
    if done h then h
    else
      match h.step with
      | some h => runUntil done n h
      | none => h

/-- Whether a job has ended. -/
def hasEnded (h : TimedRunner) (job : Nat) : Bool :=
  (h.record job).endedAt.isSome

/-- How the execution of a job ended. -/
def outcome? (h : TimedRunner) (job : Nat) : Option (Except Failure (Run.Result Message)) :=
  match h.runner.jobs[job]? with
  | some ⟨{ phase := .ended outcome, .. }, _⟩ => some outcome
  | _ => none

/-- What the listener of a job heard and when. -/
def heard (h : TimedRunner) (job : Nat) : List (Nat × Run.LiveEvent) :=
  (h.record job).heard.reverse

end TimedRunner

end TurnEngine.Simulation
