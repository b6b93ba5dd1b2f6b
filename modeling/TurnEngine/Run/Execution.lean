import TurnEngine.Failure.Classifier
import TurnEngine.Listeners.Hub
import TurnEngine.Retry
import TurnEngine.Run.Config
import TurnEngine.Run.Pairing
import TurnEngine.Stream.RoundTrip

/-!
# Executions

An execution carries a conversation on, turn by turn: ask the model, put its answer together, run
the tools it asks for, hand back the results, and ask again, until an answer asks for no tools, the
turns are used up, the caller's signal fires, or a round trip fails for good.

An execution does nothing by itself. Whatever takes time is a `Command` to its surroundings, and
whatever happens is a `Stimulus` from them; between two stimuli it is suspended in a `Phase`. The
signal is one of the stimuli, and an event listener may fire it too. `Execution.on` is the whole
behaviour: the execution after a stimulus, the live events on the way, and the next command.
-/

namespace TurnEngine.Run

/-- What the model is asked. -/
structure Request where
  model : String
  systemPrompt : Option String
  messages : List Message
  tools : List ToolDescriptor

/-- How an execution ended. -/
inductive Status where
  /-- The last answer asked for no tools. -/
  | completed
  /-- The turns were used up. -/
  | maxTurns
  /-- The signal fired. -/
  | aborted
  /-- A round trip failed for good. -/
  | error
  deriving DecidableEq, Repr

/-- The name of a status. -/
def Status.name : Status → String
  | .completed => "completed"
  | .maxTurns => "max_turns"
  | .aborted => "aborted"
  | .error => "error"

/-- The outcome of an execution, over the kind of messages it keeps. -/
structure Result (μ : Type) where
  status : Status
  /-- The conversation: what was there before and what was added. -/
  messages : List μ
  /-- The usage of all successful round trips. -/
  usage : Usage
  /-- Turns begun. -/
  turns : Nat
  /-- From the start to the end, the wait for a slot included. -/
  durationMs : Nat
  /-- The message of the failure when a round trip failed for good. -/
  error : Option String

/-- The text of the last assistant message. -/
def finalText (messages : List Message) : Option String :=
  (messages.reverse.find? fun m => m.role = .assistant).map (·.content)

/-- A live event. -/
inductive LiveEvent where
  /-- An accepted event of the stream; usage counts what earlier turns used as well. -/
  | report (r : Report)
  | usageWarning (w : ThresholdWarning)
  /-- The last event, with the outcome. -/
  | done (result : Result Message)

/-- The name of the kind of a live event. -/
def LiveEvent.name : LiveEvent → String
  | .report (.textDelta _) => "text_delta"
  | .report (.toolCallStart ..) => "tool_call_start"
  | .report (.toolCallEnd _) => "tool_call_end"
  | .report (.usage _) => "usage"
  | .usageWarning _ => "usage_warning"
  | .done _ => "done"

/-- A listener for the live events of one execution: how its call for an event ends, and whether it
fired the caller's signal by then. -/
abbrev Listener := LiveEvent → Except Panic Unit × Bool

/-- Whether a listener fires the caller's signal when it hears an event. -/
def Listener.fires (l : Listener) (e : LiveEvent) : Bool :=
  guarded (l e)

/-- What an execution runs with. -/
structure Setup where
  config : Config := {}
  classify : Classifier := Classifier.standard
  /-- The key of its lane. -/
  session : String
  model : String
  systemPrompt : Option String := none
  tools : List ToolDescriptor := []
  /-- Turns allowed, if not those of the settings. -/
  maxTurns : Option UInt32 := none
  listener : Option Listener := none

/-- Where an execution is suspended. -/
inductive Phase where
  /-- It waits for a slot. -/
  | admission
  /-- It waits for the stream to open. -/
  | opening (round : RoundTrip)
  /-- It waits for the next item of the stream. -/
  | reading (round : RoundTrip)
  /-- It waits before the next attempt. -/
  | pausing
  /-- Its tools are running. -/
  | dispatching (calls : List ToolCall)
  /-- It is over. -/
  | ended (outcome : Except Failure (Result Message))

/-- An execution. -/
structure Execution where
  setup : Setup
  messages : List Message
  meter : Meter
  turns : Nat := 0
  /-- Attempts begun in this turn. -/
  attempt : Nat := 0
  /-- Whether the signal has fired. -/
  cancelled : Bool := false
  startedAt : Nat
  phase : Phase := .admission

/-- What an execution asks of its surroundings. -/
inductive Command where
  /-- A slot of its lane. -/
  | acquire
  /-- A stream. -/
  | openStream (r : Request)
  /-- The next item of the stream. -/
  | pull
  /-- A wait. -/
  | pause (ms : Nat)
  /-- The results of tool calls. -/
  | dispatch (calls : List ToolCall)
  /-- Nothing more: it has ended, and gives its slot back if it has one. -/
  | finish

/-- What happens to an execution. -/
inductive Stimulus where
  | admitted
  | refused (f : Failure)
  | opened (answer : Except Failure Unit)
  /-- An item of the stream, `none` at its end. -/
  | item (i : Option (Except Failure StreamEvent))
  | awake
  | results (rs : List ToolResult)
  | cancel

/-- An execution after a step: the live events of the step, and the command it ends with. -/
structure Move where
  execution : Execution
  events : List LiveEvent := []
  command : Option Command := none

namespace Setup

/-- Whether a failure of a round trip is worth another try. -/
def isRetryable (s : Setup) (f : Failure) : Bool :=
  Classifier.finds s.classify s.config.retryOn f

/-- How round trips are retried. -/
def plan (s : Setup) : Retry.Plan :=
  Retry.Plan.ofBackoff s.config.retry s.isRetryable

/-- The turns allowed. -/
def turnLimit (s : Setup) : Nat :=
  (s.maxTurns.getD s.config.maxTurns).toNat

end Setup

namespace Execution

/-- Tells the listener an event; it may fire the signal. -/
def tell (x : Execution) (e : LiveEvent) : Execution × List LiveEvent :=
  match x.setup.listener with
  | none => (x, [])
  | some listener => ({ x with cancelled := x.cancelled || listener.fires e }, [e])

/-- Tells the listener several events. -/
def tellAll (x : Execution) : List LiveEvent → Execution × List LiveEvent
  | [] => (x, [])
  | e :: es =>
    let (x, heard) := x.tell e
    let (x, more) := x.tellAll es
    (x, heard ++ more)

/-- A move after some events. -/
def afterEvents (events : List LiveEvent) (m : Move) : Move :=
  { m with events := events ++ m.events }

/-- Ends the execution with a result. -/
def conclude (now : Nat) (x : Execution) (status : Status) (error : Option String) : Move :=
  let result : Result Message :=
    { status
      messages := x.messages
      usage := x.meter.usage
      turns := x.turns
      durationMs := now - x.startedAt
      error }
  let (x, events) := { x with phase := .ended (.ok result) }.tell (.done result)
  { execution := x, events, command := some .finish }

/-- Ends the execution with a failure; nobody is told. -/
def refuse (x : Execution) (f : Failure) : Move :=
  { execution := { x with phase := .ended (.error f) }, command := some .finish }

/-- What the model is asked now. -/
def request (x : Execution) : Request :=
  ⟨x.setup.model, x.setup.systemPrompt, x.messages, x.setup.tools⟩

/-- An attempt of this turn failed. -/
def attemptFailed (now : Nat) (x : Execution) (f : Failure) : Move :=
  match x.setup.plan.verdict x.attempt f with
  | .giveUp =>
    if f.isCancelled then conclude now x .aborted none
    else conclude now x .error (some f.message)
  | .pause ms =>
    if x.cancelled then conclude now x .aborted none
    else { execution := { x with phase := .pausing }, command := some (.pause ms) }

/-- Begins an attempt. -/
def beginAttempt (now : Nat) (x : Execution) : Move :=
  if x.cancelled then conclude now x .aborted none
  else
    let x := { x with attempt := x.attempt + 1 }
    match RoundTrip.begin with
    | .error f => attemptFailed now x f
    | .ok round =>
      { execution := { x with phase := .opening round }, command := some (.openStream x.request) }

/-- Begins a turn, if there is one left. -/
def beginTurn (now : Nat) (x : Execution) : Move :=
  if x.cancelled then conclude now x .aborted none
  else if x.setup.turnLimit ≤ x.turns then conclude now x .maxTurns none
  else beginAttempt now { x with turns := x.turns + 1, attempt := 0 }

/-- The round trip of this turn succeeded. -/
def turnAnswered (now : Nat) (x : Execution) (round : RoundTrip) : Move :=
  let (warnings, meter) := (x.meter.add round.usage).check
  let (x, heard) := { x with meter }.tellAll (warnings.map .usageWarning)
  if round.calls.isEmpty then
    afterEvents heard
      (conclude now { x with messages := x.messages ++ [.assistant round.text] } .completed none)
  else
    let messages := x.messages ++ [.assistantWithTools round.text round.calls]
    { execution := { x with messages, phase := .dispatching round.calls }
      events := heard
      command := some (.dispatch round.calls) }

/-- The stream of this attempt ended. -/
def streamEnded (now : Nat) (x : Execution) (round : RoundTrip) : Move :=
  match round.finish with
  | .error f => attemptFailed now x f
  | .ok round => turnAnswered now x round

/-- Goes on to the next item of the stream, unless the signal has fired. -/
def pullNext (now : Nat) (x : Execution) (round : RoundTrip) : Move :=
  if x.cancelled then attemptFailed now x .cancelled
  else { execution := { x with phase := .reading round }, command := some .pull }

/-- What live listeners hear of a report: usage counts the earlier turns as well. -/
def liveReport (x : Execution) : Report → LiveEvent
  | .usage soFar => .report (.usage (x.meter.usage + soFar))
  | r => .report r

/-- An item of the stream arrived. -/
def itemArrived (now : Nat) (x : Execution) (round : RoundTrip) :
    Option (Except Failure StreamEvent) → Move
  | none => streamEnded now x round
  | some (.error f) => attemptFailed now x f
  | some (.ok e) =>
    match round.accept e with
    | .error f => attemptFailed now x f
    | .ok (round, reports) =>
      let (x, heard) := x.tellAll (reports.map x.liveReport)
      match e with
      | .done _ => afterEvents heard (streamEnded now x round)
      | _ => afterEvents heard (pullNext now x round)

/-- The signal fired. Tools that are running are let finish. -/
def signalled (now : Nat) (x : Execution) : Move :=
  let x := { x with cancelled := true }
  match x.phase with
  | .admission => conclude now x .aborted none
  | .opening _ => attemptFailed now x .cancelled
  | .reading _ => attemptFailed now x .cancelled
  | .pausing => conclude now x .aborted none
  | .dispatching _ => { execution := x }
  | .ended _ => { execution := x }

/-- What an execution does on a stimulus. One that does not fit the phase changes nothing. -/
def on (now : Nat) (x : Execution) : Stimulus → Move
  | .cancel => signalled now x
  | .admitted =>
    match x.phase with
    | .admission => beginTurn now x
    | _ => { execution := x }
  | .refused f =>
    match x.phase with
    | .admission => refuse x f
    | _ => { execution := x }
  | .opened answer =>
    match x.phase, answer with
    | .opening round, .ok () => pullNext now x round
    | .opening _, .error f => attemptFailed now x f
    | _, _ => { execution := x }
  | .item i =>
    match x.phase with
    | .reading round => itemArrived now x round i
    | _ => { execution := x }
  | .awake =>
    match x.phase with
    | .pausing => beginAttempt now x
    | _ => { execution := x }
  | .results rs =>
    match x.phase with
    | .dispatching calls =>
      beginTurn now { x with messages := x.messages ++ [.ofResults (pairResults calls rs)] }
    | _ => { execution := x }

/-- Begins an execution on a conversation; the signal may have fired before. -/
def start (now : Nat) (setup : Setup) (messages : List Message) (cancelled : Bool) : Move :=
  let x : Execution :=
    { setup
      messages
      meter := Meter.new setup.config.contextWindow setup.config.usageThresholds
      cancelled
      startedAt := now }
  match setup.config.validate with
  | .error f => refuse x f
  | .ok () =>
    if setup.turnLimit = 0 then refuse x noTurns
    else if cancelled then conclude now x .aborted none
    else { execution := x, command := some .acquire }

end Execution

end TurnEngine.Run
