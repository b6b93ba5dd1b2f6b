import TurnEngine.Conversation.Message
import TurnEngine.Failure.Basic
import TurnEngine.Listeners.Hub

/-!
# The protocol of a stream

One round trip goes through five stages. A step asks for the next stage; the table says which
steps there are, and any other is an illegal transition. Every step is announced to listeners: the
change of stage first, then what it was for. A `Step` keeps what was done before a failure, so
that a step that fails half way would show.

```text
idle → streaming
streaming → toolUse | done
toolUse → executing
executing → streaming | done
done → idle
```
-/

namespace TurnEngine

/-- Where a round trip stands. -/
inductive Stage where
  /-- Nothing was asked for. -/
  | idle
  /-- The answer comes in. -/
  | streaming
  /-- The arguments of a tool call come in. -/
  | toolUse
  /-- A tool call is complete. -/
  | executing
  /-- The answer is complete. -/
  | done
  deriving DecidableEq, Repr

namespace Stage

/-- The name of a stage in messages and events. -/
def name : Stage → String
  | .idle => "idle"
  | .streaming => "streaming"
  | .toolUse => "tool_use"
  | .executing => "executing"
  | .done => "done"

/-- All stages. -/
def all : List Stage :=
  [.idle, .streaming, .toolUse, .executing, .done]

/-- Whether the table has a step from one stage to another. -/
def allows : Stage → Stage → Bool
  | .idle, .streaming => true
  | .streaming, .toolUse => true
  | .streaming, .done => true
  | .toolUse, .executing => true
  | .executing, .streaming => true
  | .executing, .done => true
  | .done, .idle => true
  | _, _ => false

end Stage

/-- What listeners of a protocol machine are told. -/
inductive ProtocolEvent where
  | stageChange (source target : Stage)
  | text (text : String)
  | toolCallStart (id name : String)
  | toolCallEnd (call : ToolCall)

namespace Protocol

/-- The outcome of an operation: the stage afterwards, what was announced on the way, and the
failure that ended it, if one did. -/
structure Step where
  stage : Stage
  events : List ProtocolEvent := []
  failure : Option Failure := none

/-- The failure of a step that the table does not have. -/
def illegal (source target : Stage) : Failure :=
  .illegalTransition source.name target.name

/-- Nothing happens. -/
def rest (s : Stage) : Step := { stage := s }

/-- Something is announced. -/
def announce (s : Stage) (e : ProtocolEvent) : Step := { stage := s, events := [e] }

/-- One operation after another, unless the first one failed. -/
def Step.andThen (a : Step) (next : Stage → Step) : Step :=
  match a.failure with
  | some _ => a
  | none =>
    let b := next a.stage
    { b with events := a.events ++ b.events }

/-- Goes to a stage if the table allows it. -/
def transition (s target : Stage) : Step :=
  if s.allows target then { stage := target, events := [.stageChange s target] }
  else { stage := s, failure := some (illegal s target) }

/-- A request was sent. -/
def begin (s : Stage) : Step :=
  transition s .streaming

/-- After a complete call the answer goes on. -/
def resume (s : Stage) : Step :=
  if s = .executing then transition s .streaming else rest s

/-- A piece of text arrived. -/
def text (s : Stage) (fragment : String) : Step :=
  (resume s).andThen fun s =>
    if s = .streaming then announce s (.text fragment)
    else { stage := s, failure := some (illegal s .streaming) }

/-- A tool call begins. -/
def toolCallStart (s : Stage) (id name : String) : Step :=
  ((resume s).andThen fun s => transition s .toolUse).andThen fun s =>
    announce s (.toolCallStart id name)

/-- A tool call is complete. -/
def toolCallEnd (s : Stage) (call : ToolCall) : Step :=
  (transition s .executing).andThen fun s => announce s (.toolCallEnd call)

/-- A tool call is dropped unfinished. -/
def abandonToolCall (s : Stage) : Step :=
  transition s .executing

/-- The answer is complete. -/
def finish (s : Stage) : Step :=
  transition s .done

/-- Back to the start after an answer. -/
def reset (s : Stage) : Step :=
  transition s .idle

/-! ## Machines with listeners -/

/-- An operation of a machine. -/
inductive Op where
  | begin
  | text (fragment : String)
  | toolCallStart (id name : String)
  | toolCallEnd (call : ToolCall)
  | abandonToolCall
  | finish
  | reset
  | transition (target : Stage)

/-- What an operation does at a stage. -/
def Op.step : Op → Stage → Step
  | .begin, s => Protocol.begin s
  | .text fragment, s => Protocol.text s fragment
  | .toolCallStart id name, s => Protocol.toolCallStart s id name
  | .toolCallEnd call, s => Protocol.toolCallEnd s call
  | .abandonToolCall, s => Protocol.abandonToolCall s
  | .finish, s => Protocol.finish s
  | .reset, s => Protocol.reset s
  | .transition target, s => Protocol.transition s target

/-- What a listener does to its surroundings when it is told of an event. -/
structure Reaction (σ : Type) where
  /-- The world as the listener leaves it. -/
  world : σ
  /-- The numbers of the listeners it removes, its own perhaps among them. -/
  removed : List Nat := []

/-- What listeners do when they are told of an event, and how their calls end. -/
abbrev Behaviour (κ σ : Type) := κ → ProtocolEvent → σ → Except Panic Unit × Reaction σ

/-- Something that goes on between a machine and its listeners. -/
inductive Entry (κ : Type) where
  /-- A listener was registered under a number. -/
  | joined (n : Nat) (c : κ)
  /-- The listener with a number was removed by hand. -/
  | dismissed (n : Nat)
  /-- An event happened. -/
  | announced (e : ProtocolEvent)
  /-- The listener with a number was told of an event. -/
  | told (n : Nat) (c : κ) (e : ProtocolEvent)

/-- A stage with listeners, and the world that they may change. -/
structure Machine (κ σ : Type) where
  stage : Stage := .idle
  listeners : Hub κ := {}
  world : σ
  /-- What went on so far, in order. -/
  log : List (Entry κ) := []

namespace Machine

variable {κ σ : Type}

/-- Adds a listener; gives the number under which it can be removed. -/
def listen (m : Machine κ σ) (c : κ) : Nat × Machine κ σ :=
  let (n, listeners) := m.listeners.register c
  (n, { m with listeners, log := m.log ++ [.joined n c] })

/-- Removes the listener with a number. -/
def unlisten (m : Machine κ σ) (n : Nat) : Machine κ σ :=
  { m with listeners := m.listeners.unregister n, log := m.log ++ [.dismissed n] }

/-- The number of the first listener with a property. -/
def find? (m : Machine κ σ) (p : κ → Bool) : Option Nat :=
  (m.listeners.entries.find? fun e => p e.2).map (·.1)

/-- Tells one listener of an event. Its panic goes no further. -/
def tellOne (hear : Behaviour κ σ) (e : ProtocolEvent) (n : Nat) (c : κ) (m : Machine κ σ) :
    Machine κ σ :=
  let r := guarded (hear c e m.world)
  { m with
    listeners := r.removed.foldl Hub.unregister m.listeners
    world := r.world
    log := m.log ++ [.told n c e] }

/-- Tells all listeners of an event. -/
def tell (hear : Behaviour κ σ) (m : Machine κ σ) (e : ProtocolEvent) : Machine κ σ :=
  m.listeners.emitEach (tellOne hear e) { m with log := m.log ++ [.announced e] }

/-- Performs an operation and tells the listeners of everything on the way. -/
def perform (hear : Behaviour κ σ) (op : Op) (m : Machine κ σ) : Machine κ σ × Option Failure :=
  let step := op.step m.stage
  (step.events.foldl (tell hear) { m with stage := step.stage }, step.failure)

end Machine

end Protocol

end TurnEngine
