import TurnEngine.Stream.Assembler
import TurnEngine.Stream.Event
import TurnEngine.Stream.Protocol

/-!
# Round trips

A round trip takes in the events of one stream, one at a time: the protocol checks their order,
the assembler puts tool calls together, and text, calls and usage pile up. What live listeners
hear of an event is a `Report`.
-/

namespace TurnEngine

/-- What is said about an accepted event while the stream is still running. -/
inductive Report where
  | textDelta (text : String)
  | toolCallStart (id name : String)
  | toolCallEnd (call : ToolCall)
  /-- The usage of the round trip so far. -/
  | usage (soFar : Usage)

/-- A round trip under way. -/
structure RoundTrip where
  stage : Stage := .idle
  assembler : Assembler := none
  text : String := ""
  calls : List ToolCall := []
  usage : Usage := {}
  stopReason : Option String := none

namespace RoundTrip

/-- The round trip after an operation of the protocol. -/
def advance (r : RoundTrip) (step : Protocol.Step) : Except Failure RoundTrip :=
  match step.failure with
  | some f => .error f
  | none => .ok { r with stage := step.stage }

/-- A new round trip whose request was sent. -/
def begin : Except Failure RoundTrip :=
  let r : RoundTrip := {}
  r.advance (Protocol.begin r.stage)

/-- Drops the open call, if there is one. -/
def abandon (r : RoundTrip) : Except Failure RoundTrip :=
  match r.assembler.abandon with
  | (_, none) => .ok r
  | (assembler, some _) => { r with assembler }.advance (Protocol.abandonToolCall r.stage)

/-- Takes in one event. -/
def accept (r : RoundTrip) : StreamEvent → Except Failure (RoundTrip × List Report)
  | .textDelta text => do
    let r ← r.advance (Protocol.text r.stage text)
    return ({ r with text := r.text ++ text }, [.textDelta text])
  | .toolCallStart id name => do
    let r ← r.abandon
    let r ← r.advance (Protocol.toolCallStart r.stage id name)
    return ({ r with assembler := r.assembler.start id name }, [.toolCallStart id name])
  | .toolCallDelta _ fragment => return ({ r with assembler := r.assembler.push fragment }, [])
  | .toolCallEnd _ =>
    match r.assembler.finish with
    | (_, none) => return (r, [])
    | (assembler, some call) => do
      let r ← { r with assembler }.advance (Protocol.toolCallEnd r.stage call)
      return ({ r with calls := r.calls ++ [call] }, [.toolCallEnd call])
  | .usage usage =>
    let total := r.usage + usage
    return ({ r with usage := total }, [.usage total])
  | .done stopReason => return ({ r with stopReason }, [])

/-- Closes a round trip whose stream ended: a call still open is dropped. -/
def finish (r : RoundTrip) : Except Failure RoundTrip := do
  let r ← r.abandon
  r.advance (Protocol.finish r.stage)

end RoundTrip

end TurnEngine
