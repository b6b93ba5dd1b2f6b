import TurnEngine.Json.Printer
import TurnEngine.Signal
import TurnEngine.Conversation.Message
import TurnEngine.Table

/-!
# Scripted tools

Tools that behave as a script says, and batches of calls in virtual time: the calls of a batch
begin together, in order, and run side by side until the last one is done. A call whose sleep is cut
short at the moment at which it began takes no time, but it has to wait.
-/

namespace TurnEngine.Simulation

/-- How a tool behaves. -/
structure Tool where
  /-- It fires the caller's signal when it begins. -/
  firesSignal : Bool := false
  /-- How long it sleeps, in milliseconds. -/
  sleepsMs : Option Nat := none
  /-- Whether the signal cuts its sleep short. -/
  interruptible : Bool := false
  /-- Whether it tells if the signal has fired. -/
  tellsSignal : Bool := false
  /-- Whether it tells the time. -/
  tellsTime : Bool := false
  /-- What it says otherwise; its arguments if nothing is given. -/
  content : Option String := none
  /-- Whether what it says otherwise is an error. -/
  isError : Bool := false

/-- How a call went. -/
structure CallCourse where
  result : ToolResult
  finish : Nat
  /-- Whether it had to wait, be it for no time. -/
  waited : Bool
  deriving DecidableEq

/-- How a batch went. -/
structure BatchCourse where
  results : List ToolResult
  finish : Nat
  signal : Signal
  /-- Whether the batch is looked at a second time before it ends. -/
  pending : Bool

namespace Tool

/-- The signal after the tool began. -/
def signalAfter (t : Tool) (now : Nat) (s : Signal) : Signal :=
  if t.firesSignal then s.fire now else s

/-- The result of a tool whose sleep was cut short. -/
def interrupted (call : ToolCall) : ToolResult :=
  ⟨call.id, "interrupted", true⟩

/-- The result of a tool that ends at a moment, knowing whether the signal has fired. -/
def result (t : Tool) (call : ToolCall) (now : Nat) (fired : Bool) : ToolResult :=
  if t.tellsSignal then ⟨call.id, s!"cancelled={fired}", false⟩
  else if t.tellsTime then ⟨call.id, s!"t={now}", false⟩
  else ⟨call.id, t.content.getD call.input.render, t.isError⟩

/-- Runs one call of a batch that begins now. The call sees the signal as the calls before it left
it (`early`) when it begins, and as all calls left it (`late`) once it has waited. -/
def run (t : Tool) (now : Nat) (early late : Signal) (call : ToolCall) : CallCourse :=
  let ms := t.sleepsMs.getD 0
  if t.interruptible && t.sleepsMs.isSome && early.firedBy now then
    ⟨interrupted call, now, false⟩
  else if ms = 0 then ⟨t.result call now (early.firedBy now), now, false⟩
  else if t.interruptible then
    match late.sleep now ms with
    | .cancelled finish => ⟨interrupted call, finish, true⟩
    | .elapsed finish => ⟨t.result call finish (late.firedBy finish), finish, true⟩
  else
    let finish := Clock.after now ms
    ⟨t.result call finish (late.firedBy finish), finish, true⟩

end Tool

/-- Tools by name. -/
abbrev Toolbox := Table Tool

namespace Toolbox

/-- The tool of a call; one that the box does not have hands its arguments back. -/
def toolOf (box : Toolbox) (call : ToolCall) : Tool :=
  (box.get? call.name).getD {}

/-- The signal as the beginnings of some calls leave it. -/
def signalAfter (box : Toolbox) (now : Nat) (s : Signal) (calls : List ToolCall) : Signal :=
  calls.foldl (fun s call => (box.toolOf call).signalAfter now s) s

/-- Runs the calls of a batch, `early` being the signal before the first of them. -/
def runCalls (box : Toolbox) (now : Nat) (late : Signal) : Signal → List ToolCall →
    List CallCourse
  | _, [] => []
  | early, call :: calls =>
    let t := box.toolOf call
    let early := t.signalAfter now early
    t.run now early late call :: runCalls box now late early calls

/-- The size up to which a batch is looked at in rounds, all of its calls in every round. A larger
one looks at a call again as soon as something happens to it. -/
def roundSize : Nat := 30

/-- Runs a batch. -/
def runBatch (box : Toolbox) (now : Nat) (s : Signal) (calls : List ToolCall) : BatchCourse :=
  let late := box.signalAfter now s calls
  let ends := box.runCalls now late s calls
  { results := ends.map (·.result)
    finish := ends.foldl (fun t e => max t e.finish) now
    signal := late
    pending := ends.any (·.waited) && calls.length ≤ roundSize }

end Toolbox

end TurnEngine.Simulation
