import TurnEngine.Stream.Event
import TurnEngine.Stream.Protocol
import TurnEngine.Wire.Usage

/-!
# The wire form of streams

A stream event is an object with its kind under `type` beside its fields; as an array, its kind
comes first. All of an event has to have a value, skipped fields included.
-/

namespace TurnEngine.Wire

open Json

/-- A stage of the protocol. -/
def stage : Form Stage :=
  names Stage.name Stage.all

/-- The kinds of stream events. -/
inductive EventKind where
  | textDelta
  | toolCallStart
  | toolCallDelta
  | toolCallEnd
  | usage
  | done
  deriving DecidableEq, Repr

namespace EventKind

/-- The name of a kind. -/
def name : EventKind → String
  | .textDelta => "text_delta"
  | .toolCallStart => "tool_call_start"
  | .toolCallDelta => "tool_call_delta"
  | .toolCallEnd => "tool_call_end"
  | .usage => "usage"
  | .done => "done"

/-- All kinds. -/
def all : List EventKind :=
  [.textDelta, .toolCallStart, .toolCallDelta, .toolCallEnd, .usage, .done]

/-- Reads the fields of an event of a kind. -/
def body : EventKind → Reader StreamEvent
  | .textDelta => record ["text"] fun f => do
    let text ← f.required "text" text
    return .textDelta text
  | .toolCallStart => record ["id", "name"] fun f => do
    let id ← f.required "id" text
    let name ← f.required "name" text
    return .toolCallStart id name
  | .toolCallDelta => record ["id", "arguments_delta"] fun f => do
    let id ← f.required "id" text
    let fragment ← f.required "arguments_delta" text
    return .toolCallDelta id fragment
  | .toolCallEnd => record ["id"] fun f => do
    let id ← f.required "id" text
    return .toolCallEnd id
  | .usage => record ["usage"] fun f => do
    let usage ← f.required "usage" Wire.usage.read
    return .usage usage
  | .done => record ["stop_reason"] fun f => do
    let stopReason ← f.withDefault "stop_reason" (maybe text) none
    return .done stopReason

end EventKind

/-- The kind under a string. -/
def eventKind? : Document → Option EventKind
  | .text s => named? EventKind.name EventKind.all s
  | _ => none

/-- Whether a key is the one of the kind. -/
def isTag (key : List Piece) : Bool :=
  string? key = some "type"

/-- Reads a stream event. -/
def readStreamEvent : Reader StreamEvent := fun depth d => do
  let _ ← d.value? depth
  match d with
  | .object fields =>
    match fields.filter fun f => isTag f.1 with
    | [(_, tag)] =>
      let kind ← eventKind? tag
      kind.body depth (.object (fields.filter fun f => !isTag f.1))
    | _ => none
  | .array (tag :: items) =>
    let kind ← eventKind? tag
    kind.body depth (.array items)
  | _ => none

/-- Writes a stream event. -/
def writeStreamEvent : StreamEvent → Json
  | .textDelta text => tagged .textDelta [("text", .str text)]
  | .toolCallStart id name => tagged .toolCallStart [("id", .str id), ("name", .str name)]
  | .toolCallDelta id fragment =>
    tagged .toolCallDelta [("id", .str id), ("arguments_delta", .str fragment)]
  | .toolCallEnd id => tagged .toolCallEnd [("id", .str id)]
  | .usage u => tagged .usage [("usage", Wire.usage.write u)]
  | .done stopReason => tagged .done (fieldIfSome "stop_reason" (stopReason.map .str))
where
  /-- An object with a kind. -/
  tagged (kind : EventKind) (fields : List (String × Json)) : Json :=
    .obj (("type", .str kind.name) :: fields)

/-- A stream event. -/
def streamEvent : Form StreamEvent := ⟨readStreamEvent, writeStreamEvent⟩

end TurnEngine.Wire
