import TurnEngine.Conversation.Message
import TurnEngine.Wire.Form

/-!
# The wire form of conversations
-/

namespace TurnEngine.Wire

/-- A role. -/
def role : Form Role :=
  names Role.name [.user, .assistant, .system, .tool]

/-- A tool call. -/
def toolCall : Form ToolCall where
  read := record ["id", "name", "input"] fun f => do
    let id ← f.required "id" text
    let name ← f.required "name" text
    let input ← f.required "input" value
    return ⟨id, name, input⟩
  write c := .obj [("id", .str c.id), ("name", .str c.name), ("input", c.input)]

/-- A tool result. -/
def toolResult : Form ToolResult where
  read := record ["tool_call_id", "content", "is_error"] fun f => do
    let callId ← f.required "tool_call_id" text
    let content ← f.required "content" text
    let isError ← f.required "is_error" flag
    return ⟨callId, content, isError⟩
  write r :=
    .obj [("tool_call_id", .str r.callId), ("content", .str r.content),
      ("is_error", .bool r.isError)]

/-- The description of a tool. -/
def toolDescriptor : Form ToolDescriptor where
  read := record ["name", "description", "parameters_schema"] fun f => do
    let name ← f.required "name" text
    let description ← f.required "description" text
    let parameters ← f.required "parameters_schema" value
    return ⟨name, description, parameters⟩
  write t :=
    .obj [("name", .str t.name), ("description", .str t.description),
      ("parameters_schema", t.parameters)]

/-- An identifier. -/
def identifier : Form Identifier where
  read depth d := (text depth d).bind Identifier.parse
  write i := .str i.render

/-- An instant. -/
def timestamp : Form Calendar.Timestamp where
  read depth d := (text depth d).bind Calendar.Timestamp.parse
  write t := .str t.render

/-- A message as it is kept. Empty lists of calls and of results are left out. -/
def message : Form StampedMessage where
  read := record ["id", "role", "content", "tool_calls", "tool_results", "timestamp"] fun f => do
    let id ← f.required "id" identifier.read
    let role ← f.required "role" role.read
    let content ← f.required "content" text
    let toolCalls ← f.withDefault "tool_calls" (list toolCall.read) []
    let toolResults ← f.withDefault "tool_results" (list toolResult.read) []
    let timestamp ← f.required "timestamp" timestamp.read
    return ⟨id, ⟨role, content, toolCalls, toolResults⟩, timestamp⟩
  write m :=
    .obj ([("id", identifier.write m.id), ("role", role.write m.message.role),
        ("content", .str m.message.content)]
      ++ fieldIfAny "tool_calls" toolCall.write m.message.toolCalls
      ++ fieldIfAny "tool_results" toolResult.write m.message.toolResults
      ++ [("timestamp", timestamp.write m.timestamp)])

/-- The keys of a message, in order. -/
def messageKeys (m : Message) : List String :=
  ["id", "role", "content"]
    ++ (if m.toolCalls.isEmpty then [] else ["tool_calls"])
    ++ (if m.toolResults.isEmpty then [] else ["tool_results"])
    ++ ["timestamp"]

end TurnEngine.Wire
