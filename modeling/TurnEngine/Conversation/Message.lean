import TurnEngine.Calendar.Timestamp
import TurnEngine.Conversation.Identifier
import TurnEngine.Json.Basic

/-!
# Messages and tools

A conversation is a list of messages. An assistant message may ask for tools; the results of one
batch of calls come back together in one tool message. A `StampedMessage` is a message as it is
kept: with an identifier and the time of its making.
-/

namespace TurnEngine

/-- Who wrote a message. -/
inductive Role where
  | user
  | assistant
  | system
  | tool
  deriving DecidableEq, Repr, Inhabited

/-- The name of a role. -/
def Role.name : Role → String
  | .user => "user"
  | .assistant => "assistant"
  | .system => "system"
  | .tool => "tool"

/-- A request of the model to run a tool. -/
structure ToolCall where
  id : String
  /-- The tool to run. -/
  name : String
  /-- Its arguments. -/
  input : Json
  deriving Inhabited

/-- The outcome of a call; a tool that failed says so in its result. -/
structure ToolResult where
  /-- The call that the result answers. -/
  callId : String
  content : String
  isError : Bool
  deriving DecidableEq, Repr

/-- A tool the model may call. -/
structure ToolDescriptor where
  name : String
  description : String
  /-- The schema of its arguments. -/
  parameters : Json
  deriving Inhabited

/-- An entry of a conversation. -/
structure Message where
  role : Role
  content : String
  toolCalls : List ToolCall := []
  toolResults : List ToolResult := []
  deriving Inhabited

namespace Message

/-- What a user says. -/
def user (content : String) : Message := { role := .user, content }

/-- What the model says. -/
def assistant (content : String) : Message := { role := .assistant, content }

/-- An instruction. -/
def system (content : String) : Message := { role := .system, content }

/-- What the model says while it asks for tools. -/
def assistantWithTools (content : String) (toolCalls : List ToolCall) : Message :=
  { role := .assistant, content, toolCalls }

/-- The results of one batch of calls. -/
def ofResults (toolResults : List ToolResult) : Message :=
  { role := .tool, content := "", toolResults }

/-- Whether the message asks for tools. -/
def hasToolCalls (m : Message) : Bool :=
  !m.toolCalls.isEmpty

end Message

/-- A message as it is kept. -/
structure StampedMessage where
  id : Identifier
  message : Message
  timestamp : Calendar.Timestamp

end TurnEngine
