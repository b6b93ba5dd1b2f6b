import TurnEngine.Conversation.Message
import TurnEngine.Json.Reader
import TurnEngine.Text.Blank

/-!
# Putting tool calls together

The arguments of a tool call arrive as fragments of a JSON text. At most one call is open at a
time; the start of another one supersedes it. When the call ends, its fragments are read as one
text: nothing but blanks, or no JSON at all, stands for no arguments.
-/

namespace TurnEngine

/-- A call whose arguments are still coming in. -/
structure OpenCall where
  id : String
  name : String
  /-- The fragments so far, joined. -/
  buffer : String := ""
  deriving DecidableEq, Repr

/-- The call that is open, if one is. -/
abbrev Assembler := Option OpenCall

namespace Assembler

/-- The arguments a text stands for. -/
def parseArguments (text : String) : Json :=
  if text.toList.all Text.isBlank then .empty
  else (Json.parse text).getD .empty

/-- Opens a call in place of one that may be open. -/
def start (_ : Assembler) (id name : String) : Assembler :=
  some { id, name }

/-- Appends to the open call, if there is one. -/
def push (a : Assembler) (fragment : String) : Assembler :=
  a.map fun call => { call with buffer := call.buffer ++ fragment }

/-- Appends several times over. -/
def pushAll (a : Assembler) (fragments : List String) : Assembler :=
  fragments.foldl push a

/-- The id of the open call. -/
def openId? (a : Assembler) : Option String :=
  a.map (·.id)

/-- Closes the open call, if there is one: the call with its arguments read. -/
def finish (a : Assembler) : Assembler × Option ToolCall :=
  (none, a.map fun call => ⟨call.id, call.name, parseArguments call.buffer⟩)

/-- Drops the open call, if there is one: its id. -/
def abandon (a : Assembler) : Assembler × Option String :=
  (none, a.openId?)

end Assembler

end TurnEngine
