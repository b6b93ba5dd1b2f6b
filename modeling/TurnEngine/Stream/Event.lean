import TurnEngine.Usage.Basic

/-!
# Stream events

What a provider sends while it answers one request, in order, and the ready-made streams of two
plain answers.
-/

namespace TurnEngine

/-- An item of a provider's stream. -/
inductive StreamEvent where
  /-- A piece of the assistant's text. -/
  | textDelta (text : String)
  /-- A tool call begins. -/
  | toolCallStart (id name : String)
  /-- A piece of the text of a call's arguments. -/
  | toolCallDelta (id fragment : String)
  /-- A call's arguments are complete. -/
  | toolCallEnd (id : String)
  /-- Tokens counted since the last such event. -/
  | usage (usage : Usage)
  /-- The answer is finished. -/
  | done (stopReason : Option String)
  deriving DecidableEq, Repr

namespace StreamEvent

/-- The stream of a plain text answer. -/
def textTurn (text : String) : List StreamEvent :=
  [.textDelta text, .done (some "end_turn")]

/-- Cuts a text after a number of bytes, if a character ends there. -/
def cutAt : Nat → List Char → Option (List Char × List Char)
  | 0, cs => some ([], cs)
  | _ + 1, [] => none
  | n + 1, c :: cs =>
    if c.utf8Size ≤ n + 1 then
      (cutAt (n + 1 - c.utf8Size) cs).map fun p => (c :: p.1, p.2)
    else none

/-- The two fragments of a text: its halves by bytes, or all of it and nothing where the middle
falls into a character. -/
def halves (text : String) : String × String :=
  match cutAt (text.utf8ByteSize / 2) text.toList with
  | some (head, tail) => (String.ofList head, String.ofList tail)
  | none => (text, "")

/-- The stream of a single tool call whose arguments come in two fragments. -/
def toolTurn (id name arguments : String) : List StreamEvent :=
  let (head, tail) := halves arguments
  [.toolCallStart id name, .toolCallDelta id head, .toolCallDelta id tail, .toolCallEnd id,
    .done (some "tool_use")]

end StreamEvent

end TurnEngine
