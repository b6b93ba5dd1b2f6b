import TurnEngine.Conversation.Message

/-!
# Pairing results with calls

The results of a batch of tool calls are matched to the calls one call at a time: a call takes the
first result that carries its id, and the last result left fills the gap. A call without a result
gets one that says so; results that no call takes are dropped.
-/

namespace TurnEngine.Run

/-- Removes the item at an index; the last item takes its place. -/
def swapRemove {α : Type} (xs : List α) (i : Nat) : List α :=
  match xs.getLast? with
  | none => []
  | some last => (xs.set i last).dropLast

/-- The result of a call for which none was produced. -/
def missingResult (call : ToolCall) : ToolResult :=
  ⟨call.id, s!"tool '{call.name}' produced no result", true⟩

/-- The result for one call, and the results left. -/
def takeResult (call : ToolCall) (produced : List ToolResult) : ToolResult × List ToolResult :=
  match produced.findIdx? fun r => r.callId = call.id with
  | none => (missingResult call, produced)
  | some i => (produced[i]?.getD (missingResult call), swapRemove produced i)

/-- One result for every call, in the order of the calls. -/
def pairResults : List ToolCall → List ToolResult → List ToolResult
  | [], _ => []
  | call :: calls, produced =>
    let (r, left) := takeResult call produced
    r :: pairResults calls left

end TurnEngine.Run
