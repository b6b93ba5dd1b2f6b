import TurnEngine.Run.Pairing

/-!
# Results answer their calls

Whatever results a batch of calls produces, every call gets exactly one result, in the order of the
calls, and it names that call (`map_callId_pairResults`).
-/

namespace TurnEngine.Run

/-- A call takes a result with its own id, or gets one made up for it. -/
theorem callId_takeResult (call : ToolCall) (produced : List ToolResult) :
    (takeResult call produced).1.callId = call.id := by
  unfold takeResult
  split
  · rfl
  · rename_i i hi
    obtain ⟨hlt, hid, -⟩ := List.findIdx?_eq_some_iff_getElem.1 hi
    rw [List.getElem?_eq_getElem hlt]
    exact of_decide_eq_true hid

theorem map_callId_pairResults (calls : List ToolCall) (produced : List ToolResult) :
    (pairResults calls produced).map (·.callId) = calls.map (·.id) := by
  induction calls generalizing produced with
  | nil => rfl
  | cons call calls ih =>
    simp only [pairResults, List.map_cons]
    rw [callId_takeResult, ih]

end TurnEngine.Run
