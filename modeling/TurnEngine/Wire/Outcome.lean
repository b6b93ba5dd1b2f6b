import TurnEngine.Run.Execution
import TurnEngine.Wire.Conversation
import TurnEngine.Wire.Settings

/-!
# The wire form of outcomes
-/

namespace TurnEngine.Wire

/-- A resolved model. -/
def model : Form Model where
  read := record ["model_id", "provider", "resolved_from"] fun f => do
    let modelId ← f.required "model_id" text
    let provider ← f.required "provider" text
    let resolvedFrom ← f.required "resolved_from" text
    return ⟨modelId, provider, resolvedFrom⟩
  write m :=
    .obj [("model_id", .str m.modelId), ("provider", .str m.provider),
      ("resolved_from", .str m.resolvedFrom)]

/-- An entry of an audit trail. -/
def attempt : Form Attempt where
  read := record ["model", "success", "error", "duration_ms"] fun f => do
    let model ← f.required "model" text
    let success ← f.required "success" flag
    let error ← f.optional "error" text
    let durationMs ← f.required "duration_ms" word64
    return ⟨model, success, error, durationMs⟩
  write a :=
    .obj [("model", .str a.model), ("success", .bool a.success),
      ("error", .ofOption .str a.error), ("duration_ms", ofWord64 a.durationMs)]

/-- A notice of a fallback chain. -/
def notice : Form Fallback.Notice where
  read := record ["previous_model", "next_model", "reason"] fun f => do
    let previousModel ← f.required "previous_model" text
    let nextModel ← f.required "next_model" text
    let reason ← f.required "reason" reason.read
    return ⟨previousModel, nextModel, reason⟩
  write n :=
    .obj [("previous_model", .str n.previousModel), ("next_model", .str n.nextModel),
      ("reason", reason.write n.reason)]

/-- The name of a state of a breaker. -/
def circuitName : Circuit → String
  | .closed => "closed"
  | .tripped => "open"
  | .halfOpen => "half_open"

/-- The state of a breaker. -/
def circuit : Form Circuit :=
  names circuitName [.closed, .tripped, .halfOpen]

/-- How an execution ended. -/
def status : Form Run.Status :=
  names Run.Status.name [.completed, .maxTurns, .aborted, .error]

/-- The result of an execution. -/
def result : Form (Run.Result StampedMessage) where
  read := record ["status", "messages", "usage", "turns", "duration_ms", "error"] fun f => do
    let status ← f.required "status" status.read
    let messages ← f.required "messages" (list message.read)
    let usage ← f.required "usage" usage.read
    let turns ← f.required "turns" word32
    let durationMs ← f.required "duration_ms" word64
    let error ← f.withDefault "error" (maybe text) none
    return ⟨status, messages, usage, turns.toNat, durationMs.toNat, error⟩
  write r :=
    .obj ([("status", status.write r.status), ("messages", .arr (r.messages.map message.write)),
        ("usage", usage.write r.usage), ("turns", nat r.turns), ("duration_ms", nat r.durationMs)]
      ++ fieldIfSome "error" (r.error.map .str))

end TurnEngine.Wire
