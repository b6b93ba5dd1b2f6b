import TurnEngine.Usage.Meter
import TurnEngine.Wire.Form

/-!
# The wire form of usage
-/

namespace TurnEngine.Wire

/-- A 64-bit word. -/
def ofWord64 (n : UInt64) : Json := nat n.toNat

/-- A 32-bit word. -/
def ofWord32 (n : UInt32) : Json := nat n.toNat

/-- Token counts; a missing count is zero. -/
def usage : Form Usage where
  read :=
    record ["input_tokens", "output_tokens", "cache_read_tokens", "cache_write_tokens"] fun f => do
      let input ← f.withDefault "input_tokens" word64 0
      let output ← f.withDefault "output_tokens" word64 0
      let cacheRead ← f.withDefault "cache_read_tokens" word64 0
      let cacheWrite ← f.withDefault "cache_write_tokens" word64 0
      return ⟨input, output, cacheRead, cacheWrite⟩
  write u :=
    .obj [("input_tokens", ofWord64 u.input), ("output_tokens", ofWord64 u.output),
      ("cache_read_tokens", ofWord64 u.cacheRead), ("cache_write_tokens", ofWord64 u.cacheWrite)]

/-- A warning of a usage meter. -/
def thresholdWarning : Form ThresholdWarning where
  read := record ["threshold", "ratio", "input_tokens", "context_window"] fun f => do
    let threshold ← f.required "threshold" number
    let ratio ← f.required "ratio" number
    let inputTokens ← f.required "input_tokens" word64
    let contextWindow ← f.required "context_window" word64
    return ⟨threshold, ratio, inputTokens, contextWindow⟩
  write w :=
    .obj [("threshold", .float w.threshold), ("ratio", .float w.ratio),
      ("input_tokens", ofWord64 w.inputTokens), ("context_window", ofWord64 w.contextWindow)]

end TurnEngine.Wire
