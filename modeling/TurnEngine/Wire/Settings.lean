import TurnEngine.Fallback.Chain
import TurnEngine.Lane.Basic
import TurnEngine.Run.Config
import TurnEngine.Wire.Usage

/-!
# The wire form of settings

Every setting has a default, which a missing field stands for.
-/

namespace TurnEngine.Wire

/-- A reason. -/
def reason : Form Reason :=
  names Reason.name Reason.all

/-- A list of reasons. -/
def reasons : Form (List Reason) where
  read := list reason.read
  write rs := .arr (rs.map reason.write)

/-- A back-off schedule. -/
def backoff : Form Backoff where
  read :=
    record ["max_retries", "backoff_base_ms", "backoff_max_ms", "factor", "jitter"] fun f => do
      let default : Backoff := {}
      let maxRetries ← f.withDefault "max_retries" word32 default.maxRetries
      let baseMs ← f.withDefault "backoff_base_ms" word64 default.baseMs
      let maxMs ← f.withDefault "backoff_max_ms" word64 default.maxMs
      let factor ← f.withDefault "factor" number default.factor
      let jitter ← f.withDefault "jitter" number default.jitter
      return ⟨maxRetries, baseMs, maxMs, factor, jitter⟩
  write b :=
    .obj [("max_retries", ofWord32 b.maxRetries), ("backoff_base_ms", ofWord64 b.baseMs),
      ("backoff_max_ms", ofWord64 b.maxMs), ("factor", .float b.factor),
      ("jitter", .float b.jitter)]

/-- The settings of breakers. -/
def breakerConfig : Form Breaker.Config where
  read := record ["failure_threshold", "reset_timeout_ms", "half_open_max_probes"] fun f => do
    let default : Breaker.Config := {}
    let failureThreshold ← f.withDefault "failure_threshold" word32 default.failureThreshold
    let resetTimeoutMs ← f.withDefault "reset_timeout_ms" word64 default.resetTimeoutMs
    let halfOpenMaxProbes ← f.withDefault "half_open_max_probes" word32 default.halfOpenMaxProbes
    return ⟨failureThreshold, resetTimeoutMs, halfOpenMaxProbes⟩
  write c :=
    .obj [("failure_threshold", ofWord32 c.failureThreshold),
      ("reset_timeout_ms", ofWord64 c.resetTimeoutMs),
      ("half_open_max_probes", ofWord32 c.halfOpenMaxProbes)]

/-- The settings of lanes. -/
def laneConfig : Form Lane.Config where
  read := record ["max_concurrent", "max_queue", "wait_timeout_ms"] fun f => do
    let default : Lane.Config := {}
    let maxConcurrent ← f.withDefault "max_concurrent" word64 default.maxConcurrent
    let maxQueue ← f.withDefault "max_queue" word64 default.maxQueue
    let waitTimeoutMs ← f.withDefault "wait_timeout_ms" word64 default.waitTimeoutMs
    return ⟨maxConcurrent, maxQueue, waitTimeoutMs⟩
  write c :=
    .obj [("max_concurrent", ofWord64 c.maxConcurrent), ("max_queue", ofWord64 c.maxQueue),
      ("wait_timeout_ms", ofWord64 c.waitTimeoutMs)]

/-- The settings of fallback chains. -/
def fallbackConfig : Form Fallback.Config where
  read := record ["max_retries_per_model", "backoff", "fallback_on"] fun f => do
    let default : Fallback.Config := {}
    let maxRetriesPerModel ← f.withDefault "max_retries_per_model" word32 default.maxRetriesPerModel
    let backoff ← f.withDefault "backoff" backoff.read default.backoff
    let fallbackOn ← f.withDefault "fallback_on" reasons.read default.fallbackOn
    return ⟨maxRetriesPerModel, backoff, fallbackOn⟩
  write c :=
    .obj [("max_retries_per_model", ofWord32 c.maxRetriesPerModel),
      ("backoff", backoff.write c.backoff), ("fallback_on", reasons.write c.fallbackOn)]

/-- The settings of runners. -/
def runConfig : Form Run.Config where
  read :=
    record ["max_turns", "retry", "context_window", "usage_thresholds", "retry_on"] fun f => do
      let default : Run.Config := {}
      let maxTurns ← f.withDefault "max_turns" word32 default.maxTurns
      let retry ← f.withDefault "retry" backoff.read default.retry
      let contextWindow ← f.withDefault "context_window" word64 default.contextWindow
      let usageThresholds ←
        f.withDefault "usage_thresholds" (list number) default.usageThresholds
      let retryOn ← f.withDefault "retry_on" reasons.read default.retryOn
      return ⟨maxTurns, retry, contextWindow, usageThresholds, retryOn⟩
  write c :=
    .obj [("max_turns", ofWord32 c.maxTurns), ("retry", backoff.write c.retry),
      ("context_window", ofWord64 c.contextWindow),
      ("usage_thresholds", .arr (c.usageThresholds.map .float)),
      ("retry_on", reasons.write c.retryOn)]

end TurnEngine.Wire
