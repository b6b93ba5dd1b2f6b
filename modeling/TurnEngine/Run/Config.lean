import TurnEngine.Backoff
import TurnEngine.Decimal.Layout
import TurnEngine.Failure.Basic
import TurnEngine.Usage.Meter

/-!
# Settings of a run

What every execution of a runner has in common, and which settings a runner refuses.
-/

namespace TurnEngine.Run

/-- The settings of a runner. -/
structure Config where
  /-- Turns of an execution unless it says otherwise. -/
  maxTurns : UInt32 := 20
  /-- How a round trip is retried. -/
  retry : Backoff := {}
  /-- The context window in tokens. -/
  contextWindow : UInt64 := 200000
  /-- The fractions of the window that warn once each. -/
  usageThresholds : List Float := defaultThresholds
  /-- The reasons worth another try of a round trip. -/
  retryOn : List Reason := [.rateLimit, .serverError, .timeout, .modelUnavailable]

/-- The failure of a run without turns. -/
def noTurns : Failure :=
  .config "max_turns must be at least 1"

/-- Refuses settings that a runner cannot work with. -/
def Config.validate (c : Config) : Except Failure Unit :=
  if c.maxTurns = 0 then .error noTurns
  else
    match c.usageThresholds.find? fun t => !Meter.isFraction t with
    | some bad =>
      .error (.config s!"usage threshold {Decimal.plain.text bad} is outside (0, 1]")
    | none => .ok ()

end TurnEngine.Run
