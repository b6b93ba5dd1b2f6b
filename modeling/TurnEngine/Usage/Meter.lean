import TurnEngine.Usage.Basic

/-!
# Usage meters

A meter adds up the usage of one execution and warns when the input tokens reach a fraction of the
context window. Its thresholds stand in ascending order, each once, and each warns once.
-/

namespace TurnEngine

/-- A warning that a threshold was reached. -/
structure ThresholdWarning where
  /-- The fraction of the window that was reached. -/
  threshold : Float
  /-- The fraction in use at the check. -/
  ratio : Float
  inputTokens : UInt64
  contextWindow : UInt64
  deriving DecidableEq, Repr

/-- The thresholds of a meter that was given none. -/
def defaultThresholds : List Float := [0.8, 0.95]

/-- A threshold of a meter, and whether it has warned. -/
structure Threshold where
  value : Float
  fired : Bool := false

/-- A running total with thresholds. -/
structure Meter where
  usage : Usage := {}
  contextWindow : UInt64
  thresholds : List Threshold

namespace Meter

/-- Whether a number is above zero and at most one. -/
def isFraction (x : Float) : Bool :=
  0 < x && x ≤ 1

/-- Puts a number at its place among ascending ones, unless it is there. -/
def insertThreshold (x : Float) : List Float → List Float
  | [] => [x]
  | y :: ys => if x < y then x :: y :: ys else if x == y then y :: ys else y :: insertThreshold x ys

/-- A meter with some thresholds; numbers that are no fractions are left out. -/
def new (contextWindow : UInt64) (thresholds : List Float) : Meter where
  contextWindow
  thresholds :=
    ((thresholds.filter isFraction).foldl (fun acc x => insertThreshold x acc) []).map
      ({ value := · })

/-- Counts more usage. -/
def add (m : Meter) (delta : Usage) : Meter :=
  { m with usage := m.usage + delta }

/-- The fraction of the window that the input tokens take up; zero without a window. -/
def ratio (m : Meter) : Float :=
  if m.contextWindow = 0 then 0 else m.usage.input.toFloat / m.contextWindow.toFloat

/-- The tokens left in the window. -/
def remaining (m : Meter) : UInt64 :=
  m.contextWindow.subSat m.usage.input

/-- Whether a threshold is due: it has not warned and the fraction in use is not below it. -/
def isDue (m : Meter) (t : Threshold) : Bool :=
  !t.fired && !(m.ratio < t.value)

/-- The warning of a threshold at this moment. -/
def warning (m : Meter) (t : Threshold) : ThresholdWarning :=
  ⟨t.value, m.ratio, m.usage.input, m.contextWindow⟩

/-- Warns of every threshold that is due, lowest first. -/
def check (m : Meter) : List ThresholdWarning × Meter :=
  ((m.thresholds.filter m.isDue).map m.warning,
    { m with thresholds := m.thresholds.map fun t => { t with fired := t.fired || m.isDue t } })

/-- Goes through thresholds in order: one that is due is marked, told to a listener on the spot, and
counted. -/
def warnEach {σ : Type} (m : Meter) (tell : ThresholdWarning → σ → σ) :
    List Threshold → σ → Nat × List Threshold × σ
  | [], s => (0, [], s)
  | t :: ts, s =>
    if m.isDue t then
      let (n, ts, s) := m.warnEach tell ts (tell (m.warning t) s)
      (n + 1, { t with fired := true } :: ts, s)
    else
      let (n, ts, s) := m.warnEach tell ts s
      (n, t :: ts, s)

/-- A check before a listener: how many warnings it was told, the meter, and what the listener left
behind. -/
def checkBefore {σ : Type} (m : Meter) (tell : ThresholdWarning → σ → σ) (s : σ) :
    Nat × Meter × σ :=
  let (n, thresholds, s) := m.warnEach tell m.thresholds s
  (n, { m with thresholds }, s)

end Meter

end TurnEngine
