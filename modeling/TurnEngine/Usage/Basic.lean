import TurnEngine.Saturating

/-!
# Token usage

Counts reported by a provider, used as a running total and as an addition to one. Every count is a
64-bit word and stays at its largest value when a sum does not fit.
-/

namespace TurnEngine

/-- Token counts. -/
structure Usage where
  input : UInt64 := 0
  output : UInt64 := 0
  cacheRead : UInt64 := 0
  cacheWrite : UInt64 := 0
  deriving DecidableEq, Repr

namespace Usage

/-- Adds count by count. -/
def add (u v : Usage) : Usage where
  input := u.input.addSat v.input
  output := u.output.addSat v.output
  cacheRead := u.cacheRead.addSat v.cacheRead
  cacheWrite := u.cacheWrite.addSat v.cacheWrite

instance : Add Usage := ⟨add⟩

/-- The sum of all counts. -/
def total (u : Usage) : UInt64 :=
  ((u.input.addSat u.output).addSat u.cacheRead).addSat u.cacheWrite

/-- Whether nothing was counted. -/
def isEmpty (u : Usage) : Bool :=
  u.total = 0

end Usage

end TurnEngine
