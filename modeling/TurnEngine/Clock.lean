/-!
# The time line

Moments and durations are counted in milliseconds. There are two kinds of waits. A sleep lasts
thirty years at most: one that is asked to last longer is over after that time. A time limit, put on
something that may end by itself, is as long as it says.
-/

namespace TurnEngine.Clock

/-- The longest sleep, thirty years. -/
def longestSleep : Nat := 30 * 365 * 24 * 60 * 60 * 1000

/-- How long a sleep lasts that is asked to last some time. -/
def sleepLength (ms : Nat) : Nat := min ms longestSleep

/-- The moment at which a sleep is over that begins now. -/
def after (now ms : Nat) : Nat := now + sleepLength ms

end TurnEngine.Clock
