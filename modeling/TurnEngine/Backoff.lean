import TurnEngine.Decimal.Reading

/-!
# Back-off

How long to wait before a call is made again: delays grow by a factor from a base, are capped, may
be jittered by a fraction either way, and never fall below what the server asked for.
-/

namespace TurnEngine

/-- A schedule of delays with a budget of retries. -/
structure Backoff where
  /-- Retries after the first attempt. -/
  maxRetries : UInt32 := 3
  /-- The delay before the first retry, in milliseconds. -/
  baseMs : UInt64 := 500
  /-- The largest computed delay, in milliseconds. -/
  maxMs : UInt64 := 30000
  /-- How much a delay is longer than the one before. -/
  factor : Float := 2.0
  /-- The jitter, as a fraction of a delay. -/
  jitter : Float := 0.0

namespace Backoff

/-- No delay between attempts. -/
def immediate (maxRetries : UInt32) : Backoff :=
  { maxRetries, baseMs := 0, maxMs := 0, factor := 1.0, jitter := 0.0 }

/-- All attempts, the first one included; the count stays at the largest 32-bit word. -/
def maxAttempts (b : Backoff) : UInt32 :=
  if b.maxRetries = 4294967295 then b.maxRetries else b.maxRetries + 1

/-- All attempts of a schedule: one more than its retries, as far as a word can count them. -/
theorem toNat_maxAttempts (b : Backoff) :
    b.maxAttempts.toNat = min (b.maxRetries.toNat + 1) (UInt32.size - 1) := by
  have hb := b.maxRetries.toNat_lt
  unfold maxAttempts
  split
  · rename_i h
    rw [h]
    rfl
  · rename_i h
    have hne : b.maxRetries.toNat ≠ 4294967295 := fun he => h (UInt32.toNat_inj.1 he)
    simp only [UInt32.size, UInt32.toNat_add, UInt32.toNat_one]
    omega

/-- A power by repeated squaring, every product rounded: the square of the base joins the result
for each binary digit one of the exponent, lowest digit first. -/
def power (x : Float) (n : Nat) : Float :=
  go 1.0 x n
where
  /-- `acc` times the power. -/
  go (acc x : Float) (n : Nat) : Float :=
    if n = 0 then acc
    else if n = 1 then acc * x
    else go (if n % 2 = 1 then acc * x else acc) (x * x) (n / 2)
  termination_by n

/-- The smaller number; a NaN does not count. -/
def lesser (x y : Float) : Float :=
  if x.isNaN then y else if y.isNaN then x else if y < x then y else x

/-- The larger number; a NaN does not count. -/
def greater (x y : Float) : Float :=
  if x.isNaN then y else if y.isNaN then x else if x < y then y else x

/-- The growth in use: a factor that is not finite or below one does not grow. -/
def growth (b : Backoff) : Float :=
  if b.factor.isFinite && 1 ≤ b.factor then b.factor else 1

/-- The delay before retry `index` (the first is 0) without jitter, in milliseconds. The fraction
is cut off, and a number beyond the largest word gives that word. -/
def baseDelay (b : Backoff) (index : Nat) : Nat :=
  let grown := b.baseMs.toFloat * power b.growth (min index 63)
  (greater (lesser grown b.maxMs.toFloat) 0).toUInt64.toNat

/-- The delay before retry `index`, given where in its jitter it falls (a fraction between minus
and plus the jitter), and never below the least wait the server asked for. -/
def delay (b : Backoff) (offset : Float) (index : Nat) (serverMinMs : Option Nat) : Nat :=
  let plain := b.baseDelay index
  let jittered :=
    if 0 < b.jitter && plain ≠ 0 then
      let x := (UInt64.ofNat plain).toFloat * (1 + offset)
      (lesser (greater x 0) b.maxMs.toFloat).toUInt64.toNat
    else plain
  max jittered (serverMinMs.getD 0)

/-- The widest jitter in use: at most the delay itself. -/
def spread (b : Backoff) : Float :=
  lesser b.jitter 1

/-- The delays at `n` offsets, the middles of `n` equal parts of the jitter. -/
def samples (b : Backoff) (n index : Nat) (serverMinMs : Option Nat) : List Nat :=
  (List.range n).map fun i =>
    let place := (UInt64.ofNat (2 * i + 1)).toFloat / (UInt64.ofNat n).toFloat - 1
    b.delay (b.spread * place) index serverMinMs

end Backoff

end TurnEngine
