/-!
# The fewest decimal digits that name a binary64 number

A finite number is `m * 2 ^ q` with natural `m`. The reals that round to it form an interval
around it, and among the decimals `d * 10 ^ e` with few digits `d` the first grid with a point in
that interval names the number. `shortest` tries one digit, then two, and so on; on each grid it
looks at the two neighbours of the number and takes the nearer one that lies in the interval. Which
of two equally near ones it takes is for the format to say (`Tie`).

All arithmetic is on naturals: a comparison of `a * 10 ^ i` with `b * 2 ^ j` multiplies both sides
up until no exponent is negative.
-/

namespace TurnEngine

/-- The decimal number `digits * 10 ^ exponent`. -/
structure Decimal where
  digits : Nat
  exponent : Int
  deriving DecidableEq, Repr

namespace Decimal

/-- A finite binary number `m * 2 ^ q`; `narrowBelow` when the next smaller number is only half as
far away as the next larger one. -/
structure Binary where
  m : Nat
  q : Int
  narrowBelow : Bool
  deriving DecidableEq, Repr

/-- What becomes of a number in the middle between two points of a grid. -/
inductive Tie where
  /-- It goes to the point with an even last digit. -/
  | toEven
  /-- It goes to the larger point. -/
  | up
  deriving DecidableEq, Repr

/-- Whether a number in the middle goes to the point below it. -/
def Tie.goesDown (t : Tie) (below : Nat) : Bool :=
  match t with
  | .toEven => below % 2 = 0
  | .up => false

/-- The exponent field and the fraction field of binary64 bits. -/
def fields (bits : UInt64) : Nat × Nat :=
  (((bits >>> 52) &&& 0x7FF).toNat, (bits &&& 0xFFFFFFFFFFFFF).toNat)

/-- The magnitude of a finite binary64 number. -/
def Binary.ofBits (bits : UInt64) : Binary :=
  let (e, f) := fields bits
  if e = 0 then ⟨f, -1074, false⟩ else ⟨f + 0x10000000000000, (e : Int) - 1075, f = 0 && 1 < e⟩

/-- A natural quotient scale: `x * 10 ^ i * 2 ^ j` as numerator and denominator. -/
def ratio (x : Nat) (i j : Int) : Nat × Nat :=
  (x * Nat.pow 10 i.toNat * Nat.pow 2 j.toNat, Nat.pow 10 (-i).toNat * Nat.pow 2 (-j).toNat)

/-- Compares two quotients of naturals with positive denominators. -/
def ratioLe (a b : Nat × Nat) : Bool :=
  a.1 * b.2 ≤ b.1 * a.2

/-- Whether `d * 10 ^ e` lies in the interval of reals that round to `b`. The ends are four times
`b` less one or two units and plus two units, a quarter unit each; they belong to the interval
when `b.m` is even. -/
def Binary.named (b : Binary) (d : Nat) (e : Int) : Bool :=
  let low := ratio (4 * b.m - if b.narrowBelow then 1 else 2) 0 (b.q - 2)
  let high := ratio (4 * b.m + 2) 0 (b.q - 2)
  let x := ratio d e 0
  if b.m % 2 = 0 then ratioLe low x && ratioLe x high
  else !ratioLe x low && !ratioLe high x

/-- The number of decimal digits before the point: the least `k` with `b < 10 ^ k`, found from
the estimate by the bit length. -/
def Binary.magnitude (b : Binary) : Int :=
  let bits : Int := (Nat.log2 b.m : Int) + b.q
  -- the decimal logarithm of 2 is between 30102/100000 and 30103/100000
  let guess : Int := Int.fdiv (bits * 30103) 100000 - 1
  let steps := (List.range 5).map fun (i : Nat) => guess + (i : Int)
  match steps.find? fun k => !ratioLe (ratio 1 k 0) (ratio b.m 0 b.q) with
  | some k => k
  | none => guess

/-- The nearest point to `b` of the grid with `n` digits that names it. -/
def Binary.onGrid (b : Binary) (t : Tie) (k : Int) (n : Nat) : Option Decimal :=
  let e := k - n
  let (num, den) := ratio b.m (-e) b.q
  let below := num / den
  let twice := 2 * (num % den)
  let belowOk := b.named below e
  let aboveOk := b.named (below + 1) e
  if belowOk && aboveOk then
    if twice < den || (twice = den && t.goesDown below) then some ⟨below, e⟩
    else some ⟨below + 1, e⟩
  else if belowOk then some ⟨below, e⟩
  else if aboveOk then some ⟨below + 1, e⟩
  else none

/-- Moves the trailing zeros of the digits into the exponent. -/
def strip : Nat → Decimal → Decimal
  | 0, d => d
  | n + 1, d => if d.digits ≠ 0 && d.digits % 10 = 0 then
      strip n ⟨d.digits / 10, d.exponent + 1⟩ else d

/-- The shortest decimal that names a positive finite number. Seventeen digits always do. -/
def Binary.shortest (b : Binary) (t : Tie) : Decimal :=
  let k := b.magnitude
  match (List.range 17).findSome? fun i => b.onGrid t k (i + 1) with
  | some d => d.strip 20
  | none => ⟨0, 0⟩

end Decimal

end TurnEngine
