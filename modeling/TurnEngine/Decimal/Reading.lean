/-!
# Reading decimals as binary64 numbers

A decimal is read from as many of its leading digits as fit in 64 bits. Their value is rounded
to a binary64 number once and then scaled by a power of ten with one multiplication or division,
each rounded on its own. Numbers of at most 15 digits with small exponents are read exactly
rounded; longer ones can be off by a unit in the last place. A number beyond the largest finite
one is refused.
-/

namespace TurnEngine.Decimal

/-- The binary64 number nearest to `10 ^ n`. -/
def powerOfTen (n : Nat) : Float :=
  Float.ofScientific 1 false n

/-- Scales by a power of ten: one step for exponents up to 308 either way; a smaller exponent
first divides by `10 ^ 308` as long as anything is left. `none` when the result is too large. -/
def scale (x : Float) (e : Int) : Option Float :=
  if e.natAbs ≤ 308 then
    if 0 ≤ e then
      let y := x * powerOfTen e.natAbs
      if y.isInf then none else some y
    else some (x / powerOfTen e.natAbs)
  else if x == 0 then some x
  else if 0 ≤ e then none
  else scale (x / powerOfTen 308) (e + 308)
termination_by e.natAbs

/-- Adds decimal digits to `acc` while the value fits in 64 bits; the digits left over are
returned. -/
def leadingDigits (acc : Nat) : List Nat → Nat × List Nat
  | [] => (acc, [])
  | d :: ds =>
    if acc * 10 + d < UInt64.size then leadingDigits (acc * 10 + d) ds else (acc, d :: ds)

/-- The value of an unsigned decimal with the given digits before and after the point, times
`10 ^ exponent`. Digits before the point that do not fit count as a power of ten, digits after
it that do not fit are dropped. -/
def ofDigits? (whole fraction : List Nat) (exponent : Int) : Option Float :=
  let (high, restWhole) := leadingDigits 0 whole
  let (value, restFraction) := leadingDigits high fraction
  scale (UInt64.ofNat value).toFloat
    (restWhole.length - (fraction.length - restFraction.length : Nat) + exponent)

end TurnEngine.Decimal
