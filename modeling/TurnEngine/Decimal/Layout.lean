import TurnEngine.Decimal.Shortest

/-!
# Writing binary64 numbers

A `Layout` holds the decisions of a number format: which exponents are written with digits around
a point, what follows a whole number, and the texts of the values that are no numbers. The digits
are the fewest that name the number.
-/

namespace TurnEngine.Decimal

/-- The decisions of a number format. -/
structure Layout where
  /-- Which of two shortest decimals that are equally near is written. -/
  tie : Tie
  /-- The decimal exponents written positionally; `none` writes all of them so. -/
  positional : Option (Int × Int)
  /-- What follows a whole number written positionally. -/
  wholeSuffix : String
  notANumber : String
  infinity : String
  negativeInfinity : String

/-- The decimal digits of a natural number. -/
def digitsOf (n : Nat) : List Char :=
  Nat.toDigits 10 n

/-- Digits around a point, `point` of them before it. -/
def positionalText (suffix : String) (ds : List Char) (point : Int) : String :=
  let n : Int := ds.length
  if n ≤ point then
    String.ofList (ds ++ List.replicate (point - n).toNat '0') ++ suffix
  else if 0 < point then
    String.ofList (ds.take point.toNat ++ '.' :: ds.drop point.toNat)
  else
    "0." ++ String.ofList (List.replicate (-point).toNat '0' ++ ds)

/-- One digit before the point and a signed exponent. -/
def scientificText (ds : List Char) (exponent : Int) : String :=
  let mantissa := match ds with
    | d :: rest@(_ :: _) => String.ofList (d :: '.' :: rest)
    | ds => String.ofList ds
  mantissa ++ "e" ++ (if exponent < 0 then "-" else "+") ++ toString exponent.natAbs

/-- The text of a positive decimal. -/
def Layout.decimal (l : Layout) (d : Decimal) : String :=
  let ds := digitsOf d.digits
  let point : Int := ds.length + d.exponent
  match l.positional with
  | none => positionalText l.wholeSuffix ds point
  | some (least, most) =>
    if least ≤ point - 1 && point - 1 ≤ most then positionalText l.wholeSuffix ds point
    else scientificText ds (point - 1)

/-- The text of a binary64 number. -/
def Layout.text (l : Layout) (x : Float) : String :=
  let bits := x.toBits
  let (e, f) := fields bits
  let negative := bits >>> 63 = 1
  if e = 0x7FF then
    if f ≠ 0 then l.notANumber else if negative then l.negativeInfinity else l.infinity
  else
    let magnitude :=
      if e = 0 && f = 0 then "0" ++ l.wholeSuffix
      else l.decimal ((Binary.ofBits bits).shortest l.tie)
    if negative then "-" ++ magnitude else magnitude

/-- Numbers in messages: digits only, never an exponent, whole numbers without a point, a tie going
to the larger decimal. -/
def plain : Layout where
  tie := .up
  positional := none
  wholeSuffix := ""
  notANumber := "NaN"
  infinity := "inf"
  negativeInfinity := "-inf"

end TurnEngine.Decimal
