import TurnEngine.Decimal.Layout
import TurnEngine.Json.Basic

/-!
# Writing JSON

The compact text of a value: no spaces, fields in the order the object has them. In a string only
the quote, the backslash and the control characters below U+0020 are escaped. A number that is not
whole keeps a point or an exponent; one that is not finite is written as null.
-/

namespace TurnEngine.Json

/-- Numbers in JSON text: digits around a point for decimal exponents -5 to 15, whole numbers with
`.0`, a tie going to the even decimal. -/
def numberLayout : Decimal.Layout where
  tie := .toEven
  positional := some (-5, 15)
  wholeSuffix := ".0"
  notANumber := "null"
  infinity := "null"
  negativeInfinity := "null"

/-- The lowercase hexadecimal digit of a number below 16. -/
def hexDigit (n : Nat) : Char :=
  if n < 10 then Char.ofNat ('0'.toNat + n) else Char.ofNat ('a'.toNat + (n - 10))

/-- A character between quotes. -/
def escape (c : Char) : List Char :=
  if c = '"' then ['\\', '"']
  else if c = '\\' then ['\\', '\\']
  else if c = '\x08' then ['\\', 'b']
  else if c = '\x0c' then ['\\', 'f']
  else if c = '\n' then ['\\', 'n']
  else if c = '\r' then ['\\', 'r']
  else if c = '\t' then ['\\', 't']
  else if c.toNat < 0x20 then
    ['\\', 'u', '0', '0', hexDigit (c.toNat / 16), hexDigit (c.toNat % 16)]
  else [c]

/-- A quoted string. -/
def quoted (s : List Char) : List Char :=
  '"' :: (s.flatMap escape ++ ['"'])

/-- The digits of a whole number, with a minus sign when it is negative. -/
def intText (n : Int) : List Char :=
  if n < 0 then '-' :: Decimal.digitsOf n.natAbs else Decimal.digitsOf n.natAbs

mutual

/-- The characters of a value. -/
def chars : Json → List Char
  | .null => ['n', 'u', 'l', 'l']
  | .bool true => ['t', 'r', 'u', 'e']
  | .bool false => ['f', 'a', 'l', 's', 'e']
  | .int n => intText n
  | .float x => (numberLayout.text x).toList
  | .str s => quoted s.toList
  | .arr [] => ['[', ']']
  | .arr (v :: vs) => '[' :: (chars v ++ itemChars vs)
  | .obj [] => ['{', '}']
  | .obj ((k, v) :: fs) => '{' :: (quoted k.toList ++ ':' :: (chars v ++ fieldChars fs))

/-- The rest of an array after an item. -/
def itemChars : List Json → List Char
  | [] => [']']
  | v :: vs => ',' :: (chars v ++ itemChars vs)

/-- The rest of an object after a field. -/
def fieldChars : List (String × Json) → List Char
  | [] => ['}']
  | (k, v) :: fs => ',' :: (quoted k.toList ++ ':' :: (chars v ++ fieldChars fs))

end

/-- The compact text of a value. -/
def render (v : Json) : String :=
  String.ofList v.chars

end TurnEngine.Json
