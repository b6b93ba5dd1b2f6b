import TurnEngine.Json.Basic

/-!
# JSON documents

A `Document` is a JSON text taken apart and not yet understood: numbers are still digits, strings
are still escapes, and an object has its fields in the order of the text, repeated ones included.
`value?` turns it into a value. What a reader of records skips over need not have a value: a
number may be too large for any word, a string may hold half a surrogate pair, and only what is
kept counts towards the nesting limit.
-/

namespace TurnEngine.Json

/-- A number as written. -/
structure Numeral where
  negative : Bool
  whole : List Nat
  fraction : Option (List Nat)
  exponent : Option (Bool × List Nat)
  deriving Repr, DecidableEq

/-- A part of a string as written: a character, or the code unit of a `\u` escape. -/
inductive Piece where
  | char (c : Char)
  | unit (n : Nat)
  deriving Repr, DecidableEq

/-- A JSON text taken apart. -/
inductive Document where
  | null
  | bool (b : Bool)
  | number (n : Numeral)
  | text (s : List Piece)
  | array (items : List Document)
  | object (fields : List (List Piece × Document))
  deriving Inhabited

/-! ## Numbers -/

/-- The number of some decimal digits. -/
def ofDigits (ds : List Nat) : Nat :=
  ds.foldl (fun n d => 10 * n + d) 0

/-- The exponent of ten a numeral is scaled by. -/
def Numeral.scale (n : Numeral) : Int :=
  match n.exponent with
  | none => 0
  | some (true, ds) => -(ofDigits ds : Int)
  | some (false, ds) => (ofDigits ds : Int)

/-- The value of a number: whole where it is written whole and fits a 64-bit word, otherwise a
binary64 number. Zero with a minus sign is the negative zero. -/
def Numeral.value? (n : Numeral) : Option Json :=
  let whole : Int := if n.negative then -(ofDigits n.whole : Int) else ofDigits n.whole
  if n.fraction.isNone && n.exponent.isNone && isWord whole && !(n.negative && whole = 0) then
    some (.int whole)
  else
    (Decimal.ofDigits? n.whole (n.fraction.getD []) n.scale).map fun x =>
      .float (if n.negative then -x else x)

/-! ## Strings -/

/-- Whether a code unit is the first half of a surrogate pair. -/
def isLeading (u : Nat) : Bool := 0xD800 ≤ u && u ≤ 0xDBFF

/-- Whether a code unit is the second half of a surrogate pair. -/
def isTrailing (u : Nat) : Bool := 0xDC00 ≤ u && u ≤ 0xDFFF

/-- The characters of a string, `none` if half of a surrogate pair stands alone. -/
def characters? : List Piece → Option (List Char)
  | [] => some []
  | .char c :: ps => (characters? ps).map (c :: ·)
  | .unit u :: ps =>
    if isLeading u then
      match ps with
      | .unit v :: ps =>
        if isTrailing v then
          (characters? ps).map (Char.ofNat (0x10000 + (u - 0xD800) * 0x400 + (v - 0xDC00)) :: ·)
        else none
      | _ => none
    else if isTrailing u then none
    else (characters? ps).map (Char.ofNat u :: ·)

/-- The string of its parts. -/
def string? (s : List Piece) : Option String :=
  (characters? s).map String.ofList

/-! ## Values -/

/-- How many arrays and objects a text may nest. -/
def nestingLimit : Nat := 127

mutual

/-- The value of a document that nests at most `depth` arrays and objects. -/
def Document.value? (depth : Nat) : Document → Option Json
  | .null => some .null
  | .bool b => some (.bool b)
  | .number n => n.value?
  | .text s => (string? s).map .str
  | .array items =>
    match depth with
    | 0 => none
    | depth + 1 => (itemValues? depth items).map .arr
  | .object fields =>
    match depth with
    | 0 => none
    | depth + 1 => (fieldValues? depth fields).map .object

/-- The values of an array's items. -/
def Document.itemValues? (depth : Nat) : List Document → Option (List Json)
  | [] => some []
  | d :: ds => do
    let v ← d.value? depth
    let vs ← itemValues? depth ds
    return v :: vs

/-- The keys and values of an object's fields. -/
def Document.fieldValues? (depth : Nat) :
    List (List Piece × Document) → Option (List (String × Json))
  | [] => some []
  | (k, d) :: fs => do
    let k ← string? k
    let v ← d.value? depth
    let vs ← fieldValues? depth fs
    return (k, v) :: vs

end

end TurnEngine.Json
