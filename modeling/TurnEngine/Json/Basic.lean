import TurnEngine.Decimal.Reading

/-!
# JSON values

`Json` is the value of a JSON text. Whole numbers in the range of signed or unsigned 64-bit words
stay whole, every other number is a binary64 number. An object is a list of fields; a free-form
object keeps its fields in ascending order of their keys, each key once (`Json.object`).
-/

namespace TurnEngine

/-- A JSON value. -/
inductive Json where
  | null
  | bool (b : Bool)
  | int (n : Int)
  | float (x : Float)
  | str (s : String)
  | arr (items : List Json)
  | obj (fields : List (String × Json))
  deriving Inhabited

namespace Json

/-- The object without fields. -/
def empty : Json := .obj []

/-- Puts a field at its place among ascending keys; a key that is there gets the new value. -/
def insertField (key : String) (value : Json) : List (String × Json) → List (String × Json)
  | [] => [(key, value)]
  | (k, v) :: rest =>
    if key < k then (key, value) :: (k, v) :: rest
    else if key = k then (key, value) :: rest
    else (k, v) :: insertField key value rest

/-- The fields in ascending order of their keys, the last one of a repeated key. -/
def sortFields (fields : List (String × Json)) : List (String × Json) :=
  fields.foldl (fun acc f => insertField f.1 f.2 acc) []

/-- The free-form object of some fields. -/
def object (fields : List (String × Json)) : Json :=
  .obj (sortFields fields)

/-- Whether a whole number fits a signed or an unsigned 64-bit word. -/
def isWord (n : Int) : Bool :=
  Int64.minValue.toInt ≤ n && n < UInt64.size

/-- A missing value is written as null. -/
def ofOption {α : Type} (f : α → Json) : Option α → Json
  | none => .null
  | some a => f a

end Json

end TurnEngine
