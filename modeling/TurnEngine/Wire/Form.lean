import TurnEngine.Json.Printer
import TurnEngine.Json.Reader

/-!
# Wire forms

A `Form` says how the values of a type are written as JSON and read from it. Reading goes over a
document and keeps count of the arrays and objects that may still be nested; what a form does not
keep is skipped without a look at its value.

A record is an object with a fixed set of named fields. It is also read from an array of its
fields in order. Fields of other names are skipped, but no field may come twice.
-/

namespace TurnEngine.Wire

open Json

/-- Reads a value from a document, given how many arrays and objects it may nest. -/
abbrev Reader (α : Type) := Nat → Document → Option α

/-- How values of a type are read and written. -/
structure Form (α : Type) where
  read : Reader α
  write : α → Json

namespace Form

variable {α : Type}

/-- The value that a text stands for. -/
def parse (f : Form α) (text : String) : Option α :=
  match Json.read text.toList with
  | .ok d => f.read nestingLimit d
  | .error _ => none

/-- The text of a value. -/
def print (f : Form α) (a : α) : String :=
  (f.write a).render

/-- The text of the value that a text stands for. -/
def reprint (f : Form α) (text : String) : Option String :=
  (f.parse text).map f.print

end Form

/-! ## Plain values -/

/-- A whole number. -/
def whole? : Document → Option Int
  | .number n =>
    match n.value? with
    | some (.int i) => some i
    | _ => none
  | _ => none

/-- A whole number from zero up to a bound that is not included. -/
def below? (bound : Nat) (d : Document) : Option Nat :=
  (whole? d).bind fun n => if 0 ≤ n && n < bound then some n.toNat else none

/-- A 32-bit word. -/
def word32 : Reader UInt32 := fun _ d => (below? UInt32.size d).map UInt32.ofNat

/-- A 64-bit word. -/
def word64 : Reader UInt64 := fun _ d => (below? UInt64.size d).map UInt64.ofNat

/-- The number nearest to a whole number that fits a 64-bit word. -/
def floatOfInt (n : Int) : Float :=
  if n < 0 then -(UInt64.ofNat n.natAbs).toFloat else (UInt64.ofNat n.natAbs).toFloat

/-- A binary64 number, written whole or not. -/
def number : Reader Float
  | _, .number n =>
    match n.value? with
    | some (.int i) => some (floatOfInt i)
    | some (.float x) => some x
    | _ => none
  | _, _ => none

/-- A truth value. -/
def flag : Reader Bool
  | _, .bool b => some b
  | _, _ => none

/-- A string. -/
def text : Reader String
  | _, .text s => string? s
  | _, _ => none

/-- A value of any kind. -/
def value : Reader Json := fun depth d => d.value? depth

/-- A value, or null for none. -/
def maybe {α : Type} (r : Reader α) : Reader (Option α)
  | _, .null => some none
  | depth, d => (r depth d).map some

/-- A list. -/
def list {α : Type} (r : Reader α) : Reader (List α)
  | depth + 1, .array items => items.mapM (r depth)
  | _, _ => none

/-! ## Names -/

/-- The value that a name stands for. -/
def named? {α : Type} (name : α → String) (all : List α) (s : List Piece) : Option α :=
  (string? s).bind fun s => all.find? fun a => name a = s

/-- One of several names: a string, or an object with the name as its only key and null under
it. -/
def named {α : Type} (name : α → String) (all : List α) : Reader α
  | _, .text s => named? name all s
  | _ + 1, .object [(key, .null)] => named? name all key
  | _, _ => none

/-- The form of a type whose values are names. -/
def names {α : Type} (name : α → String) (all : List α) : Form α where
  read := named name all
  write a := .str (name a)

/-! ## Records -/

/-- The fields that were found of a record. -/
structure Fields where
  /-- Whether they come from an array. -/
  positional : Bool
  /-- How many arrays and objects each of them may nest. -/
  depth : Nat
  found : List (String × Document)

namespace Fields

/-- The known fields of an object, none of them twice. -/
def ofObject? (known : List String) :
    List (List Piece × Document) → Option (List (String × Document))
  | [] => some []
  | (key, d) :: fields => do
    let key ← string? key
    let found ← ofObject? known fields
    if known.contains key then
      if (found.lookup key).isSome then none else some ((key, d) :: found)
    else some found

/-- The fields of a record with the given names. -/
def open? (known : List String) : Reader Fields
  | depth + 1, .object fields => (ofObject? known fields).map (⟨false, depth, ·⟩)
  | depth + 1, .array items =>
    if items.length ≤ known.length then some ⟨true, depth, known.zip items⟩ else none
  | _, _ => none

variable {α : Type}

/-- A field that has to be there. -/
def required (f : Fields) (name : String) (r : Reader α) : Option α :=
  (f.found.lookup name).bind (r f.depth)

/-- A field that may be null, or missing from an object. -/
def optional (f : Fields) (name : String) (r : Reader α) : Option (Option α) :=
  match f.found.lookup name with
  | some d => maybe r f.depth d
  | none => if f.positional then none else some none

/-- A field with a value for when it is missing. -/
def withDefault (f : Fields) (name : String) (r : Reader α) (default : α) : Option α :=
  match f.found.lookup name with
  | some d => r f.depth d
  | none => some default

end Fields

/-- Reads a record by its fields. -/
def record {α : Type} (known : List String) (build : Fields → Option α) : Reader α :=
  fun depth d => (Fields.open? known depth d).bind build

/-! ## Writing -/

/-- A field that is left out when there is no value. -/
def fieldIfSome (name : String) : Option Json → List (String × Json)
  | some v => [(name, v)]
  | none => []

/-- A list field that is left out when it is empty. -/
def fieldIfAny {α : Type} (name : String) (f : α → Json) (items : List α) : List (String × Json) :=
  if items.isEmpty then [] else [(name, .arr (items.map f))]

/-- A natural number. -/
def nat (n : Nat) : Json := .int n

end TurnEngine.Wire
