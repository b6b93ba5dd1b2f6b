import TurnEngine.Json.Document

/-!
# Reading JSON

The grammar of JSON over a list of characters: `read` takes a whole text apart, `parse` gives its
value. A text that is not JSON is refused with the cause and the place of the first fault.

The readers of nested values count down a number that the length of the text bounds: every step
takes at least one character.
-/

namespace TurnEngine.Json

/-- What is wrong with a text. -/
inductive Cause where
  | endInValue
  | endInString
  | endInArray
  | endInObject
  | expectedValue
  | expectedIdent
  | expectedColon
  | expectedItemEnd
  | expectedFieldEnd
  | keyNotString
  | trailingComma
  | trailingCharacters
  | invalidNumber
  | invalidEscape
  | controlCharacter
  deriving DecidableEq, Repr

/-- A fault: its cause, and the characters of the text from the place where it shows. -/
structure Fault where
  cause : Cause
  rest : List Char
  deriving DecidableEq, Repr

/-- The wording of a cause. -/
def Cause.message : Cause → String
  | .endInValue => "EOF while parsing a value"
  | .endInString => "EOF while parsing a string"
  | .endInArray => "EOF while parsing a list"
  | .endInObject => "EOF while parsing an object"
  | .expectedValue => "expected value"
  | .expectedIdent => "expected ident"
  | .expectedColon => "expected \x60:\x60"
  | .expectedItemEnd => "expected \x60,\x60 or \x60]\x60"
  | .expectedFieldEnd => "expected \x60,\x60 or \x60\x7d\x60"
  | .keyNotString => "key must be a string"
  | .trailingComma => "trailing comma"
  | .trailingCharacters => "trailing characters"
  | .invalidNumber => "invalid number"
  | .invalidEscape => "invalid escape"
  | .controlCharacter => "control character (\\u0000-\\u001F) found while parsing a string"

/-- The line of a fault, and its column in bytes, both counted up to and with the character where
the fault shows. -/
def Fault.place (f : Fault) (text : List Char) : Nat × Nat :=
  let before := text.take (text.length - f.rest.length)
  let upTo := before ++ f.rest.take 1
  let line := 1 + before.count '\n'
  let column := (String.ofList (upTo.reverse.takeWhile (· ≠ '\n'))).utf8ByteSize
  (line, column)

/-- The message for a fault in a text. -/
def Fault.message (f : Fault) (text : List Char) : String :=
  let (line, column) := f.place text
  s!"{f.cause.message} at line {line} column {column}"

/-! ## Words and blanks -/

/-- Whether a character may stand between the parts of a text. -/
def isSpace (c : Char) : Bool :=
  c = ' ' || c = '\n' || c = '\r' || c = '\t'

/-- The text without blanks at its start. -/
def skipSpace (cs : List Char) : List Char :=
  cs.dropWhile isSpace

/-- The rest of a fixed word. -/
def readWord : List Char → List Char → Except Fault (List Char)
  | [], cs => .ok cs
  | _ :: _, [] => .error ⟨.endInValue, []⟩
  | w :: ws, c :: cs => if w = c then readWord ws cs else .error ⟨.expectedIdent, c :: cs⟩

/-! ## Numbers -/

/-- The value of a decimal digit. -/
def digit? (c : Char) : Option Nat :=
  if c.isDigit then some (c.toNat - '0'.toNat) else none

/-- The decimal digits at the start of a text. -/
def readDigits : List Char → List Nat × List Char
  | [] => ([], [])
  | c :: cs =>
    match digit? c with
    | some d =>
      let (ds, rest) := readDigits cs
      (d :: ds, rest)
    | none => ([], c :: cs)

/-- Digits where at least one has to stand. -/
def readSomeDigits (cs : List Char) : Except Fault (List Nat × List Char) :=
  match readDigits cs with
  | ([], []) => .error ⟨.endInValue, []⟩
  | ([], rest) => .error ⟨.invalidNumber, rest⟩
  | r => .ok r

/-- The digits before the point: a leading zero stands alone. -/
def readWhole (cs : List Char) : Except Fault (List Nat × List Char) :=
  match readDigits cs with
  | ([], []) => .error ⟨.endInValue, []⟩
  | ([], rest) => .error ⟨.invalidNumber, rest⟩
  | (0 :: d :: ds, rest) => .error ⟨.invalidNumber, (d :: ds).map (fun _ => '0') ++ rest⟩
  | r => .ok r

/-- The point and the digits after it, if there is one. -/
def readFraction : List Char → Except Fault (Option (List Nat) × List Char)
  | '.' :: cs => do
    let (ds, rest) ← readSomeDigits cs
    return (some ds, rest)
  | cs => .ok (none, cs)

/-- The exponent, if there is one: whether it is negative, and its digits. -/
def readExponent : List Char → Except Fault ((Option (Bool × List Nat)) × List Char)
  | c :: cs =>
    if c = 'e' || c = 'E' then
      match cs with
      | '+' :: cs => do
        let (ds, rest) ← readSomeDigits cs
        return (some (false, ds), rest)
      | '-' :: cs => do
        let (ds, rest) ← readSomeDigits cs
        return (some (true, ds), rest)
      | cs => do
        let (ds, rest) ← readSomeDigits cs
        return (some (false, ds), rest)
    else .ok (none, c :: cs)
  | [] => .ok (none, [])

/-- A number without its sign. -/
def readUnsigned (negative : Bool) (cs : List Char) : Except Fault (Numeral × List Char) := do
  let (whole, cs) ← readWhole cs
  let (fraction, cs) ← readFraction cs
  let (exponent, cs) ← readExponent cs
  return (⟨negative, whole, fraction, exponent⟩, cs)

/-! ## Strings -/

/-- The value of a hexadecimal digit. -/
def hexValue? (c : Char) : Option Nat :=
  if c.isDigit then some (c.toNat - '0'.toNat)
  else if 'a' ≤ c && c ≤ 'f' then some (c.toNat - 'a'.toNat + 10)
  else if 'A' ≤ c && c ≤ 'F' then some (c.toNat - 'A'.toNat + 10)
  else none

/-- The code unit of four hexadecimal digits. -/
def hexUnit? (a b c d : Char) : Option Nat := do
  let a ← hexValue? a
  let b ← hexValue? b
  let c ← hexValue? c
  let d ← hexValue? d
  return ((a * 16 + b) * 16 + c) * 16 + d

/-- The character of a backslash and one letter. -/
def shortEscape? : Char → Option Char
  | '"' => some '"'
  | '\\' => some '\\'
  | '/' => some '/'
  | 'b' => some '\x08'
  | 'f' => some '\x0c'
  | 'n' => some '\n'
  | 'r' => some '\r'
  | 't' => some '\t'
  | _ => none

/-- The parts of a string up to its closing quote. -/
def readString : List Char → Except Fault (List Piece × List Char)
  | [] => .error ⟨.endInString, []⟩
  | '"' :: cs => .ok ([], cs)
  | '\\' :: 'u' :: a :: b :: c :: d :: cs =>
    match hexUnit? a b c d with
    | some u => do
      let (ps, rest) ← readString cs
      return (.unit u :: ps, rest)
    | none => .error ⟨.invalidEscape, d :: cs⟩
  | '\\' :: e :: cs =>
    match shortEscape? e with
    | some c => do
      let (ps, rest) ← readString cs
      return (.char c :: ps, rest)
    | none => .error ⟨if e = 'u' then .endInString else .invalidEscape, e :: cs⟩
  | ['\\'] => .error ⟨.endInString, []⟩
  | c :: cs =>
    if c.toNat < 0x20 then .error ⟨.controlCharacter, c :: cs⟩
    else do
      let (ps, rest) ← readString cs
      return (.char c :: ps, rest)

/-! ## Values -/

mutual

/-- A value, blanks before it skipped. -/
def readValue : Nat → List Char → Except Fault (Document × List Char)
  | 0, _ => .error ⟨.endInValue, []⟩
  | n + 1, cs =>
    match skipSpace cs with
    | [] => .error ⟨.endInValue, []⟩
    | '{' :: cs =>
      match skipSpace cs with
      | [] => .error ⟨.endInObject, []⟩
      | '}' :: cs => .ok (.object [], cs)
      | cs => do
        let (f, cs) ← readField n cs
        let (fs, cs) ← readFields n cs
        return (.object (f :: fs), cs)
    | '[' :: cs =>
      match skipSpace cs with
      | [] => .error ⟨.endInArray, []⟩
      | ']' :: cs => .ok (.array [], cs)
      | cs => do
        let (v, cs) ← readValue n cs
        let (vs, cs) ← readItems n cs
        return (.array (v :: vs), cs)
    | '"' :: cs => do
      let (s, cs) ← readString cs
      return (.text s, cs)
    | 'n' :: cs => do
      let cs ← readWord ['u', 'l', 'l'] cs
      return (.null, cs)
    | 't' :: cs => do
      let cs ← readWord ['r', 'u', 'e'] cs
      return (.bool true, cs)
    | 'f' :: cs => do
      let cs ← readWord ['a', 'l', 's', 'e'] cs
      return (.bool false, cs)
    | '-' :: cs => do
      let (num, cs) ← readUnsigned true cs
      return (.number num, cs)
    | c :: cs =>
      if c.isDigit then do
        let (num, cs) ← readUnsigned false (c :: cs)
        return (.number num, cs)
      else .error ⟨.expectedValue, c :: cs⟩

/-- The items after one, up to the closing bracket. -/
def readItems : Nat → List Char → Except Fault (List Document × List Char)
  | 0, _ => .error ⟨.endInArray, []⟩
  | n + 1, cs =>
    match skipSpace cs with
    | [] => .error ⟨.endInArray, []⟩
    | ']' :: cs => .ok ([], cs)
    | ',' :: cs =>
      match skipSpace cs with
      | [] => .error ⟨.endInValue, []⟩
      | ']' :: cs => .error ⟨.trailingComma, ']' :: cs⟩
      | cs => do
        let (v, cs) ← readValue n cs
        let (vs, cs) ← readItems n cs
        return (v :: vs, cs)
    | cs => .error ⟨.expectedItemEnd, cs⟩

/-- A key, a colon and a value. -/
def readField : Nat → List Char → Except Fault ((List Piece × Document) × List Char)
  | 0, _ => .error ⟨.endInObject, []⟩
  | n + 1, cs =>
    match cs with
    | '"' :: cs => do
      let (k, cs) ← readString cs
      match skipSpace cs with
      | ':' :: cs => do
        let (v, cs) ← readValue n cs
        return ((k, v), cs)
      | [] => .error ⟨.endInObject, []⟩
      | cs => .error ⟨.expectedColon, cs⟩
    | cs => .error ⟨.keyNotString, cs⟩

/-- The fields after one, up to the closing brace. -/
def readFields : Nat → List Char → Except Fault ((List (List Piece × Document)) × List Char)
  | 0, _ => .error ⟨.endInObject, []⟩
  | n + 1, cs =>
    match skipSpace cs with
    | [] => .error ⟨.endInObject, []⟩
    | '}' :: cs => .ok ([], cs)
    | ',' :: cs =>
      match skipSpace cs with
      | [] => .error ⟨.endInValue, []⟩
      | '}' :: cs => .error ⟨.trailingComma, '}' :: cs⟩
      | cs => do
        let (f, cs) ← readField n cs
        let (fs, cs) ← readFields n cs
        return (f :: fs, cs)
    | cs => .error ⟨.expectedFieldEnd, cs⟩

end

/-- A whole text taken apart: one value with nothing but blanks around it. -/
def read (text : List Char) : Except Fault Document := do
  let (d, rest) ← readValue (text.length + 1) text
  match skipSpace rest with
  | [] => return d
  | rest => throw ⟨.trailingCharacters, rest⟩

/-- The value of a text, if it is JSON. -/
def parse (text : String) : Option Json :=
  match read text.toList with
  | .ok d => d.value? nestingLimit
  | .error _ => none

/-- What is wrong with a text that cannot be taken apart. -/
def complaint? (text : String) : Option String :=
  match read text.toList with
  | .ok _ => none
  | .error f => some (f.message text.toList)

end TurnEngine.Json
