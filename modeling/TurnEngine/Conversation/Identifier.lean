/-!
# Identifiers

A 128-bit identifier, read from 32 hexadecimal digits, plain or in the usual five groups, the
latter also in braces or after `urn:uuid:`, all in letters of either case; written in lower case and
in five groups.
-/

namespace TurnEngine

/-- A 128-bit identifier. -/
structure Identifier where
  value : BitVec 128
  deriving DecidableEq, Repr

namespace Identifier

/-- The value of a hexadecimal digit. -/
def digit? (c : Char) : Option Nat :=
  if c.isDigit then some (c.toNat - '0'.toNat)
  else if 'a' ≤ c && c ≤ 'f' then some (c.toNat - 'a'.toNat + 10)
  else if 'A' ≤ c && c ≤ 'F' then some (c.toNat - 'A'.toNat + 10)
  else none

/-- The identifier of 32 hexadecimal digits. -/
def ofDigits? (cs : List Char) : Option Identifier := do
  let ds ← cs.mapM digit?
  if ds.length = 32 then
    some ⟨BitVec.ofNat 128 (ds.foldl (fun n d => 16 * n + d) 0)⟩
  else none

/-- The lengths of the groups. -/
def groups : List Nat := [8, 4, 4, 4, 12]

/-- The digits of groups joined by hyphens. -/
def ungroup : List Nat → List Char → Option (List Char)
  | [], [] => some []
  | [], _ :: _ => none
  | [n], cs => if cs.length = n then some cs else none
  | n :: ns, cs =>
    match cs.drop n with
    | '-' :: rest => (ungroup ns rest).map (cs.take n ++ ·)
    | _ => none

/-- The identifier of a text in five groups. -/
def ofGroups? (cs : List Char) : Option Identifier :=
  (ungroup groups cs).bind ofDigits?

/-- The identifier a text names. -/
def parse (text : String) : Option Identifier :=
  let cs := text.toList
  if cs.length = 32 then ofDigits? cs
  else if cs.length = 36 then ofGroups? cs
  else if cs.length = 38 && cs.head? = some '{' && cs.getLast? = some '}' then
    ofGroups? (cs.tail.take 36)
  else if cs.length = 45 && (cs.take 9).map Char.toLower = "urn:uuid:".toList then
    ofGroups? (cs.drop 9)
  else none

/-- Digits in groups joined by hyphens. -/
def group : List Nat → List Char → List Char
  | [], cs => cs
  | [_], cs => cs
  | n :: ns, cs => cs.take n ++ '-' :: group ns (cs.drop n)

/-- The text of an identifier. -/
def render (i : Identifier) : String :=
  let ds := Nat.toDigits 16 i.value.toNat
  String.ofList (group groups (List.replicate (32 - ds.length) '0' ++ ds))

end Identifier

end TurnEngine
