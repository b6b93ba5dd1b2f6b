import TurnEngine.Calendar.Date
import TurnEngine.Text.Blank

/-!
# Timestamps

An instant in coordinated universal time, read from and written as an RFC 3339 text. Reading takes
any offset and a few liberties: blanks between the parts, single digits, a blank or a lower-case
letter between date and time, a signed year, `UTC` for `Z`. Writing uses `Z`, and as many digits of
a fraction as are needed out of none, three, six and nine.
-/

namespace TurnEngine.Calendar

/-- An instant: seconds since the first of January 1970, and nanoseconds. During a leap second the
nanoseconds run on from a whole second to the next. -/
structure Timestamp where
  seconds : Int
  nanos : Nat
  deriving DecidableEq, Repr

/-- The years an instant may lie in. -/
def yearRange : Int × Int := (-262143, 262142)

/-! ## Reading -/

/-- The number of `least` to `most` decimal digits. -/
def takeNumber (least : Nat) (most : Option Nat) (cs : List Char) : Option (Nat × List Char) :=
  let run := cs.takeWhile Char.isDigit
  let ds := match most with
    | none => run
    | some n => run.take n
  if ds.length < least then none
  else some (ds.foldl (fun n c => 10 * n + (c.toNat - '0'.toNat)) 0, cs.drop ds.length)

/-- A fixed character, blanks before it skipped. -/
def takeChar (c : Char) (cs : List Char) : Option (List Char) :=
  match Text.trimStart cs with
  | x :: rest => if x = c then some rest else none
  | [] => none

/-- A number of at most two digits in a range, blanks before it skipped. -/
def takePart (low high : Nat) (cs : List Char) : Option (Nat × List Char) := do
  let (n, rest) ← takeNumber 1 (some 2) (Text.trimStart cs)
  if low ≤ n && n ≤ high then some (n, rest) else none

/-- A year: four digits at most, or a sign and any number of them. -/
def takeYear (cs : List Char) : Option (Int × List Char) :=
  match Text.trimStart cs with
  | '-' :: rest => (takeNumber 1 none rest).map fun p => (-(p.1 : Int), p.2)
  | '+' :: rest => (takeNumber 1 none rest).map fun p => ((p.1 : Int), p.2)
  | rest => (takeNumber 1 (some 4) rest).map fun p => ((p.1 : Int), p.2)

/-- The nanoseconds of a fraction, if there is one; digits after the ninth do not count. -/
def takeFraction : List Char → Option (Nat × List Char)
  | '.' :: cs =>
    let run := cs.takeWhile Char.isDigit
    (takeNumber 1 (some 9) cs).map fun p => (p.1 * Nat.pow 10 (9 - run.length), cs.drop run.length)
  | cs => some (0, cs)

/-- An offset from universal time in seconds: `Z`, `UTC`, or a sign, hours and minutes. -/
def takeOffset (cs : List Char) : Option (Int × List Char) :=
  if (cs.take 3).map Char.toLower = ['u', 't', 'c'] then some (0, cs.drop 3)
  else
    match cs with
    | [] => none
    | c :: rest =>
      if c = 'Z' || c = 'z' then some (0, rest)
      else if c = '+' || c = '-' || c = '\u2212' then do
        let (hours, rest) ← takeNumber 2 (some 2) rest
        let rest := rest.dropWhile fun c => c = ':' || Text.isBlank c
        let (minutes, rest) ← takeNumber 2 (some 2) rest
        if 59 < minutes then none
        else
          let seconds : Int := hours * 3600 + minutes * 60
          some (if c = '+' then seconds else -seconds, rest)
      else none

/-- The instant an RFC 3339 text names. -/
def Timestamp.parse (text : String) : Option Timestamp := do
  let (year, cs) ← takeYear text.toList
  let cs ← takeChar '-' cs
  let (month, cs) ← takePart 1 12 cs
  let cs ← takeChar '-' cs
  let (day, cs) ← takePart 1 31 cs
  let cs ← match cs with
    | c :: rest => if c = 'T' || c = 't' || c = ' ' then some rest else none
    | [] => none
  let (hour, cs) ← takePart 0 23 cs
  let cs ← takeChar ':' cs
  let (minute, cs) ← takePart 0 59 cs
  let cs ← takeChar ':' cs
  let (second, cs) ← takePart 0 60 cs
  let (nanos, cs) ← takeFraction cs
  let (offset, cs) ← takeOffset (Text.trimStart cs)
  let date : Date := ⟨year, month, day⟩
  let inRange (y : Int) : Bool := yearRange.1 ≤ y && y ≤ yearRange.2
  -- a leap second is the second before it with a second's worth of nanoseconds more
  let (second, nanos) := if second = 60 then (59, nanos + 1000000000) else (second, nanos)
  let seconds := date.toDays * 86400 + (hour * 3600 + minute * 60 + second : Nat) - offset
  if (Text.trimStart cs).isEmpty && date.isValid && inRange year && offset.natAbs < 86400
      && inRange (Date.ofDays (Int.fdiv seconds 86400)).year then
    some ⟨seconds, nanos⟩
  else none

/-! ## Writing -/

/-- A number with zeros in front up to a width. -/
def padded (width n : Nat) : String :=
  let ds := Nat.toDigits 10 n
  String.ofList (List.replicate (width - ds.length) '0' ++ ds)

/-- A year: four digits, with a sign and as many digits as needed outside 0 to 9999. -/
def yearText (year : Int) : String :=
  if 0 ≤ year && year ≤ 9999 then padded 4 year.natAbs
  else (if year < 0 then "-" else "+") ++ padded 4 year.natAbs

/-- A fraction of a second. -/
def fractionText (nanos : Nat) : String :=
  if nanos = 0 then ""
  else if nanos % 1000000 = 0 then "." ++ padded 3 (nanos / 1000000)
  else if nanos % 1000 = 0 then "." ++ padded 6 (nanos / 1000)
  else "." ++ padded 9 nanos

/-- The RFC 3339 text of an instant. -/
def Timestamp.render (t : Timestamp) : String :=
  let days := Int.fdiv t.seconds 86400
  let date := Date.ofDays days
  let inDay := (t.seconds - days * 86400).toNat
  let leap := t.nanos / 1000000000
  yearText date.year ++ "-" ++ padded 2 date.month ++ "-" ++ padded 2 date.day
    ++ "T" ++ padded 2 (inDay / 3600) ++ ":" ++ padded 2 (inDay / 60 % 60)
    ++ ":" ++ padded 2 (inDay % 60 + leap) ++ fractionText (t.nanos % 1000000000) ++ "Z"

end TurnEngine.Calendar
