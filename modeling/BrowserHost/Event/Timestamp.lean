import BrowserHost.Text.Blank
import BrowserHost.Text.Decimal

/-!
# BrowserHost.Event.Timestamp

Moments in universal time, on the proleptic Gregorian calendar.  The written
form is `YYYY-MM-DDThh:mm:ss`, a fraction of 0, 3, 6 or 9 digits as needed,
and `Z`; a year outside 0 to 9999 has a sign.  A second 60 is a leap second.

The reader also takes one-digit fields, blanks around fields, a space or a
lower-case letter between date and time, any number of fraction digits (those
past the ninth are dropped) and an offset, by which it shifts the moment to
universal time.  Offsets are whole minutes of less than a day, so a shift
changes the date by at most one day.
-/

namespace BrowserHost.Event

open BrowserHost.Text

/-! ## dates -/

/-- A calendar date. -/
structure Date where
  year : Int
  month : Nat
  day : Nat
  deriving DecidableEq, Repr

/-- Whether February has 29 days. -/
def isLeapYear (year : Int) : Bool :=
  (year % 4 == 0) && (year % 100 != 0 || year % 400 == 0)

/-- The number of days in a month. -/
def daysInMonth (year : Int) (month : Nat) : Nat :=
  if month = 2 then if isLeapYear year then 29 else 28
  else if month = 4 ∨ month = 6 ∨ month = 9 ∨ month = 11 then 30
  else 31

namespace Date

/-- The years that a date can have. -/
def yearInRange (year : Int) : Bool :=
  -262143 ≤ year && year ≤ 262142

/-- Whether the fields name a day that exists. -/
def isValid (d : Date) : Bool :=
  yearInRange d.year && 1 ≤ d.month && d.month ≤ 12 && 1 ≤ d.day &&
    d.day ≤ daysInMonth d.year d.month

/-- The day after. -/
def next (d : Date) : Date :=
  if d.day < daysInMonth d.year d.month then { d with day := d.day + 1 }
  else if d.month < 12 then { d with month := d.month + 1, day := 1 }
  else ⟨d.year + 1, 1, 1⟩

/-- The day before. -/
def prev (d : Date) : Date :=
  if 1 < d.day then { d with day := d.day - 1 }
  else if 1 < d.month then
    { d with month := d.month - 1, day := daysInMonth d.year (d.month - 1) }
  else ⟨d.year - 1, 12, 31⟩

end Date

/-! ## moments -/

/-- A moment of universal time, to the nanosecond. -/
structure Timestamp where
  date : Date
  hour : Nat
  minute : Nat
  second : Nat
  nanos : Nat
  deriving DecidableEq, Repr

namespace Timestamp

/-- The moment at which a clock `offset` minutes ahead shows `t`. -/
def toUniversal (t : Timestamp) (offset : Int) : Timestamp :=
  let m : Int := (t.hour * 60 + t.minute : Nat) - offset
  let date := if m < 0 then t.date.prev else if m < 1440 then t.date else t.date.next
  let m := (m % 1440).toNat
  { t with date := date, hour := m / 60, minute := m % 60 }

/-! ## writing -/

/-- A field of two digits. -/
def twoDigits (n : Nat) : String :=
  padLeft 2 '0' (toString n)

/-- A year, signed if it needs other than four digits. -/
def yearText (year : Int) : String :=
  if 0 ≤ year ∧ year ≤ 9999 then padLeft 4 '0' (toString year.toNat)
  else if 0 ≤ year then "+" ++ padLeft 4 '0' (toString year.toNat)
  else "-" ++ padLeft 4 '0' (toString year.natAbs)

/-- A fraction of a second in as few groups of three digits as hold it. -/
def fractionText (nanos : Nat) : String :=
  if nanos = 0 then ""
  else if nanos % Nat.pow 10 6 = 0 then "." ++ padLeft 3 '0' (toString (nanos / Nat.pow 10 6))
  else if nanos % Nat.pow 10 3 = 0 then "." ++ padLeft 6 '0' (toString (nanos / Nat.pow 10 3))
  else "." ++ padLeft 9 '0' (toString nanos)

/-- The written form. -/
def toText (t : Timestamp) : String :=
  yearText t.date.year ++ "-" ++ twoDigits t.date.month ++ "-" ++ twoDigits t.date.day ++ "T" ++
    twoDigits t.hour ++ ":" ++ twoDigits t.minute ++ ":" ++ twoDigits t.second ++
    fractionText t.nanos ++ "Z"

/-! ## reading -/

/-- At most `n` leading digits, and the rest. -/
def takeDigits : Nat → List Char → List Char × List Char
  | n + 1, c :: cs =>
    if (digit? c).isSome then
      let (ds, rest) := takeDigits n cs
      (c :: ds, rest)
    else ([], c :: cs)
  | _, cs => ([], cs)

/-- Skip blanks, then read a number of one to `width` digits. -/
def number? (width : Nat) (cs : List Char) : Option (Nat × List Char) :=
  let (ds, rest) := takeDigits width (trimLeft cs)
  (digits? ds).map (·, rest)

/-- Read a year: at most four digits, or a sign and any number of them. -/
def year? (cs : List Char) : Option (Int × List Char) :=
  match trimLeft cs with
  | '-' :: rest =>
    (digits? (takeDigits rest.length rest).1).map
      (fun n => (-(n : Int), (takeDigits rest.length rest).2))
  | '+' :: rest =>
    (digits? (takeDigits rest.length rest).1).map
      (fun n => ((n : Int), (takeDigits rest.length rest).2))
  | rest => (number? 4 rest).map fun (n, rest) => ((n : Int), rest)

/-- Skip blanks, then the given mark. -/
def mark? (mark : Char) (cs : List Char) : Option (List Char) :=
  match trimLeft cs with
  | c :: rest => if c = mark then some rest else none
  | [] => none

/-- Read the nanoseconds of a fraction, if there is one. -/
def fraction? : List Char → Option (Nat × List Char)
  | '.' :: cs =>
    let (ds, rest) := takeDigits 9 cs
    (digits? ds).map fun n =>
      (n * Nat.pow 10 (9 - ds.length), rest.dropWhile fun c => (digit? c).isSome)
  | cs => some (0, cs)

/-- Read the sign of an offset: plus, hyphen or minus. -/
def offsetSign? : List Char → Option (Int × List Char)
  | '+' :: cs => some (1, cs)
  | '-' :: cs => some (-1, cs)
  | '−' :: cs => some (-1, cs)
  | _ => none

/-- Read the minutes of an offset. -/
def offsetMinutes? : List Char → Option (Nat × List Char)
  | a :: b :: rest => do
    let x ← digit? a
    let y ← digit? b
    if x < 6 then some (10 * x + y, rest) else none
  | _ => none

/-- Read an offset in minutes: `Z`, `UTC`, or a sign, two digits of hours and
two of minutes, with colons or blanks between. -/
def offset? (cs : List Char) : Option (Int × List Char) :=
  match trimLeft cs with
  | u :: t :: c :: rest =>
    if u.toUpper = 'U' ∧ t.toUpper = 'T' ∧ c.toUpper = 'C' then some (0, rest)
    else signed? (u :: t :: c :: rest)
  | cs => signed? cs
where
  signed? : List Char → Option (Int × List Char)
    | 'Z' :: rest => some (0, rest)
    | 'z' :: rest => some (0, rest)
    | cs => do
      let (sign, cs) ← offsetSign? cs
      match cs with
      | a :: b :: rest => do
        let x ← digit? a
        let y ← digit? b
        let (m, rest) ← offsetMinutes? (rest.dropWhile fun c => c == ':' || isBlank c)
        some (sign * (((10 * x + y) * 60 + m : Nat) : Int), rest)
      | _ => none

/-- Skip the mark between date and time. -/
def skipSeparator? : List Char → Option (List Char)
  | 'T' :: cs => some cs
  | 't' :: cs => some cs
  | ' ' :: cs => some cs
  | _ => none

/-- Whether the fields show a time of an existing day. -/
def isValid (t : Timestamp) : Bool :=
  t.date.isValid && t.hour ≤ 23 && t.minute ≤ 59 && t.second ≤ 60

/-- Read a moment. -/
def ofText? (cs : List Char) : Option Timestamp := do
  let (year, cs) ← year? cs
  let (month, cs) ← number? 2 (← mark? '-' cs)
  let (day, cs) ← number? 2 (← mark? '-' cs)
  let (hour, cs) ← number? 2 (← skipSeparator? cs)
  let (minute, cs) ← number? 2 (← mark? ':' cs)
  let (second, cs) ← number? 2 (← mark? ':' cs)
  let (nanos, cs) ← fraction? cs
  let (offset, cs) ← offset? cs
  let local' : Timestamp := ⟨⟨year, month, day⟩, hour, minute, second, nanos⟩
  let t := local'.toUniversal offset
  if local'.isValid && offset.natAbs < 1440 && Date.yearInRange t.date.year &&
      (trimLeft cs).isEmpty then some t
  else none

end Timestamp

end BrowserHost.Event
