import BrowserHost.Binary64
import BrowserHost.Event.Timestamp
import BrowserHost.Toml.Text
import BrowserHost.Toml.Value

/-!
# BrowserHost.Toml.Number

Numbers, dates and times of TOML.  Digits may be parted by single
underscores.  An integer has 64 bits; a float that is too large is refused
when it is positive and infinite when it is negative.  A date has to exist, a
time may have a second 60.
-/

namespace BrowserHost.Toml

open BrowserHost.Text (digit? digitsFrom)

/-! ## digits -/

/-- Digits accepted by `ok`, each after at most one underscore, without the
underscores; an underscore has to be followed by a digit. -/
def moreDigits? (ok : Char → Bool) : List Char → Option (List Char × List Char)
  | '_' :: d :: cs => if ok d then consResult d (moreDigits? ok cs) else none
  | ['_'] => none
  | c :: cs => if ok c then consResult c (moreDigits? ok cs) else some ([], c :: cs)
  | [] => some ([], [])

/-- One digit and more. -/
def someDigits? (ok : Char → Bool) : List Char → Option (List Char × List Char)
  | c :: cs => if ok c then consResult c (moreDigits? ok cs) else none
  | [] => none

/-- An ASCII digit. -/
def isDigit (c : Char) : Bool :=
  (digit? c).isSome

/-- A sign and the rest; negative or not. -/
def sign : List Char → Bool × List Char
  | '-' :: cs => (true, cs)
  | '+' :: cs => (false, cs)
  | cs => (false, cs)

/-- A whole part: one digit, or digits that do not start with zero. -/
def wholePart? : List Char → Option (List Char × List Char)
  | '0' :: cs => some (['0'], cs)
  | cs => someDigits? isDigit cs

/-! ## integers -/

/-- The value of digits in base `base`. -/
def ofBase (base : Nat) (ds : List Char) : Nat :=
  ds.foldl (fun n d => base * n + (hexValue? d).getD 0) 0

/-- An integer in range. -/
def integerOf? (n : Int) (rest : List Char) : Option (Value × List Char) :=
  if integerInRange n then some (.integer n, rest) else none

/-- Digits of a base after its mark. -/
def based? (base : Nat) (cs : List Char) : Option (Value × List Char) := do
  let (ds, rest) ← someDigits? (fun c => (hexValue? c).any (· < base)) cs
  integerOf? (ofBase base ds) rest

/-- An integer: hexadecimal, octal, binary, or decimal with a sign. -/
def integer? : List Char → Option (Value × List Char)
  | '0' :: 'x' :: cs => based? 16 cs
  | '0' :: 'o' :: cs => based? 8 cs
  | '0' :: 'b' :: cs => based? 2 cs
  | cs => do
    let (negative, cs) := sign cs
    let (ds, rest) ← wholePart? cs
    integerOf? (if negative then -(ofBase 10 ds : Int) else ofBase 10 ds) rest

/-! ## floats -/

/-- An exponent, if its letter follows. -/
def exponent? : List Char → Option (Option Int × List Char)
  | c :: cs =>
    if c = 'e' ∨ c = 'E' then do
      let (negative, cs) := sign cs
      let (ds, rest) ← someDigits? isDigit cs
      some (some (if negative then -(ofBase 10 ds : Int) else ofBase 10 ds), rest)
    else some (none, c :: cs)
  | [] => some (none, [])

/-- A fraction, if a point follows. -/
def fraction? : List Char → Option (Option (List Char) × List Char)
  | '.' :: cs => (someDigits? isDigit cs).map fun (ds, rest) => (some ds, rest)
  | cs => some (none, cs)

/-- The float nearest to a decimal. -/
def floatOf? (negative : Bool) (m : Nat) (e : Int) (rest : List Char) :
    Option (Value × List Char) :=
  let x := Binary64.ofDecimal negative m e
  if x.isInfinite && !x.negative then none else some (.float x, rest)

/-- Infinity or no number, by name. -/
def namedFloat? (cs : List Char) : Option (Value × List Char) :=
  match sign cs with
  | (negative, 'i' :: 'n' :: 'f' :: rest) =>
    some (.float (.ofParts negative Binary64.infinity), rest)
  | (negative, 'n' :: 'a' :: 'n' :: rest) =>
    some (.float (.ofParts negative Binary64.nan.magnitude), rest)
  | _ => none

/-- A float: a whole part with a fraction, an exponent or both. -/
def float? (cs : List Char) : Option (Value × List Char) := do
  let (negative, cs) := sign cs
  let (whole, cs) ← wholePart? cs
  let (fraction, cs) ← fraction? cs
  let (exponent, cs) ← exponent? cs
  match fraction, exponent with
  | none, none => none
  | _, _ =>
    let ds := fraction.getD []
    floatOf? negative (ofBase 10 (whole ++ ds)) (exponent.getD 0 - ds.length) cs

/-! ## dates and times -/

/-- Two digits of a value within bounds. -/
def twoDigits? (low high : Nat) : List Char → Option (Nat × List Char)
  | a :: b :: cs => do
    let n := 10 * (← digit? a) + (← digit? b)
    if low ≤ n ∧ n ≤ high then some (n, cs) else none
  | _ => none

/-- Skip the given mark. -/
def mark? (mark : Char) : List Char → Option (List Char)
  | c :: cs => if c = mark then some cs else none
  | [] => none

/-- Skip a date that exists. -/
def date? : List Char → Option (List Char)
  | a :: b :: c :: d :: cs => do
    let year ← digitsFrom 0 [a, b, c, d]
    let (month, cs) ← twoDigits? 1 12 (← mark? '-' cs)
    let (_, cs) ← twoDigits? 1 (Event.daysInMonth year month) (← mark? '-' cs)
    some cs
  | _ => none

/-- Skip the fraction of a second, if there is one. -/
def secondFraction : List Char → List Char
  | '.' :: c :: cs => if isDigit c then cs.dropWhile isDigit else '.' :: c :: cs
  | cs => cs

/-- Skip a time of day. -/
def time? (cs : List Char) : Option (List Char) := do
  let (_, cs) ← twoDigits? 0 23 cs
  let (_, cs) ← twoDigits? 0 59 (← mark? ':' cs)
  let (_, cs) ← twoDigits? 0 60 (← mark? ':' cs)
  some (secondFraction cs)

/-- Skip an offset, if there is one. -/
def offset? : List Char → Option (List Char)
  | 'Z' :: cs => some cs
  | 'z' :: cs => some cs
  | c :: cs =>
    if c = '+' ∨ c = '-' then do
      let (_, cs) ← twoDigits? 0 23 cs
      let (_, cs) ← twoDigits? 0 59 (← mark? ':' cs)
      some cs
    else some (c :: cs)
  | [] => some []

/-- Skip the time that may follow a date. -/
def timeAfterDate? : List Char → Option (List Char)
  | c :: cs =>
    if c = 'T' ∨ c = 't' ∨ c = ' ' then
      match time? cs with
      | some rest => offset? rest
      | none => some (c :: cs)
    else some (c :: cs)
  | [] => some []

/-- A date, a time, or both. -/
def datetime? (cs : List Char) : Option (Value × List Char) :=
  match date? cs with
  | some rest => (timeAfterDate? rest).map (.datetime, ·)
  | none => (time? cs).map (.datetime, ·)

/-- A number, a date or a time. -/
def number? (cs : List Char) : Option (Value × List Char) :=
  (datetime? cs).or ((namedFloat? cs).or ((float? cs).or (integer? cs)))

end BrowserHost.Toml
