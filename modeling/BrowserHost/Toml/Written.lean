import BrowserHost.Toml.Text
import BrowserHost.Toml.Value

/-!
# BrowserHost.Toml.Written

The written form of keys and values, one entry to a line.

A string takes the first form that fits it: between double quotes if nothing
has to be escaped; between single quotes; between tripled double quotes;
between tripled single quotes; and last with escapes, tripled if it has line
feeds.  An array of two or more items has a line for each, with a comma after
the last too.
-/

namespace BrowserHost.Toml

/-! ## forms of strings -/

/-- Whether a character can only be written as an escape. -/
def needsEscape (c : Char) : Bool :=
  (c.toNat < 0x20 && c != '\t' && c != '\n') || c.toNat == 0x7F

/-- The length of the longest run of `c`, when `current` of them have just been
read. -/
def longestRun (c : Char) (current : Nat) : List Char → Nat
  | [] => current
  | d :: ds => if d = c then longestRun c (current + 1) ds else max current (longestRun c 0 ds)

/-- The forms of a string. -/
inductive StringForm
  | basic
  | literal
  | multiBasic
  | multiLiteral
  deriving DecidableEq, Repr

/-- The form that a string is written in. -/
def StringForm.of (cs : List Char) : StringForm :=
  let escapes := cs.any needsEscape
  let backslash := cs.contains '\\'
  let doubles := longestRun '\x22' 0 cs
  let singles := longestRun '\'' 0 cs
  let newline := cs.contains '\n'
  if !escapes && !backslash && doubles == 0 && !newline then .basic
  else if !escapes && singles == 0 && !newline then .literal
  else if !escapes && !backslash && doubles ≤ 2 then .multiBasic
  else if !escapes && singles ≤ 2 then .multiLiteral
  else if newline then .multiBasic
  else .basic

/-! ## characters -/

/-- Four upper-case hexadecimal digits. -/
def hex4 (n : Nat) : List Char :=
  [n / 4096 % 16, n / 256 % 16, n / 16 % 16, n % 16].map fun d => (Nat.digitChar d).toUpper

/-- A character of a string on one line between double quotes. -/
def escape (c : Char) : List Char :=
  if c = '\x08' then ['\\', 'b']
  else if c = '\t' then ['\\', 't']
  else if c = '\n' then ['\\', 'n']
  else if c = '\x0c' then ['\\', 'f']
  else if c = '\r' then ['\\', 'r']
  else if c = '\x22' then ['\\', '\x22']
  else if c = '\\' then ['\\', '\\']
  else if c.toNat < 0x20 ∨ c.toNat = 0x7F then '\\' :: 'u' :: hex4 c.toNat
  else [c]

/-- The characters of a string between tripled double quotes, after a run of
`run` quotes.  Line feeds stand for themselves; the third quote in a row is
escaped. -/
def escapeLines (run : Nat) : List Char → List Char
  | [] => []
  | c :: cs =>
    if c = '\n' then '\n' :: escapeLines 0 cs
    else if c = '\x22' ∧ run < 2 then '\x22' :: escapeLines (run + 1) cs
    else escape c ++ escapeLines 0 cs

/-- A line feed, if there is one in the string. -/
def opening (cs : List Char) : List Char :=
  if cs.contains '\n' then ['\n'] else []

/-- A string in the given form. -/
def stringTextIn (cs : List Char) : StringForm → List Char
  | .basic => '\x22' :: cs.flatMap escape ++ ['\x22']
  | .literal => '\'' :: cs ++ ['\'']
  | .multiBasic =>
    List.replicate 3 '\x22' ++ opening cs ++ escapeLines 0 cs ++ List.replicate 3 '\x22'
  | .multiLiteral => List.replicate 3 '\'' ++ opening cs ++ cs ++ List.replicate 3 '\''

/-- A string. -/
def stringText (s : String) : List Char :=
  stringTextIn s.toList (StringForm.of s.toList)

/-! ## values -/

/-- The text of a truth value. -/
def booleanText (b : Bool) : List Char :=
  (if b then "true" else "false").toList

/-- A float: a point always, no exponent, no sign before no number. -/
def floatText (x : Binary64) : List Char :=
  if x.isNaN then "nan".toList
  else
    let sign := if x.negative then "-" else ""
    if x.isInfinite then (sign ++ "inf").toList
    else
      let whole := if Binary64.isWhole x.magnitude then ".0" else ""
      (sign ++ Binary64.magnitudeText x.magnitude ++ whole).toList

/-- An array of strings. -/
def arrayText : List String → List Char
  | [] => "[]".toList
  | [s] => '[' :: stringText s ++ [']']
  | ss => "[\n".toList ++ ss.flatMap (fun s => "    ".toList ++ stringText s ++ ",\n".toList) ++ [']']

/-- What can be written under a key. -/
inductive Field
  | string (s : String)
  | unsigned (n : Nat)
  | float (x : Binary64)
  | boolean (b : Bool)
  | strings (ss : List String)

/-- The text of a field, unless it is an integer out of range. -/
def Field.text? : Field → Option (List Char)
  | .string s => some (stringText s)
  | .unsigned n => if integerInRange n then some (toString n).toList else none
  | .float x => some (floatText x)
  | .boolean b => some (booleanText b)
  | .strings ss => some (arrayText ss)

/-- The line of a key and its field. -/
def line? (key : String) (f : Field) : Option (List Char) :=
  f.text?.map fun t => key.toList ++ " = ".toList ++ t ++ ['\n']

/-- The lines of bare keys and their fields. -/
def written? (fields : List (String × Field)) : Option (List Char) :=
  (fields.mapM fun (k, f) => line? k f).map List.flatten

end BrowserHost.Toml
