import BrowserHost.Text.Decimal

/-!
# BrowserHost.Json.Text

Compact JSON text.  Strings escape the quote, the backslash and the control
characters, the latter by their short names where they have one; everything
else stands for itself.
-/

namespace BrowserHost.Json

/-! ## strings -/

/-- The two lower-case hexadecimal digits of a number below 256. -/
def hexByte (n : Nat) : List Char :=
  [Nat.digitChar (n / 16), Nat.digitChar (n % 16)]

/-- One character inside quotes. -/
def escape (c : Char) : List Char :=
  if c = '\x22' then ['\\', '\x22']
  else if c = '\\' then ['\\', '\\']
  else if c = '\n' then ['\\', 'n']
  else if c = '\r' then ['\\', 'r']
  else if c = '\t' then ['\\', 't']
  else if c = '\x08' then ['\\', 'b']
  else if c = '\x0c' then ['\\', 'f']
  else if c.toNat < 0x20 then ['\\', 'u', '0', '0'] ++ hexByte c.toNat
  else [c]

/-- A string in quotes. -/
def quote (s : List Char) : List Char :=
  '\x22' :: s.flatMap escape ++ ['\x22']

/-! ## values -/

/-- The text of a truth value. -/
def boolText (b : Bool) : List Char :=
  (if b then "true" else "false").toList

/-- The text of a number. -/
def natText (n : Nat) : List Char :=
  (toString n).toList

/-- The text of nothing. -/
def nullText : List Char :=
  "null".toList

/-- One member of an object, from its key and the text of its value. -/
def member (m : String × List Char) : List Char :=
  quote m.1.toList ++ ':' :: m.2

/-- An object, from its keys and the texts of their values. -/
def objectText (members : List (String × List Char)) : List Char :=
  '\x7b' :: List.intercalate [','] (members.map member) ++ ['\x7d']

end BrowserHost.Json
