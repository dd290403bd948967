/-!
# BrowserHost.Event.Uuid

Universally unique identifiers: 32 hexadecimal digits.  They are written in
lower case in groups of 8, 4, 4, 4 and 12 joined by hyphens, and read in that
form, without hyphens, in braces, or as a `urn:uuid:` name, in either case.
-/

namespace BrowserHost.Event

/-! ## hexadecimal digits -/

/-- The value of a hexadecimal digit, in either case. -/
def hexDigit? (c : Char) : Option (Fin 16) :=
  let n := c.toNat
  if h : '0'.toNat ≤ n ∧ n ≤ '9'.toNat then some ⟨n - 48, by grind⟩
  else if h : 'a'.toNat ≤ n ∧ n ≤ 'f'.toNat then some ⟨n - 87, by grind⟩
  else if h : 'A'.toNat ≤ n ∧ n ≤ 'F'.toNat then some ⟨n - 55, by grind⟩
  else none

/-- The lower-case digit of a value. -/
def hexChar (d : Fin 16) : Char :=
  if d.val < 10 then Char.ofNat (48 + d.val) else Char.ofNat (87 + d.val)

theorem hexDigit?_hexChar (d : Fin 16) : hexDigit? (hexChar d) = some d := by
  revert d
  decide

/-! ## identifiers -/

/-- An identifier, as its digits. -/
structure Uuid where
  digits : List (Fin 16)
  length_digits : digits.length = 32
  deriving DecidableEq, Repr

namespace Uuid

/-- The identifier with the given digits, if there are 32. -/
def ofDigits? (ds : List (Fin 16)) : Option Uuid :=
  if h : ds.length = 32 then some ⟨ds, h⟩ else none

/-- Digits without hyphens. -/
def ofSimple? (cs : List Char) : Option Uuid :=
  (cs.mapM hexDigit?).bind ofDigits?

/-- Take `n` characters followed by a hyphen. -/
def takeGroup? (n : Nat) (cs : List Char) : Option (List Char × List Char) :=
  match cs.drop n with
  | '-' :: rest => if (cs.take n).length = n then some (cs.take n, rest) else none
  | _ => none

/-- Digits in hyphenated groups. -/
def ofHyphenated? (cs : List Char) : Option Uuid := do
  let (a, cs) ← takeGroup? 8 cs
  let (b, cs) ← takeGroup? 4 cs
  let (c, cs) ← takeGroup? 4 cs
  let (d, e) ← takeGroup? 4 cs
  ofSimple? (a ++ b ++ c ++ d ++ e)

/-- Read an identifier in any of its forms. -/
def ofText? (cs : List Char) : Option Uuid :=
  match cs with
  | '\x7b' :: rest =>
    if rest.getLast? = some '\x7d' then ofHyphenated? rest.dropLast else none
  | 'u' :: 'r' :: 'n' :: ':' :: 'u' :: 'u' :: 'i' :: 'd' :: ':' :: rest => ofHyphenated? rest
  | _ => if cs.length = 32 then ofSimple? cs else ofHyphenated? cs

/-- The hyphenated form. -/
def toText (u : Uuid) : List Char :=
  let cs := u.digits.map hexChar
  cs.take 8 ++ '-' :: (cs.drop 8).take 4 ++ '-' :: (cs.drop 12).take 4 ++
    '-' :: (cs.drop 16).take 4 ++ '-' :: cs.drop 20

end Uuid

end BrowserHost.Event
