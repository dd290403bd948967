import BrowserHost.Text.Decimal

/-!
# BrowserHost.Json.Value

JSON values as they stand in a text: members of objects keep their order and
may repeat, numbers keep their spelling, and a string whose escapes name half
of a surrogate pair has no value.

A value is read whole before it is given a type; `Value.ofText?` says whether
the text is one JSON value at all.
-/

namespace BrowserHost.Json

/-! ## values -/

/-- A JSON value. -/
inductive Value
  | null
  | bool (b : Bool)
  | number (spelling : List Char)
  | string (s : Option String)
  | array (items : List Value)
  | object (members : List (Option String × Value))

namespace Value

/-! ## strings -/

/-- A character of a string, or half of a surrogate pair. -/
inductive Piece
  | char (c : Char)
  | half (n : Nat)

/-- The characters of a string; `none` if a half stands alone. -/
def joinPieces : List Piece → Option (List Char)
  | [] => some []
  | .char c :: ps => (joinPieces ps).map (c :: ·)
  | .half hi :: .half lo :: ps =>
    if hi < 0xDC00 ∧ 0xDC00 ≤ lo then
      (joinPieces ps).map (Char.ofNat (0x10000 + (hi - 0xD800) * 0x400 + (lo - 0xDC00)) :: ·)
    else none
  | .half _ :: _ => none

/-- The piece with the given code. -/
def pieceOf (n : Nat) : Piece :=
  if 0xD800 ≤ n ∧ n ≤ 0xDFFF then .half n else .char (Char.ofNat n)

/-- The value of a hexadecimal digit. -/
def hexValue? (c : Char) : Option Nat :=
  if '0' ≤ c ∧ c ≤ '9' then some (c.toNat - 48)
  else if 'a' ≤ c ∧ c ≤ 'f' then some (c.toNat - 87)
  else if 'A' ≤ c ∧ c ≤ 'F' then some (c.toNat - 55)
  else none

/-- The value of four hexadecimal digits. -/
def hexValue4? (a b c d : Char) : Option Nat := do
  some (((← hexValue? a) * 16 + (← hexValue? b)) * 256 + (← hexValue? c) * 16 + (← hexValue? d))

/-- The character that a letter after a backslash stands for. -/
def shortEscape? : Char → Option Char
  | '\x22' => some '\x22'
  | '\\' => some '\\'
  | '/' => some '/'
  | 'b' => some '\x08'
  | 'f' => some '\x0c'
  | 'n' => some '\n'
  | 'r' => some '\r'
  | 't' => some '\t'
  | _ => none

/-- The pieces up to the closing quote, and what follows it. -/
def pieces? : List Char → Option (List Piece × List Char)
  | [] => none
  | '\x22' :: cs => some ([], cs)
  | '\\' :: 'u' :: a :: b :: c :: d :: cs => do
    let n ← hexValue4? a b c d
    let (ps, rest) ← pieces? cs
    some (pieceOf n :: ps, rest)
  | '\\' :: e :: cs => do
    let c ← shortEscape? e
    let (ps, rest) ← pieces? cs
    some (.char c :: ps, rest)
  | c :: cs =>
    if c.toNat < 0x20 ∨ c = '\\' then none
    else do
      let (ps, rest) ← pieces? cs
      some (.char c :: ps, rest)

/-- The string after an opening quote, and what follows it. -/
def string? (cs : List Char) : Option (Option String × List Char) :=
  (pieces? cs).map fun (ps, rest) => ((joinPieces ps).map String.ofList, rest)

/-! ## numbers -/

/-- Leading digits and the rest. -/
def spanDigits (cs : List Char) : List Char × List Char :=
  cs.span fun c => (Text.digit? c).isSome

/-- A whole part: zero, or digits that do not start with zero. -/
def wholePart? (cs : List Char) : Option (List Char × List Char) :=
  match spanDigits cs with
  | ([], _) => none
  | (['0'], rest) => some (['0'], rest)
  | ('0' :: _, _) => none
  | (ds, rest) => some (ds, rest)

/-- A fraction, if a point follows. -/
def fractionPart? : List Char → Option (List Char × List Char)
  | '.' :: cs =>
    match spanDigits cs with
    | ([], _) => none
    | (ds, rest) => some ('.' :: ds, rest)
  | cs => some ([], cs)

/-- A sign, if there is one. -/
def signPart : List Char → List Char × List Char
  | '+' :: cs => (['+'], cs)
  | '-' :: cs => (['-'], cs)
  | cs => ([], cs)

/-- An exponent, if its letter follows. -/
def exponentPart? : List Char → Option (List Char × List Char)
  | c :: cs =>
    if c = 'e' ∨ c = 'E' then
      let (sign, cs) := signPart cs
      match spanDigits cs with
      | ([], _) => none
      | (ds, rest) => some (c :: sign ++ ds, rest)
    else some ([], c :: cs)
  | [] => some ([], [])

/-- A number that starts here, by its spelling. -/
def number? (cs : List Char) : Option (List Char × List Char) := do
  let (sign, cs) := match cs with
    | '-' :: cs => (['-'], cs)
    | cs => ([], cs)
  let (whole, cs) ← wholePart? cs
  let (fraction, cs) ← fractionPart? cs
  let (exponent, cs) ← exponentPart? cs
  some (sign ++ whole ++ fraction ++ exponent, cs)

/-! ## the reader -/

/-- The text without leading JSON white space. -/
def skipSpace (cs : List Char) : List Char :=
  cs.dropWhile fun c => c == ' ' || c == '\n' || c == '\t' || c == '\r'

/-- What follows `word` at the start of the text. -/
def after? : List Char → List Char → Option (List Char)
  | [], cs => some cs
  | w :: ws, c :: cs => if w = c then after? ws cs else none
  | _ :: _, [] => none

mutual

/-- A value, which starts at the next character that is no white space, and
the text after it.  Each step of the three readers takes one off the count,
and takes at least one character. -/
def value? : Nat → List Char → Option (Value × List Char)
  | 0, _ => none
  | n + 1, cs =>
    match skipSpace cs with
    | [] => none
    | '\x22' :: cs => (string? cs).map fun (s, rest) => (.string s, rest)
    | '[' :: cs =>
      match skipSpace cs with
      | ']' :: rest => some (.array [], rest)
      | _ => (items? n cs).map fun (vs, rest) => (.array vs, rest)
    | '\x7b' :: cs =>
      match skipSpace cs with
      | '\x7d' :: rest => some (.object [], rest)
      | _ => (members? n cs).map fun (ms, rest) => (.object ms, rest)
    | 'n' :: cs => (after? ['u', 'l', 'l'] cs).map (.null, ·)
    | 't' :: cs => (after? ['r', 'u', 'e'] cs).map (.bool true, ·)
    | 'f' :: cs => (after? ['a', 'l', 's', 'e'] cs).map (.bool false, ·)
    | cs => (number? cs).map fun (s, rest) => (.number s, rest)

/-- The items of an array up to its closing bracket. -/
def items? : Nat → List Char → Option (List Value × List Char)
  | 0, _ => none
  | n + 1, cs => do
    let (v, cs) ← value? n cs
    match skipSpace cs with
    | ',' :: cs => (items? n cs).map fun (vs, rest) => (v :: vs, rest)
    | ']' :: rest => some ([v], rest)
    | _ => none

/-- The members of an object up to its closing brace. -/
def members? : Nat → List Char → Option (List (Option String × Value) × List Char)
  | 0, _ => none
  | n + 1, cs =>
    match skipSpace cs with
    | '\x22' :: cs => do
      let (key, cs) ← string? cs
      match skipSpace cs with
      | ':' :: cs => do
        let (v, cs) ← value? n cs
        match skipSpace cs with
        | ',' :: cs => (members? n cs).map fun (ms, rest) => ((key, v) :: ms, rest)
        | '\x7d' :: rest => some ([(key, v)], rest)
        | _ => none
      | _ => none
    | _ => none

end

/-- The value that a text spells, with white space around it. -/
def ofText? (cs : List Char) : Option Value :=
  match value? (cs.length + 1) cs with
  | some (v, rest) => if (skipSpace rest).isEmpty then some v else none
  | none => none

/-! ## typed views -/

/-- The string, if it is one and has a value. -/
def asString? : Value → Option String
  | .string s => s
  | _ => none

/-- The truth value, if it is one. -/
def asBool? : Value → Option Bool
  | .bool b => some b
  | _ => none

/-- The number, if it is spelled as a whole number of at most `limit`. -/
def asNat? (limit : Nat) : Value → Option Nat
  | .number s =>
    match Text.digits? s with
    | some n => if n ≤ limit then some n else none
    | none => none
  | _ => none

/-- Members with their keys, if every key has a value. -/
def keyed? : List (Option String × Value) → Option (List (String × Value))
  | [] => some []
  | (some k, v) :: ms => (keyed? ms).map ((k, v) :: ·)
  | (none, _) :: _ => none

/-- The values of the members with the given key. -/
def valuesOf (key : String) (ms : List (String × Value)) : List Value :=
  (ms.filter (·.1 == key)).map (·.2)

/-- The fields of a record in the given order, one entry per field: from an
object whose other members are passed over, where a field may be absent but
not repeated; or from an array of exactly these fields. -/
def fields? (names : List String) : Value → Option (List (Option Value))
  | .object ms => do
    let ms ← keyed? ms
    names.mapM fun k =>
      match valuesOf k ms with
      | [] => some none
      | [v] => some (some v)
      | _ => none
  | .array vs => if vs.length = names.length then some (vs.map some) else none
  | _ => none

end Value

end BrowserHost.Json
