import BrowserHost.Text.Decimal

/-!
# BrowserHost.Toml.Text

Character classes, white space and strings of TOML.  A reader takes the rest
of the text and gives what it read with what follows.

Strings come in four forms.  Between double quotes a backslash starts an
escape; between single quotes nothing does.  Tripled quotes allow line ends,
which are read as line feeds, and up to two quotes in a row; a line end right
after the opening is dropped.
-/

namespace BrowserHost.Toml

/-! ## characters -/

/-- Blanks within a line. -/
def isWs (c : Char) : Bool :=
  c == ' ' || c == '\t'

/-- Characters of comments and strings: no control character but the tab. -/
def isPrintable (c : Char) : Bool :=
  c == '\t' || (0x20 ≤ c.toNat && c.toNat != 0x7F)

/-- Characters of a key without quotes. -/
def isBareKeyChar (c : Char) : Bool :=
  ('a' ≤ c && c ≤ 'z') || ('A' ≤ c && c ≤ 'Z') || ('0' ≤ c && c ≤ '9') || c == '_' || c == '-'

/-- The value of a hexadecimal digit. -/
def hexValue? (c : Char) : Option Nat :=
  if '0' ≤ c ∧ c ≤ '9' then some (c.toNat - 48)
  else if 'a' ≤ c ∧ c ≤ 'f' then some (c.toNat - 87)
  else if 'A' ≤ c ∧ c ≤ 'F' then some (c.toNat - 55)
  else none

/-! ## space between items -/

/-- The text without leading blanks. -/
def skipWs (cs : List Char) : List Char :=
  cs.dropWhile isWs

/-- Skip a comment, if one starts here. -/
def skipComment : List Char → List Char
  | '#' :: cs => cs.dropWhile isPrintable
  | cs => cs

/-- Skip a line feed, or a carriage return and line feed. -/
def newline? : List Char → Option (List Char)
  | '\n' :: cs => some cs
  | '\r' :: '\n' :: cs => some cs
  | _ => none

/-- Skip to the next line: blanks, a comment, and the line end or the end of
the text. -/
def lineEnd? (cs : List Char) : Option (List Char) :=
  match skipComment (skipWs cs) with
  | [] => some []
  | cs => newline? cs

/-- Skip blanks, line ends and comments that end a line.  Inside a comment the
flag is set. -/
def skipLines (comment : Bool) : List Char → List Char
  | '\r' :: '\n' :: cs => skipLines false cs
  | '\n' :: cs => skipLines false cs
  | c :: cs =>
    if comment then if isPrintable c then skipLines true cs else c :: cs
    else if isWs c then skipLines false cs
    else if c = '#' then skipLines true cs
    else c :: cs
  | [] => []

/-! ## strings of one line -/

/-- The character with the given code, unless it is half of a surrogate pair
or out of range. -/
def scalar? (n : Nat) : Option Char :=
  if h : n.isValidChar then some (Char.ofNatAux n h) else none

/-- The character with the given hexadecimal code. -/
def ofHex? (ds : List Char) : Option Char := do
  let vs ← ds.mapM hexValue?
  scalar? (vs.foldl (fun n v => 16 * n + v) 0)

/-- The character that a letter after a backslash stands for. -/
def shortEscape? : Char → Option Char
  | 'b' => some '\x08'
  | 't' => some '\t'
  | 'n' => some '\n'
  | 'f' => some '\x0c'
  | 'r' => some '\r'
  | '\x22' => some '\x22'
  | '\\' => some '\\'
  | _ => none

/-- Put a character before what was read. -/
def consResult (c : Char) (r : Option (List Char × List Char)) :
    Option (List Char × List Char) :=
  r.map fun (s, rest) => (c :: s, rest)

/-- The rest of a string between double quotes. -/
def basic? : List Char → Option (List Char × List Char)
  | '\x22' :: cs => some ([], cs)
  | '\\' :: 'u' :: a :: b :: c :: d :: cs => do
    consResult (← ofHex? [a, b, c, d]) (basic? cs)
  | '\\' :: 'U' :: a :: b :: c :: d :: e :: f :: g :: h :: cs => do
    consResult (← ofHex? [a, b, c, d, e, f, g, h]) (basic? cs)
  | '\\' :: e :: cs => do consResult (← shortEscape? e) (basic? cs)
  | c :: cs => if isPrintable c && c != '\\' then consResult c (basic? cs) else none
  | [] => none

/-- The rest of a string between single quotes. -/
def literal? : List Char → Option (List Char × List Char)
  | '\'' :: cs => some ([], cs)
  | c :: cs => if isPrintable c then consResult c (literal? cs) else none
  | [] => none

/-! ## strings of several lines -/

/-- Whether a line end follows after blanks. -/
def endsLine (cs : List Char) : Bool :=
  (newline? (skipWs cs)).isSome

/-- The rest of a string between tripled double quotes.  The flag is set after
a backslash that ended its line: blanks and line ends are then dropped. -/
def multiBasic? (dropping : Bool) : List Char → Option (List Char × List Char)
  | '\x22' :: '\x22' :: '\x22' :: '\x22' :: '\x22' :: cs => some (['\x22', '\x22'], cs)
  | '\x22' :: '\x22' :: '\x22' :: '\x22' :: cs => some (['\x22'], cs)
  | '\x22' :: '\x22' :: '\x22' :: cs => some ([], cs)
  | '\\' :: 'u' :: a :: b :: c :: d :: cs => do
    consResult (← ofHex? [a, b, c, d]) (multiBasic? false cs)
  | '\\' :: 'U' :: a :: b :: c :: d :: e :: f :: g :: h :: cs => do
    consResult (← ofHex? [a, b, c, d, e, f, g, h]) (multiBasic? false cs)
  | '\\' :: e :: cs =>
    if endsLine (e :: cs) then multiBasic? true (e :: cs)
    else do consResult (← shortEscape? e) (multiBasic? false cs)
  | '\r' :: '\n' :: cs =>
    if dropping then multiBasic? true cs else consResult '\n' (multiBasic? false cs)
  | c :: cs =>
    if dropping && (isWs c || c == '\n') then multiBasic? true cs
    else if (isPrintable c && c != '\\') || c == '\n' then consResult c (multiBasic? false cs)
    else none
  | [] => none

/-- The rest of a string between tripled single quotes. -/
def multiLiteral? : List Char → Option (List Char × List Char)
  | '\'' :: '\'' :: '\'' :: '\'' :: '\'' :: cs => some (['\'', '\''], cs)
  | '\'' :: '\'' :: '\'' :: '\'' :: cs => some (['\''], cs)
  | '\'' :: '\'' :: '\'' :: cs => some ([], cs)
  | '\r' :: '\n' :: cs => consResult '\n' (multiLiteral? cs)
  | c :: cs =>
    if isPrintable c || c == '\n' then consResult c (multiLiteral? cs) else none
  | [] => none

/-- The text without a line end at its start. -/
def dropNewline (cs : List Char) : List Char :=
  (newline? cs).getD cs

/-- A string that starts here, in any form. -/
def string? : List Char → Option (List Char × List Char)
  | '\x22' :: '\x22' :: '\x22' :: cs => multiBasic? false (dropNewline cs)
  | '\x22' :: cs => basic? cs
  | '\'' :: '\'' :: '\'' :: cs => multiLiteral? (dropNewline cs)
  | '\'' :: cs => literal? cs
  | _ => none

end BrowserHost.Toml
