import BrowserHost.Toml.Number
import BrowserHost.Toml.Table

/-!
# BrowserHost.Toml.Document

The statements of a document: table headers, headers of arrays of tables, and
keys with their values.  A text is first read as a list of statements, which
then build the table.

Arrays and inline tables may be nested to a limited depth, and a key has a
limited number of parts.
-/

namespace BrowserHost.Toml

/-! ## limits -/

/-- How many arrays and inline tables may enclose a value. -/
def maxDepth : Nat := 79

/-- How many parts a key may have. -/
def maxKeyParts : Nat := 79

/-! ## keys -/

/-- One part of a key: bare, or a string of one line in quotes. -/
def keyPart? : List Char → Option (String × List Char)
  | '\x22' :: cs => (basic? cs).map fun (s, rest) => (String.ofList s, rest)
  | '\'' :: cs => (literal? cs).map fun (s, rest) => (String.ofList s, rest)
  | cs =>
    match cs.takeWhile isBareKeyChar with
    | [] => none
    | k => some (String.ofList k, cs.dropWhile isBareKeyChar)

/-- At most `n` parts with points between, blanks around each. -/
def keyOf? : Nat → List Char → Option (List String × List Char)
  | 0, _ => none
  | n + 1, cs => do
    let (k, cs) ← keyPart? (skipWs cs)
    match skipWs cs with
    | '.' :: cs => do
      let (ks, cs) ← keyOf? n cs
      some (k :: ks, cs)
    | cs => some ([k], cs)

/-- A key: the path to a table and the last part. -/
def key? (cs : List Char) : Option (List String × String × List Char) := do
  let (ks, cs) ← keyOf? maxKeyParts cs
  some (ks.dropLast, ← ks.getLast?, cs)

/-! ## values -/

mutual

/-- A value within `depth` more levels of nesting.  The first argument bounds
the number of steps. -/
def value? : Nat → Nat → List Char → Option (Value × List Char)
  | 0, _, _ => none
  | n + 1, depth, '[' :: cs =>
    match depth with
    | 0 => none
    | d + 1 => (items? n d cs).map fun (vs, rest) => (.array vs, rest)
  | n + 1, depth, '\x7b' :: cs =>
    match depth, skipWs cs with
    | 0, _ => none
    | _ + 1, '\x7d' :: rest => some (.table [], rest)
    | d + 1, cs => do
      let (es, rest) ← members? n d cs
      let t ← Table.ofEntries? es
      some (.table t.toEntries, rest)
  | _ + 1, _, 't' :: 'r' :: 'u' :: 'e' :: cs => some (.boolean true, cs)
  | _ + 1, _, 'f' :: 'a' :: 'l' :: 's' :: 'e' :: cs => some (.boolean false, cs)
  | _ + 1, _, c :: cs =>
    if c = '\x22' ∨ c = '\'' then
      (string? (c :: cs)).map fun (s, rest) => (.string (String.ofList s), rest)
    else number? (c :: cs)
  | _ + 1, _, [] => none

/-- The items of an array that are still to come, and its closing bracket. -/
def items? : Nat → Nat → List Char → Option (List Value × List Char)
  | 0, _, _ => none
  | n + 1, depth, cs =>
    match skipLines false cs with
    | ']' :: rest => some ([], rest)
    | cs => do
      let (v, cs) ← value? n depth cs
      match skipLines false cs with
      | ']' :: rest => some ([v], rest)
      | ',' :: cs => do
        let (vs, rest) ← items? n depth cs
        some (v :: vs, rest)
      | _ => none

/-- The entries of an inline table that are still to come, at least one, and
its closing brace. -/
def members? : Nat → Nat → List Char → Option (List (List String × String × Value) × List Char)
  | 0, _, _ => none
  | n + 1, depth, cs => do
    let (path, key, cs) ← key? cs
    match cs with
    | '=' :: cs => do
      let (v, cs) ← value? n depth (skipWs cs)
      match skipWs cs with
      | '\x7d' :: rest => some ([(path, key, v)], rest)
      | ',' :: cs => do
        let (es, rest) ← members? n depth cs
        some ((path, key, v) :: es, rest)
      | _ => none
    | _ => none

end

/-! ## statements -/

/-- A statement of a document. -/
inductive Statement
  | table (path : List String) (key : String)
  | element (path : List String) (key : String)
  | entry (path : List String) (key : String) (v : Value)

/-- The statement that starts here, up to the end of its line. -/
def statement? : List Char → Option (Statement × List Char)
  | '[' :: '[' :: cs => do
    let (path, key, cs) ← key? cs
    match cs with
    | ']' :: ']' :: cs => some (.element path key, ← lineEnd? cs)
    | _ => none
  | '[' :: cs => do
    let (path, key, cs) ← key? cs
    match cs with
    | ']' :: cs => some (.table path key, ← lineEnd? cs)
    | _ => none
  | cs => do
    let (path, key, cs) ← key? cs
    match cs with
    | '=' :: cs => do
      let (v, cs) ← value? (cs.length + 1) maxDepth (skipWs cs)
      some (.entry path key v, ← lineEnd? cs)
    | _ => none

/-- The statements of a text, in at most as many steps as the first argument
says. -/
def statementsIn? : Nat → List Char → Option (List Statement)
  | 0, _ => none
  | n + 1, cs =>
    match skipWs cs with
    | [] => some []
    | c :: cs =>
      if c = '#' ∨ c = '\n' ∨ c = '\r' then do statementsIn? n (← lineEnd? (c :: cs))
      else do
        let (s, rest) ← statement? (c :: cs)
        (statementsIn? n rest).map (s :: ·)

/-- The text without a byte order mark. -/
def dropMark : List Char → List Char
  | '\uFEFF' :: cs => cs
  | cs => cs

/-- The statements of a text. -/
def statements? (text : List Char) : Option (List Statement) :=
  statementsIn? (text.length + 1) (dropMark text)

/-! ## documents -/

/-- A document in the making: the root, and the path of the table that entries
go to. -/
structure Draft where
  root : Table := Table.empty
  current : List String := []

/-- Carry out one statement. -/
def Draft.add? (d : Draft) : Statement → Option Draft
  | .table path key => do
    let root ← d.root.update false (Table.define key) path
    some ⟨root, path ++ [key]⟩
  | .element path key => do
    let root ← d.root.update false (Table.append key) path
    some ⟨root, path ++ [key]⟩
  | .entry path key v => do
    let root ← d.root.update false (Table.addEntry path key v) d.current
    some { d with root := root }

/-- The keys and values of a document. -/
def document? (text : List Char) : Option (List (String × Value)) := do
  let draft ← (← statements? text).foldlM Draft.add? {}
  some draft.root.toEntries

end BrowserHost.Toml
