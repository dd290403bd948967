import BrowserHost.Settings.Environment

/-!
# BrowserHost.Program.Endpoint

The address of a trace collector.  It is a path, a host that may have a number
after a colon, or a scheme, a host and a path.  An address that is none of these
is refused; no address, or an empty one, is fine.
-/

namespace BrowserHost.Program

/-! ## characters -/

/-- ASCII letters and digits. -/
def isAlnum (c : Char) : Bool :=
  ('a' ≤ c && c ≤ 'z') || ('A' ≤ c && c ≤ 'Z') || ('0' ≤ c && c ≤ '9')

/-- Characters of a scheme. -/
def isSchemeChar (c : Char) : Bool :=
  isAlnum c || "+-.".toList.contains c

/-- Characters of a host or a user name that stand for themselves. -/
def isHostChar (c : Char) : Bool :=
  isAlnum c || "!$&'()*+,-.;=_~".toList.contains c

/-- Characters of a path. -/
def isPathChar (c : Char) : Bool :=
  let n := c.toNat
  n == 0x21 || (0x24 ≤ n && n ≤ 0x3B) || n == 0x3D || (0x40 ≤ n && n ≤ 0x5F) ||
    (0x61 ≤ n && n ≤ 0x7E) || 0x7F ≤ n || c == '\x22'

/-- Characters of a query. -/
def isQueryChar (c : Char) : Bool :=
  let n := c.toNat
  n == 0x21 || (0x24 ≤ n && n ≤ 0x3B) || n == 0x3D || 0x3F ≤ n

/-! ## scheme -/

/-- The longest scheme. -/
def maxScheme : Nat := 64

/-- What a text begins with: a scheme of some length, none, or one that is too
long. -/
inductive SchemeStart
  | none
  | scheme (length : Nat)
  | tooLong

/-- Look for a scheme after `n` characters of one. -/
def schemeFrom (n : Nat) : List Char → SchemeStart
  | ':' :: '/' :: '/' :: _ => if maxScheme < n then .tooLong else .scheme n
  | c :: cs => if isSchemeChar c then schemeFrom (n + 1) cs else .none
  | [] => .none

/-! ## authority -/

/-- What has been seen of an authority. -/
structure Authority where
  colons : Nat := 0
  opened : Bool := false
  closed : Bool := false
  percent : Bool := false
  /-- Whether the last character was an at sign. -/
  atEnd : Bool := false

/-- Whether what has been seen is a whole authority. -/
def Authority.isWhole (a : Authority) : Bool :=
  a.opened == a.closed && a.colons ≤ 1 && !a.atEnd && !a.percent

/-- Read one character of an authority. -/
def Authority.read? (a : Authority) (c : Char) : Option Authority :=
  let a := { a with atEnd := false }
  if c = ':' then if 8 ≤ a.colons then none else some { a with colons := a.colons + 1 }
  else if c = '[' then if a.percent || a.opened then none else some { a with opened := true }
  else if c = ']' then
    if !a.opened || a.closed then none
    else some { a with closed := true, colons := 0, percent := false }
  else if c = '@' then some { a with colons := 0, percent := false, atEnd := true }
  else if c = '%' then some { a with percent := true }
  else if isHostChar c then some a
  else none

/-- Read an authority up to a slash, a question mark or a number sign; what
follows it. -/
def authority? (a : Authority) : List Char → Option (List Char)
  | [] => if a.isWhole then some [] else none
  | c :: cs =>
    if c = '/' ∨ c = '?' ∨ c = '#' then if a.isWhole then some (c :: cs) else none
    else do authority? (← a.read? c) cs

/-! ## path and query -/

/-- Whether the rest of a query is well formed; what follows a number sign
does not matter. -/
def isQuery : List Char → Bool
  | [] => true
  | c :: cs => c == '#' || (isQueryChar c && isQuery cs)

/-- Whether a path and its query are well formed. -/
def isPath : List Char → Bool
  | [] => true
  | c :: cs => c == '#' || (if c = '?' then isQuery cs else isPathChar c && isPath cs)

/-! ## addresses -/

/-- The most bytes that an address may have. -/
def maxAddress : Nat := 65534

/-- Whether the text is a host, perhaps with a number, and nothing else. -/
def isAuthority (cs : List Char) : Bool :=
  match authority? {} cs with
  | some rest => rest.isEmpty
  | none => false

/-- Whether the text is a host followed by a path. -/
def isHostAndPath (cs : List Char) : Bool :=
  match authority? {} cs with
  | some rest => rest.length != cs.length && isPath rest
  | none => false

/-- Whether a text is an address. -/
def isAddress (s : String) : Bool :=
  let cs := s.toList
  if maxAddress < s.utf8ByteSize then false
  else
    match cs with
    | [] => false
    | '/' :: _ => isPath cs
    | ['*'] => true
    | _ =>
      match schemeFrom 0 cs with
      | .none => isAuthority cs
      | .tooLong => false
      | .scheme n => isHostAndPath (cs.drop (n + 3))

/-- Whether the collector that the environment names cannot be used. -/
def badCollector (env : Environment) : Bool :=
  match env.nonempty? "OTEL_EXPORTER_OTLP_ENDPOINT" with
  | some s => !isAddress s
  | none => false

end BrowserHost.Program
