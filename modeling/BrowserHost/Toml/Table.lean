import BrowserHost.Toml.Value

/-!
# BrowserHost.Toml.Table

A table under construction.  TOML writes one table in several places, so a
table remembers how it came to be: a header `[a.b]` defines `b` and implies
`a`; a dotted key `a.b` implies `a` as a dotted table.  What is implied may be
added to, what is defined may not be defined again.

* `Table.find?_put`: what was put under a key is found there, and nothing else
  changed.
-/

namespace BrowserHost.Toml

/-! ## tables -/

mutual

/-- What a key of a table stands for: a value, a table, or an array of tables
of which only the last can still grow. -/
inductive Node
  | value (v : Value)
  | table (t : Table)
  | tables (earlier : List Table) (last : Table)

/-- A table, with the marks of how it came to be. -/
inductive Table
  | mk (implicit dotted : Bool) (entries : List (String × Node))

end

namespace Table

/-- Whether the table was only implied. -/
def implicit : Table → Bool
  | ⟨i, _, _⟩ => i

/-- Whether dotted keys made the table. -/
def dotted : Table → Bool
  | ⟨_, d, _⟩ => d

/-- The keys and what they stand for, in order. -/
def entries : Table → List (String × Node)
  | ⟨_, _, es⟩ => es

/-- A table of its own with nothing in it. -/
def empty : Table :=
  ⟨false, false, []⟩

/-! ## look-up and change -/

/-- What a key stands for among entries. -/
def lookup (key : String) : List (String × Node) → Option Node
  | [] => none
  | (k, n) :: es => if k = key then some n else lookup key es

/-- The entries with `node` under `key`, in place or at the end. -/
def replace (key : String) (node : Node) : List (String × Node) → List (String × Node)
  | [] => [(key, node)]
  | (k, n) :: es => if k = key then (key, node) :: es else (k, n) :: replace key node es

/-- What a key of the table stands for. -/
def find? (t : Table) (key : String) : Option Node :=
  lookup key t.entries

/-- The table with `node` under `key`. -/
def put (t : Table) (key : String) (node : Node) : Table :=
  ⟨t.implicit, t.dotted, replace key node t.entries⟩

theorem lookup_replace (key k : String) (node : Node) (es : List (String × Node)) :
    lookup k (replace key node es) = if key = k then some node else lookup k es := by
  induction es with
  | nil => rfl
  | cons e es ih => grind [lookup, replace]

theorem find?_put (t : Table) (key k : String) (node : Node) :
    (t.put key node).find? k = if key = k then some node else t.find? k :=
  lookup_replace key k node t.entries

/-! ## following a path -/

/-- Change the table at the end of `path`.  Keys that stand for nothing become
implied tables; a value cannot be entered, and a dotted path cannot enter a
defined table. -/
def update (isDotted : Bool) (f : Table → Option Table) : List String → Table → Option Table
  | [], t => f t
  | k :: ks, t =>
    match t.find? k with
    | none => (update isDotted f ks ⟨true, isDotted, []⟩).map fun u => t.put k (.table u)
    | some (.value _) => none
    | some (.table u) =>
      if isDotted && !u.implicit then none
      else (update isDotted f ks u).map fun u => t.put k (.table u)
    | some (.tables earlier u) =>
      (update isDotted f ks u).map fun u => t.put k (.tables earlier u)

/-- Put a value under a new key.  A table that `path` leads to has to be a
dotted one, and the table itself must not be. -/
def addEntry (path : List String) (key : String) (v : Value) : Table → Option Table :=
  update true (fun t =>
    if t.dotted == path.isEmpty then none
    else match t.find? key with
      | some _ => none
      | none => some (t.put key (.value v))) path

/-- Define the table `key`, which may have been implied by a header before. -/
def define (key : String) (t : Table) : Option Table :=
  match t.find? key with
  | none => some (t.put key (.table empty))
  | some (.table u) =>
    if u.implicit && !u.dotted then some (t.put key (.table ⟨false, false, u.entries⟩)) else none
  | some _ => none

/-- Add one more table to the array of tables `key`. -/
def append (key : String) (t : Table) : Option Table :=
  match t.find? key with
  | none => some (t.put key (.tables [] empty))
  | some (.tables earlier u) => some (t.put key (.tables (earlier ++ [u]) empty))
  | some _ => none

end Table

/-! ## finished tables -/

mutual

/-- The value that a node is. -/
def Node.toValue : Node → Value
  | .value v => v
  | .table t => .table t.toEntries
  | .tables earlier last => .array (Table.listToValues earlier ++ [.table last.toEntries])

/-- The values of a table's keys. -/
def Table.toEntries : Table → List (String × Value)
  | ⟨_, _, es⟩ => Table.entriesToValues es

/-- The values of entries. -/
def Table.entriesToValues : List (String × Node) → List (String × Value)
  | [] => []
  | (k, n) :: es => (k, n.toValue) :: Table.entriesToValues es

/-- The values of tables. -/
def Table.listToValues : List Table → List Value
  | [] => []
  | t :: ts => .table t.toEntries :: Table.listToValues ts

end

/-- The table of an inline table's entries, each a dotted path, a key and a
value. -/
def Table.ofEntries? (es : List (List String × String × Value)) : Option Table :=
  es.foldlM (fun t (path, key, v) => t.addEntry path key v) Table.empty

end BrowserHost.Toml
