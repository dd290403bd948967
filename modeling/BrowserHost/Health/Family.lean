import BrowserHost.Health.Monitor

/-!
# BrowserHost.Health.Family

A host process and its children, as the table of processes shows them.  A
child that has ended stays listed without memory until it is reaped.
-/

namespace BrowserHost.Health

/-! ## children -/

/-- How far a child's life has come. -/
inductive Life
  | running
  | ended
  | reaped
  deriving DecidableEq, Repr

/-- A child, under the label that it was started with. -/
structure Child where
  label : String
  name : String
  pid : UInt32
  life : Life
  deriving DecidableEq, Repr

/-- The children that the host has started, latest first. -/
structure Family where
  children : List Child := []
  deriving DecidableEq, Repr

namespace Family

/-- The pid of the host. -/
def hostPid : UInt32 := 1

/-- Start a child. -/
def start (f : Family) (label name : String) : Family :=
  ⟨⟨label, name, UInt32.ofNat (f.children.length + 2), .running⟩ :: f.children⟩

/-- Bring the first child with a label to a stage of life. -/
def bringFirst (label : String) (life : Life) : List Child → List Child
  | [] => []
  | c :: cs =>
    if c.label = label then { c with life := life } :: cs else c :: bringFirst label life cs

/-- Bring the latest child with a label to a stage of life. -/
def bring (f : Family) (label : String) (life : Life) : Family :=
  ⟨bringFirst label life f.children⟩

/-- The pid of the latest child with a label. -/
def pid? (f : Family) (label : String) : Option UInt32 :=
  (f.children.find? (·.label == label)).map (·.pid)

/-! ## the table -/

/-- A process that holds some memory of each kind if it is running, and none
if it has ended. -/
def record (pid : UInt32) (parent : Option UInt32) (name : String) (active : Bool) : ProcessInfo :=
  let memory : UInt64 := if active then 1 else 0
  ⟨pid, parent, name, memory, memory, memory, active⟩

/-- How a child is listed. -/
def Child.record? (c : Child) : Option ProcessInfo :=
  match c.life with
  | .running => some (record c.pid (some hostPid) c.name true)
  | .ended => some (record c.pid (some hostPid) c.name false)
  | .reaped => none

/-- The table of processes. -/
def table (f : Family) : List ProcessInfo :=
  record hostPid none "" true :: f.children.filterMap Child.record?

/-- The sorted names of the running processes listed, without the host's. -/
def helperNames (listed : List ProcessInfo) : List String :=
  ((listed.filter fun r => r.active && r.pid != hostPid).map (·.name)).mergeSort
    fun a b => !decide (b < a)

end Family

end BrowserHost.Health
