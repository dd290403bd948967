import BrowserHost.Health.ProcessInfo

/-!
# BrowserHost.Health.Tree

The processes below a root, read off a table of all processes.  Parent links
may be anything: cycles, links to itself, links to nothing, repeated pids.
The walk goes level by level from the root's pid, whether or not the table
lists the root, and meets each pid once.

`Reachable` is the same set of pids as a relation, without the walk.

The program sums memory figures in 64 bits.  Here a sum is a number of any size,
and what is said of it holds of the program for sums that fit.
-/

namespace BrowserHost.Health

/-! ## the walk -/

/-- The children of `pid` in the table whose pids are not in `seen`, each pid
at its first record. -/
def freshChildren (pid : UInt32) (seen : List UInt32) : List ProcessInfo → List ProcessInfo
  | [] => []
  | r :: rs =>
    if r.parent = some pid ∧ r.pid ∉ seen then r :: freshChildren pid (r.pid :: seen) rs
    else freshChildren pid seen rs

/-- The processes met when the pids in `queue` are still to be visited.  Each
step visits one pid, and no pid is queued twice. -/
def walk (table : List ProcessInfo) : Nat → List UInt32 → List UInt32 → List ProcessInfo
  | 0, _, _ => []
  | _ + 1, _, [] => []
  | steps + 1, seen, pid :: queue =>
    let kids := freshChildren pid seen table
    let pids := kids.map (·.pid)
    kids ++ walk table steps (pids ++ seen) (queue ++ pids)

/-- The processes below `root`, nearest first. -/
def descendants (table : List ProcessInfo) (root : UInt32) : List ProcessInfo :=
  walk table (table.length + 1) [root] [root]

/-- The pids that parent links lead to from `root`, in one step or more. -/
inductive Reachable (table : List ProcessInfo) (root : UInt32) : UInt32 → Prop
  | child {r : ProcessInfo} : r ∈ table → r.parent = some root → Reachable table root r.pid
  | step {pid : UInt32} {r : ProcessInfo} :
    Reachable table root pid → r ∈ table → r.parent = some pid → Reachable table root r.pid

/-! ## the tree -/

/-- A root, if the table lists it, and the processes below it. -/
structure ProcessTree where
  root : Option ProcessInfo
  descendants : List ProcessInfo
  deriving DecidableEq, Repr

namespace ProcessTree

/-- The tree below `pid`; the root is the first record with that pid. -/
def ofTable (table : List ProcessInfo) (pid : UInt32) : ProcessTree :=
  { root := table.find? (·.pid == pid), descendants := Health.descendants table pid }

/-- The root and the processes below it, root first. -/
def toList (t : ProcessTree) : List ProcessInfo :=
  t.root.toList ++ t.descendants

/-- Whether the root is listed and running. -/
def rootActive (t : ProcessTree) : Bool :=
  t.root.any (·.active)

/-- A memory figure summed over the tree: the program's sum where it fits 64
bits. -/
def sum (t : ProcessTree) (figure : ProcessInfo → UInt64) : Nat :=
  t.toList.foldr (fun r n => (figure r).toNat + n) 0

/-- The number of processes: the root while it is running, and all below it. -/
def count (t : ProcessTree) : Nat :=
  (if t.rootActive then 1 else 0) + t.descendants.length

end ProcessTree

/-! ## small laws -/

theorem pid_not_mem_of_mem_freshChildren {pid : UInt32} {seen : List UInt32}
    {table : List ProcessInfo} {r : ProcessInfo} (h : r ∈ freshChildren pid seen table) :
    r.pid ∉ seen := by
  induction table generalizing seen with
  | nil => simp [freshChildren] at h
  | cons t ts ih => grind [freshChildren]

theorem mem_table_of_mem_freshChildren {pid : UInt32} {seen : List UInt32}
    {table : List ProcessInfo} {r : ProcessInfo} (h : r ∈ freshChildren pid seen table) :
    r ∈ table ∧ r.parent = some pid := by
  induction table generalizing seen with
  | nil => simp [freshChildren] at h
  | cons t ts ih => grind [freshChildren]

theorem freshChildren_nodup (pid : UInt32) (seen : List UInt32) (table : List ProcessInfo) :
    ((freshChildren pid seen table).map (·.pid)).Nodup := by
  induction table generalizing seen with
  | nil => simp [freshChildren]
  | cons t ts ih =>
    unfold freshChildren
    split
    · refine List.nodup_cons.2 ⟨fun hm => ?_, ih _⟩
      obtain ⟨r, hr, he⟩ := List.mem_map.1 hm
      exact pid_not_mem_of_mem_freshChildren hr (by simp [he])
    · exact ih seen

end BrowserHost.Health
