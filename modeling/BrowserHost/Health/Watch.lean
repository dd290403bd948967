import BrowserHost.Health.Monitor

/-!
# BrowserHost.Health.Watch

A monitor together with the clock it reads and the table it looks at, and
what can happen to the three.

* `root?_step`: only an observation changes what is observed;
* `run_append`: a run in two parts is a run.
-/

namespace BrowserHost.Health

/-! ## a watch -/

/-- A monitor, the time in nanoseconds, and the processes there are. -/
structure Watch where
  monitor : Monitor
  now : Nat := 0
  table : List ProcessInfo := []

/-- The memory and the number of processes of a tree.  Memory is summed over the
tree, and the program's figures are these where the sums fit 64 bits. -/
structure Metrics where
  resident : Nat
  allocated : Nat
  shared : Nat
  processes : Nat
  deriving DecidableEq, Repr

namespace Watch

/-- What can happen to a watch. -/
inductive Event
  | observe (pid : UInt32)
  | advance (ns : Nat)
  | setTable (table : List ProcessInfo)
  | add (r : ProcessInfo)
  | remove (pid : UInt32)
  | setActive (pid : UInt32) (active : Bool)
  | assess
  | askOperational
  | measure
  | list
  deriving DecidableEq, Repr

/-- What an event answers. -/
inductive Answer
  | done
  | verdict (v : Verdict)
  | operational (b : Bool)
  | metrics (m : Metrics)
  | records (rs : List ProcessInfo)
  deriving DecidableEq, Repr

/-- Assess the tree now. -/
def assess (w : Watch) : Verdict × Watch :=
  let (v, m) := w.monitor.assess w.now w.table
  (v, { w with monitor := m })

/-- The figures of the tree now. -/
def metrics (w : Watch) : Metrics :=
  { resident := w.monitor.figure w.table (·.resident)
    allocated := w.monitor.figure w.table (·.allocated)
    shared := w.monitor.figure w.table (·.shared)
    processes := w.monitor.processes w.table }

/-- The processes of the tree now. -/
def snapshot (w : Watch) : List ProcessInfo :=
  w.monitor.snapshot w.table

/-- Let one thing happen. -/
def step (w : Watch) : Event → Answer × Watch
  | .observe pid => (.done, { w with monitor := w.monitor.observe w.now pid })
  | .advance ns => (.done, { w with now := w.now + ns })
  | .setTable t => (.done, { w with table := t })
  | .add r => (.done, { w with table := w.table ++ [r] })
  | .remove pid => (.done, { w with table := w.table.filter (·.pid != pid) })
  | .setActive pid b =>
    (.done, { w with table := w.table.map fun r => if r.pid = pid then { r with active := b } else r })
  | .assess => let (v, w) := w.assess; (.verdict v, w)
  | .askOperational => let (v, w) := w.assess; (.operational v.isOperational, w)
  | .measure => (.metrics w.metrics, w)
  | .list => (.records w.snapshot, w)

/-- Let several things happen; the answers in order. -/
def run (w : Watch) : List Event → List Answer × Watch
  | [] => ([], w)
  | e :: es =>
    let (a, w) := w.step e
    let (rest, w) := run w es
    (a :: rest, w)

theorem run_append (w : Watch) (es fs : List Event) :
    (w.run (es ++ fs)).2 = ((w.run es).2.run fs).2 := by
  induction es generalizing w with
  | nil => rfl
  | cons e es ih => simp [run, ih]

theorem root?_step {w : Watch} {e : Event} (h : ∀ pid, e ≠ .observe pid) :
    (w.step e).2.monitor.root? = w.monitor.root? := by
  cases e <;> simp_all [step, assess, Monitor.assess_target]

end Watch

end BrowserHost.Health
