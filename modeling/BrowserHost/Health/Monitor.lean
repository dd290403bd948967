import BrowserHost.Health.Mandatory
import BrowserHost.Health.Tree

/-!
# BrowserHost.Health.Monitor

Health of a process tree.  A monitor watches the tree below one root pid and
asks which mandatory names run in it.  A tree gets a grace window after it is
first observed; after that every mandatory name has to be the name of a
running descendant.  The monitor keeps no process data: every question is put
to a fresh table at a given time.

* `Verdict.isOperational_iff`: which verdicts count as healthy;
* `assess_target`: an assessment never changes what is observed.
-/

namespace BrowserHost.Health

/-! ## verdicts -/

/-- Outcome of one assessment. -/
inductive Verdict
  | unmonitored
  | starting
  | operational
  | rootInactive
  | degraded (missing : List String)
  deriving DecidableEq, Repr

/-- Healthy unless known to be otherwise. -/
def Verdict.isOperational : Verdict → Bool
  | .unmonitored | .starting | .operational => true
  | .rootInactive | .degraded _ => false

theorem Verdict.isOperational_iff (v : Verdict) :
    v.isOperational = true ↔ v = .unmonitored ∨ v = .starting ∨ v = .operational := by
  cases v <;> simp [isOperational]

/-! ## the monitor -/

/-- What is observed: the root, since when, and the mask of names found
missing last. -/
structure Target where
  root : UInt32
  since : Nat
  mask : UInt32
  deriving DecidableEq, Repr

/-- A monitor with its mandatory names and grace window in nanoseconds. -/
structure Monitor where
  mandatory : MandatorySet
  grace : Nat := 10 * Nat.pow 10 9
  target : Option Target := none

namespace Monitor

/-- Observe `pid` from `now` on, or nothing if `pid` is zero. -/
def observe (m : Monitor) (now : Nat) (pid : UInt32) : Monitor :=
  if pid = 0 then { m with target := none }
  else { m with target := some ⟨pid, now, m.mandatory.fullMask⟩ }

/-- The observed pid. -/
def root? (m : Monitor) : Option UInt32 :=
  m.target.map (·.root)

/-- The mask of the last full assessment. -/
def mask? (m : Monitor) : Option UInt32 :=
  m.target.map (·.mask)

/-- The mask with the bits of the running processes' names cleared; once no
bit is left the rest is not looked at. -/
def clearActive (s : MandatorySet) (mask : UInt32) : List ProcessInfo → UInt32
  | [] => mask
  | r :: rs =>
    if mask = 0 then mask
    else if r.active then
      match s.bit r.name with
      | some b => clearActive s (mask &&& ~~~b) rs
      | none => clearActive s mask rs
    else clearActive s mask rs

/-- The mask of the names that the tree lacks.  A tree with fewer descendants
than there are names counts as lacking them all. -/
def lackingMask (s : MandatorySet) (t : ProcessTree) : UInt32 :=
  if s.names.length ≤ t.descendants.length then clearActive s s.fullMask t.descendants
  else s.fullMask

/-- Assess the tree in `table` at time `now`. -/
def assess (m : Monitor) (now : Nat) (table : List ProcessInfo) : Verdict × Monitor :=
  match m.target with
  | none => (.unmonitored, m)
  | some g =>
    let tree := ProcessTree.ofTable table g.root
    if !tree.rootActive then (.rootInactive, m)
    else if now - g.since < m.grace then (.starting, m)
    else
      let mask := lackingMask m.mandatory tree
      let m := { m with target := some { g with mask := mask } }
      if mask = 0 then (.operational, m) else (.degraded (m.mandatory.missing mask), m)

/-- The observed tree. -/
def tree? (m : Monitor) (table : List ProcessInfo) : Option ProcessTree :=
  m.target.map fun g => ProcessTree.ofTable table g.root

/-- A memory figure of the observed tree, as a sum that fits 64 bits; nothing
observed holds no memory. -/
def figure (m : Monitor) (table : List ProcessInfo) (f : ProcessInfo → UInt64) : Nat :=
  (m.tree? table).elim 0 (·.sum f)

/-- The number of processes in the observed tree. -/
def processes (m : Monitor) (table : List ProcessInfo) : Nat :=
  (m.tree? table).elim 0 (·.count)

/-- The records of the observed tree, root first. -/
def snapshot (m : Monitor) (table : List ProcessInfo) : List ProcessInfo :=
  (m.tree? table).elim [] (·.toList)

theorem assess_target (m : Monitor) (now : Nat) (table : List ProcessInfo) :
    (m.assess now table).2.root? = m.root? := by
  unfold assess
  cases h : m.target <;> grind [root?]

theorem assess_mandatory (m : Monitor) (now : Nat) (table : List ProcessInfo) :
    (m.assess now table).2.mandatory = m.mandatory := by
  unfold assess
  cases h : m.target <;> grind

end Monitor

end BrowserHost.Health
