import BrowserHost.Instance.LoneLoop

/-!
# BrowserHost.Instance.Traffic

What callers have begun at the loops of an instance and not finished.  A
submission that read the flag of its loop has yet to send its task, and a closing
that raised the flag has yet to send the stop; whatever other callers and the
loop itself do in the meantime comes between the two steps.

* `read_send`: a submission whose steps nothing comes between;
* `shut_halt`: such a closing.
-/

namespace BrowserHost

open Engine

/-- An instance, and what is under way at its loops. -/
structure Traffic where
  host : Instance
  /-- Submissions that found the flag down and have not sent their task. -/
  passed : List (Nat × Task) := []
  /-- Loops whose flag was raised and that were not sent the stop yet. -/
  raised : List Nat := []
  /-- Tasks that loops took in behind their stop, in order. -/
  late : List (Nat × Task) := []

namespace Traffic

/-- Nothing is under way. -/
def ofSettings (s : BrowserSettings) : Traffic :=
  { host := Instance.ofSettings s }

/-- The same traffic at another moment of the instance. -/
def on (w : Traffic) (x : Instance) : Traffic :=
  { w with host := x }

/-- Whether a loop was sent the stop. -/
def isHalted (w : Traffic) (i : Nat) : Bool :=
  !w.raised.contains i && w.host.isShut i

/-- The tasks of the list that are for the loop with that index. -/
def tasksAt (i : Nat) (ps : List (Nat × Task)) : List Task :=
  (ps.filter (·.1 == i)).map (·.2)

/-- The tasks that are still to be sent to a loop. -/
def passedAt (w : Traffic) (i : Nat) : List Task :=
  tasksAt i w.passed

/-- The tasks that a loop took in behind its stop. -/
def lateAt (w : Traffic) (i : Nat) : List Task :=
  tasksAt i w.late

/-! ## submissions -/

/-- Begin a submission: read the flag of the loop.  Tells whether the task may
be sent. -/
def read (w : Traffic) (i : Nat) (t : Task) : Bool × Traffic :=
  if w.host.isShut i then (false, w) else (true, { w with passed := (i, t) :: w.passed })

/-- Finish a submission: send the task.  Tells whether the loop was there to
take it. -/
def send (w : Traffic) (i : Nat) (t : Task) : Bool × Traffic :=
  let (taken, x) := w.host.sendTo i t
  (taken, { w with
    host := x
    passed := w.passed.erase (i, t)
    late := if taken && w.isHalted i then w.late ++ [(i, t)] else w.late })

/-- Finish a submission to a loop that has stopped and dropped its engine, but
still has its queue: the task is taken in, and lost. -/
def sink (w : Traffic) (i : Nat) (t : Task) : Traffic :=
  { w with
    host := w.host.note (.queued (w.host.engineOf i) t)
    passed := w.passed.erase (i, t)
    late := w.late ++ [(i, t)] }

/-! ## closings -/

/-- Begin to close a loop: raise its flag, if it is not raised. -/
def shut (w : Traffic) (i : Nat) : Traffic :=
  match w.host.loop? i with
  | none => w
  | some l =>
    if l.closed then w
    else { w with host := w.host.setLoop i l.shut, raised := i :: w.raised }

/-- Finish closing a loop: send the stop. -/
def halt (w : Traffic) (i : Nat) : Traffic :=
  match w.host.loop? i with
  | none => w
  | some l => { w with host := w.host.setLoop i (l.send .stop), raised := w.raised.erase i }

/-! ## nothing in between -/

/-- A submission that finds the flag down and sends its task at once. -/
theorem read_send (w : Traffic) {i : Nat} (h : w.host.isShut i = false) (t : Task) :
    (w.read i t).2.send i t = ((w.host.submitTo i t).1, w.on (w.host.submitTo i t).2) := by
  have hhalted (ps : List (Nat × Task)) :
      ({ w with passed := ps } : Traffic).isHalted i = false := by
    simp only [isHalted, h, Bool.and_false]
  simp [read, send, Instance.submitTo, on, h, hhalted]

/-- A closing that finds the flag down and sends the stop at once. -/
theorem shut_halt (w : Traffic) {i : Nat} {l : Loop} (hl : w.host.loop? i = some l)
    (hopen : l.closed = false) : (w.shut i).halt i = w.on (w.host.setLoop i l.close) := by
  obtain ⟨hi, -⟩ := List.getElem?_eq_some_iff.1 hl
  have hshut : w.shut i = { w with host := w.host.setLoop i l.shut, raised := i :: w.raised } := by
    simp only [shut, hl, hopen, Bool.false_eq_true, if_false]
  have hloop : (w.host.setLoop i l.shut).loop? i = some l.shut := List.getElem?_set_self hi
  rw [hshut, Loop.close_of_open hopen]
  simp only [halt, hloop, List.erase_cons_head, on]
  simp only [Instance.setLoop, List.set_set]

end Traffic

end BrowserHost
