import BrowserHost.Engine.Kind
import BrowserHost.Engine.Ticker

/-!
# BrowserHost.Engine.Loop

The loop that owns an engine.  Everything an engine does happens in tasks that
the loop takes from its queue, one at a time and in order.  Whoever submits a
task reads a flag and then sends the task; whoever closes the loop raises the
flag and then sends a message that stops it.  Nothing keeps the two steps of one
caller together: other callers can act between them.

* `push_of_open`, `close_of_open`: what is sent while the flag is down;
* `push_eq`, `close_eq`: the two steps of a submission and of a closing, if
  nothing comes between them;
* `push_queue`, `close_queue`: what these do to the queue;
* `close_close`: to close twice is to close once;
* `tick_snd`: a tick only moves the ticker on.
-/

namespace BrowserHost.Engine

/-! ## tasks -/

/-- What a loop is asked to do: work on the engine, apply a lifecycle state,
apply a visibility, pass on a report, or do nothing until released. -/
inductive Task
  | work (w : Work)
  | lifecycle (target : State)
  | visibility (hidden : Bool)
  | report (r : Report)
  | block
  deriving DecidableEq, Repr

/-- What stands in the queue of a loop. -/
inductive Message
  | run (t : Task)
  | stop
  deriving DecidableEq, Repr

/-! ## loops -/

/-- What a loop is doing: its engine is being made, it waits for messages, it
runs a task, it is blocked in one; or it has ended, because the engine was not
made, because it was stopped, or because a task failed. -/
inductive Phase
  | building
  | idle
  | busy
  | held
  | refused
  | stopped
  | crashed
  deriving DecidableEq, Repr

/-- Whether the loop can still take messages. -/
def Phase.isAlive : Phase → Bool
  | .building | .idle | .busy | .held => true
  | .refused | .stopped | .crashed => false

/-- A loop, with the number of its engine. -/
structure Loop where
  engine : Nat
  kind : Kind
  phase : Phase := .building
  closed : Bool := false
  queue : List Message := []
  view : View := {}
  ticker : Option Ticker := none
  deriving DecidableEq, Repr

namespace Loop

/-- Whether the loop accepts tasks. -/
def accepts (l : Loop) : Bool :=
  !l.closed && l.phase.isAlive

/-- Whether the loop is closing, or gone. -/
def isClosed (l : Loop) : Bool :=
  !l.accepts

/-- Send a message: it is queued, if the loop can still take it. -/
def send (l : Loop) (m : Message) : Loop :=
  if l.phase.isAlive then { l with queue := l.queue ++ [m] } else l

/-- Raise the flag that turns tasks away. -/
def shut (l : Loop) : Loop :=
  { l with closed := true }

/-- Submit a task: read the flag, and send the task if it is not raised. -/
def push (l : Loop) (t : Task) : Loop :=
  if l.closed then l else l.send (.run t)

/-- Close the loop: raise the flag, and send the stop if it was not raised. -/
def close (l : Loop) : Loop :=
  if l.closed then l else l.shut.send .stop

/-- End in the given way: what was queued is lost. -/
def finish (l : Loop) (phase : Phase) : Loop :=
  { l with phase := phase, queue := [], ticker := none }

/-- Wait for messages again, unless something else happened in the task. -/
def rest (l : Loop) : Loop :=
  if l.phase = .busy then { l with phase := .idle } else l

/-- Take the ticks due while the loop waits: how many of them displayed a
frame. -/
def tick (l : Loop) (now : Nat) : Nat × Loop :=
  match l.phase, l.ticker with
  | .idle, some t =>
    (if l.view.visible && l.view.inWindow then (t.run now).1 else 0,
      { l with ticker := some (t.run now).2 })
  | _, _ => (0, l)

theorem push_of_open {l : Loop} (h : l.closed = false) (t : Task) :
    l.push t = l.send (.run t) := by
  simp [push, h]

theorem close_of_open {l : Loop} (h : l.closed = false) : l.close = l.shut.send .stop := by
  simp [close, h]

theorem close_of_closed {l : Loop} (h : l.closed) : l.close = l := by
  simp [close, h]

theorem push_eq (l : Loop) (t : Task) :
    l.push t = if l.accepts then { l with queue := l.queue ++ [.run t] } else l := by
  unfold push send accepts
  cases l.closed <;> simp

theorem close_eq (l : Loop) :
    l.close = if l.closed then l
      else { l with
        closed := true
        queue := if l.phase.isAlive then l.queue ++ [.stop] else l.queue } := by
  unfold close send shut
  cases l.phase.isAlive <;> simp

theorem push_queue (l : Loop) (t : Task) :
    (l.push t).queue = if l.accepts then l.queue ++ [.run t] else l.queue := by
  rw [push_eq]
  split <;> simp_all

theorem close_queue (l : Loop) :
    l.close.queue = if l.accepts then l.queue ++ [.stop] else l.queue := by
  rw [close_eq]
  unfold accepts
  cases l.closed <;> simp

theorem close_close (l : Loop) : l.close.close = l.close := by
  simp only [close_eq]
  cases h : l.closed <;> simp [h]

theorem tick_snd (l : Loop) (now : Nat) :
    (l.tick now).2 = { l with ticker := (l.tick now).2.ticker } := by
  unfold tick
  split
  · rfl
  · rfl

end Loop

end BrowserHost.Engine
