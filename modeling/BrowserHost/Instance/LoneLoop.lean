import BrowserHost.Instance.Perform

/-!
# BrowserHost.Instance.LoneLoop

An engine loop in the hands of its owner, without a session around it.  The
instance only lends it settings, a clock and a journal.
-/

namespace BrowserHost.Instance

open Engine

/-! ## the loop and its owner -/

/-- A loop with that index, and whether its owner still has it. -/
structure LoneLoop where
  host : Instance
  index : Nat
  owned : Bool := true

namespace LoneLoop

/-- What can be done to a lone loop. -/
inductive Act
  | submit (w : Work)
  | hold
  | release
  | isClosed
  /-- Stop the loop, waiting for so many nanoseconds. -/
  | shutdown (timeout : Nat)
  | drop
  deriving DecidableEq, Repr

/-- What an act gives back. -/
inductive Result
  | done
  | flag (b : Bool)
  | fault (e : Fault)
  | noLoop
  deriving DecidableEq, Repr

/-! ## acts -/

/-- Make an engine on a loop of its own. -/
def start (engine : Nat) (p : Plan) (x : Instance) : Except Fault LoneLoop × Instance :=
  let (r, x) := spawn call engine p x
  (r.map fun i => { host := x, index := i }, x)

/-- The loop itself. -/
def loop? (l : LoneLoop) : Option Loop :=
  l.host.loop? l.index

/-- Whether the loop accepts no more tasks. -/
def isClosed (l : LoneLoop) : Bool :=
  l.loop?.all (·.isClosed)

/-- Whether the loop is blocked. -/
def isHeld (l : LoneLoop) : Bool :=
  l.loop?.any (·.phase == .held)

/-- Submit a task. -/
def submit (l : LoneLoop) (t : Task) : Bool × LoneLoop :=
  let (accepted, x) := l.host.submitTo l.index t
  (accepted, { l with host := x })

/-- Close the loop and give it up; tells whether it ran to its end. -/
def stop (l : LoneLoop) : Bool × LoneLoop :=
  let (ended, x) := stopLoop call l.index l.host
  (ended, { l with host := x, owned := false })

/-- Do one thing. -/
def act (l : LoneLoop) : Act → Result × LoneLoop
  | .submit w => let (accepted, l) := l.submit (.work w); (.flag accepted, l)
  | .hold =>
    if l.isHeld then (.flag false, l)
    else let (accepted, l) := l.submit .block; (.flag accepted, l)
  | .release => (.flag l.isHeld, { l with host := l.host.unblock l.index })
  | .isClosed => (.flag l.isClosed, l)
  | .shutdown timeout =>
    if l.owned then
      let (ended, l) := l.stop
      (if ended then .done else .fault (.teardownTimeout timeout), l)
    else (.noLoop, l)
  | .drop => if l.owned then (.flag true, l.stop.2) else (.flag false, l)

/-- Let the loop do what it can. -/
def settled (l : LoneLoop) : LoneLoop :=
  { l with host := settle call l.host }

/-- Do one thing, and let the loop do what it can. -/
def step (l : LoneLoop) (a : Act) : Result × LoneLoop :=
  let (r, l) := l.act a
  (r, l.settled)

/-- Release the loop and let it run to its end. -/
def finish (l : LoneLoop) : LoneLoop :=
  ((l.step .release).2.step .drop).2

end LoneLoop

end BrowserHost.Instance
