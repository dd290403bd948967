import BrowserHost.Fault

/-!
# BrowserHost.Lifecycle

The lifecycle of one browser instance.  A request is decided at once, by a
table over the requested state; the engine follows later, and what it last
confirmed is the applied state.

* `Machine.request_applied`, `Machine.confirm_requested`: requests and
  confirmations each touch their own half of the machine;
* `Machine.begin_requested_ne_uninitialized`: a machine that has begun is
  never uninitialized again.
-/

namespace BrowserHost

/-! ## the table -/

/-- What an accepted request leads to: the next state, and whether a running
engine has to be told. -/
structure Transition where
  next : State
  dispatch : Bool
  deriving DecidableEq, Repr

/-- The state that a command asks for. -/
def Command.target : Command → State
  | .suspend => .suspended
  | .resume => .resumed

/-- The table of requests.  A first request only picks the state to begin in;
a request to re-enter the current state is refused. -/
def State.transition : State → Command → Except Fault Transition
  | .uninitialized, c => .ok ⟨c.target, false⟩
  | .suspended, .resume => .ok ⟨.resumed, true⟩
  | .resumed, .suspend => .ok ⟨.suspended, true⟩
  | s, c => .error (.illegalState s c)

/-! ## the machine -/

/-- The state that callers asked for and the state that the engine has
confirmed. -/
structure Machine where
  requested : State := .uninitialized
  applied : State := .uninitialized
  deriving DecidableEq, Repr

namespace Machine

/-- Decide a request. -/
def request (m : Machine) (c : Command) : Except Fault (Transition × Machine) :=
  match m.requested.transition c with
  | .ok t => .ok (t, { m with requested := t.next })
  | .error e => .error e

/-- Begin a session: resume if that was asked for, else suspend.  Nothing is
applied yet. -/
def begin (m : Machine) : State × Machine :=
  let target := match m.requested with
    | .resumed => State.resumed
    | _ => State.suspended
  (target, { requested := target, applied := .uninitialized })

/-- Record that the engine is in `s`; tells whether that is news. -/
def confirm (m : Machine) (s : State) : Bool × Machine :=
  if m.applied = s then (false, m) else (true, { m with applied := s })

theorem request_applied {m m' : Machine} {c : Command} {t : Transition}
    (h : m.request c = .ok (t, m')) : m'.applied = m.applied := by
  unfold request at h
  grind

theorem confirm_requested (m : Machine) (s : State) :
    (m.confirm s).2.requested = m.requested := by
  unfold confirm
  grind

theorem confirm_applied (m : Machine) (s : State) : (m.confirm s).2.applied = s := by
  unfold confirm
  grind

theorem begin_requested_ne_uninitialized (m : Machine) :
    m.begin.2.requested ≠ .uninitialized := by
  unfold begin
  cases h : m.requested <;> simp

end Machine

/-! ## the view -/

/-- What the engine is told about its view. -/
structure View where
  visible : Bool := false
  inWindow : Bool := false
  deriving DecidableEq, Repr

/-- The view of an instance: visible unless hidden, in the window while it is
resumed. -/
def View.of (s : State) (hidden : Bool) : View :=
  ⟨!hidden, s == .resumed⟩

end BrowserHost
