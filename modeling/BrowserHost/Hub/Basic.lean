import BrowserHost.Hub.Channel
import BrowserHost.Hub.Registry

/-!
# BrowserHost.Hub.Basic

The place where everything about an instance is told: one registry for
changes of the lifecycle state, one for everything else, and a channel for
both.
-/

namespace BrowserHost

namespace Hub

/-- Which of the two registries. -/
inductive Role
  | state
  | lifecycle
  deriving DecidableEq, Repr

/-- The name under which the channel's events go out. -/
def source : String :=
  "webhost-middleware::hub"

/-- How many events the channel keeps unless told otherwise. -/
def defaultCapacity : Nat := 256

end Hub

/-- The registry that a notice goes to. -/
def Notice.role : Notice → Hub.Role
  | .stateChanged _ => .state
  | _ => .lifecycle

/-- A hub; it can be gone while subscribers still read its channel. -/
structure Hub where
  state : Hub.Registry := {}
  lifecycle : Hub.Registry := {}
  channel : Hub.Channel := .ofCapacity Hub.defaultCapacity
  deriving DecidableEq, Repr

namespace Hub

/-- A hub whose channel keeps at least `capacity` events, which cannot be
zero. -/
def ofCapacity? (capacity : Nat) : Option Hub :=
  if capacity = 0 then none else some { channel := .ofCapacity capacity }

/-- The registry of a role. -/
def registry (h : Hub) : Role → Registry
  | .state => h.state
  | .lifecycle => h.lifecycle

/-- The hub with another registry in a role. -/
def setRegistry (h : Hub) (r : Registry) : Role → Hub
  | .state => { h with state := r }
  | .lifecycle => { h with lifecycle := r }

/-- Whether the hub is still there. -/
def isOpen (h : Hub) : Bool :=
  h.channel.isOpen

/-- The observers that a notice is told to. -/
def audience (h : Hub) (n : Notice) : List ObserverId :=
  (h.registry n.role).members

/-- Send a notice over the channel. -/
def publish (h : Hub) (n : Notice) : Hub :=
  { h with channel := h.channel.publish n }

/-- Take the hub away: nothing more will be sent. -/
def drop (h : Hub) : Hub :=
  { h with channel := { h.channel with isOpen := false } }

/-- Register an observer in a role. -/
def register (h : Hub) (role : Role) (o : ObserverId) : Except Fault Hub :=
  ((h.registry role).register o).map (h.setRegistry · role)

/-- Unregister an observer from a role. -/
def unregister (h : Hub) (role : Role) (o : ObserverId) : Except Fault Hub :=
  ((h.registry role).unregister o).map (h.setRegistry · role)

@[simp] theorem registry_setRegistry (h : Hub) (r : Registry) (a b : Role) :
    (h.setRegistry r a).registry b = if a = b then r else h.registry b := by
  cases a <;> cases b <;> rfl

theorem registry_publish (h : Hub) (n : Notice) (a : Role) :
    (h.publish n).registry a = h.registry a := by
  cases a <;> rfl

end Hub

end BrowserHost
