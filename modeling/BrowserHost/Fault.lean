import BrowserHost.Text.Duration

/-!
# BrowserHost.Fault

The states and commands of an instance, and the causes for which an
operation on it can fail, with the wording of each cause in one place.
-/

namespace BrowserHost

/-! ## states and commands -/

/-- The lifecycle states of an instance. -/
inductive State
  | uninitialized
  | suspended
  | resumed
  deriving DecidableEq, Repr, Inhabited

/-- What callers can ask of the lifecycle. -/
inductive Command
  | suspend
  | resume
  deriving DecidableEq, Repr

/-- The word for a state in messages. -/
def State.text : State → String
  | .uninitialized => "uninitialized"
  | .suspended => "suspended"
  | .resumed => "resumed"

/-- The word for a command in messages. -/
def Command.text : Command → String
  | .suspend => "suspend"
  | .resume => "resume"

/-! ## causes -/

/-- Why an operation failed. -/
inductive Fault
  | illegalState (state : State) (command : Command)
  | observerAlreadyRegistered
  | observerNotRegistered
  | engineLoop (reason : String)
  | teardownTimeout (ns : Nat)
  | tooManyMandatoryProcesses (count : Nat)
  | config (reason : String)
  deriving DecidableEq, Repr

/-- The text shown for a fault. -/
def Fault.message : Fault → String
  | .illegalState s c => "Illegal state: cannot " ++ c.text ++ " while " ++ s.text
  | .observerAlreadyRegistered => "Observer is already registered"
  | .observerNotRegistered => "Observer is not registered"
  | .engineLoop reason => "Engine loop error: " ++ reason
  | .teardownTimeout ns => "Engine loop did not stop within " ++ Text.durationText ns
  | .tooManyMandatoryProcesses n =>
    "Too many mandatory processes: " ++ toString n ++ " (at most 32 are supported)"
  | .config reason => "Configuration error: " ++ reason

end BrowserHost
