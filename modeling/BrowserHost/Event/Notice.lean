import BrowserHost.Fault

/-!
# BrowserHost.Event.Notice

What an instance tells its observers and subscribers.
-/

namespace BrowserHost

/-- Something worth telling about an instance. -/
inductive Notice
  | stateChanged (state : State)
  | urlChanged (url : String)
  | loadFinished (url : String)
  | hidden (hidden : Bool)
  | closureRequested
  deriving DecidableEq, Repr

end BrowserHost
