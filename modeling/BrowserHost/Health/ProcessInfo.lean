/-!
# BrowserHost.Health.ProcessInfo

What is known of one process at one moment.
-/

namespace BrowserHost

/-- A process: who it is, what memory it holds in bytes, and whether it is
still running rather than merely unreaped. -/
structure ProcessInfo where
  pid : UInt32
  parent : Option UInt32
  name : String
  resident : UInt64
  allocated : UInt64
  shared : UInt64
  active : Bool
  deriving DecidableEq, Repr

end BrowserHost
