import BrowserHost.Fault
import BrowserHost.Lifecycle

/-!
# BrowserHost.Engine.Kind

What engines there are, what can be asked of an engine, what it reports, and
how its making can turn out.
-/

namespace BrowserHost.Engine

/-! ## kinds -/

/-- The engines.  A recording engine does as it is told and reports nothing;
an echo engine also reports each load as it happens; a headless engine does so
too, and displays frames at a steady rate. -/
inductive Kind
  | recording
  | echo
  | headless
  deriving DecidableEq, Repr

/-- Whether loads are reported. -/
def Kind.reports : Kind → Bool
  | .recording => false
  | .echo | .headless => true

/-- Whether frames are displayed at a steady rate. -/
def Kind.ticks : Kind → Bool
  | .headless => true
  | .recording | .echo => false

/-- Whether loading the URL makes the engine fail beyond recovery. -/
def Kind.failsOn : Kind → String → Bool
  | .headless, _ => false
  | .recording, url | .echo, url => url == "panic:"

/-! ## work and reports -/

/-- What can be asked of an engine. -/
inductive Work
  | load (url : String)
  | view (v : View)
  deriving DecidableEq, Repr

/-- What an engine reports. -/
inductive Report
  | urlChanged (url : String)
  | loadFinished (url : String)
  | closureRequested
  | frames (count : Nat)
  deriving DecidableEq, Repr

/-! ## making an engine -/

/-- What a maker of engines does besides: report something, or queue work. -/
inductive Preparation
  | report (r : Report)
  | submit (w : Work)
  deriving DecidableEq, Repr

/-- How the making of an engine turns out. -/
inductive Outcome
  | ready
  | refused (reason : Fault)
  | crashed
  deriving DecidableEq, Repr

/-- The fault of a making that failed. -/
def Outcome.fault? : Outcome → Option Fault
  | .ready => none
  | .refused reason => some reason
  | .crashed => some (.engineLoop "engine thread exited during start-up")

/-- How an engine is to be made. -/
structure Plan where
  kind : Kind := .recording
  preparations : List Preparation := []
  outcome : Outcome := .ready
  deriving DecidableEq, Repr

/-! ## the end of the web process -/

/-- Where an engine can find its web process dead. -/
inductive CrashSite
  | factory
  | task
  | caller
  deriving DecidableEq, Repr

/-- The exit status of a host whose web process died: there is no recovery in
the host itself. -/
def crashStatus : Nat := 1

/-- Whether the host had been started before the crash. -/
def CrashSite.started : CrashSite → Bool
  | .factory => false
  | .task | .caller => true

end BrowserHost.Engine
