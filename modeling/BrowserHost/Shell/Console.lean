import BrowserHost.Health.Watch
import BrowserHost.Instance.Perform
import BrowserHost.Shell.Command
import BrowserHost.Text.Mebibytes
import BrowserHost.Text.Style

/-!
# BrowserHost.Shell.Console

Carrying out the commands of the shell on an instance and a monitor, and the
text that each of them prints.

* `execute_flow`: only the command to quit ends the shell.
-/

namespace BrowserHost.Shell

open Text (painted Style padLeft padRight mebibyteText)

/-! ## the console -/

/-- What the shell works on: an instance, a watched process tree, and whether
colour is shown. -/
structure Console where
  color : Bool
  browser : Instance
  watch : Health.Watch

namespace Console

/-- Make a call on the instance. -/
def call (k : Console) (c : Instance.Call) : Instance.Reply × Console :=
  let (r, x) := Instance.step c k.browser
  (r, { k with browser := x })

/-- Let something happen to the watched tree. -/
def happen (k : Console) (e : Health.Watch.Event) : Health.Watch.Answer × Console :=
  let (a, w) := k.watch.step e
  (a, { k with watch := w })

/-- Let time pass, for the instance and the monitor alike. -/
def advance (k : Console) (ns : Nat) : Console :=
  ((k.call (.advance ns)).2.happen (.advance ns)).2

/-! ## texts -/

/-- A line of text. -/
def line (s : String) : String :=
  s ++ "\n"

/-- How a verdict is shown. -/
def verdictLabel (color : Bool) : Health.Verdict → String
  | .unmonitored => painted color .dimmed "not monitoring"
  | .starting => painted color .yellow "starting"
  | .operational => painted color .green "operational"
  | .rootInactive => painted color .red "root process inactive"
  | .degraded _ => painted color .red "degraded"

/-- The line about the missing names, if any are missing. -/
def missingText (color : Bool) : Health.Verdict → String
  | .degraded missing =>
    line ("  Missing   : " ++ painted color .yellow (String.intercalate ", " missing))
  | _ => ""

/-- The line about one process. -/
def processLine (color : Bool) (r : ProcessInfo) : String :=
  line
    ("    " ++ padLeft 7 ' ' (toString r.pid.toNat) ++ "  " ++ padRight 24 ' ' r.name ++ " " ++
      painted color .dimmed (mebibyteText r.resident.toNat))

/-- The report about a process tree. -/
def healthText (color : Bool) (v : Health.Verdict) (m : Health.Metrics) (rs : List ProcessInfo) :
    String :=
  line (painted color .title "Process Health") ++
  line ("  Verdict   : " ++ verdictLabel color v) ++
  missingText color v ++
  line ("  Processes : " ++ toString m.processes) ++
  line ("  Resident  : " ++ mebibyteText m.resident) ++
  line ("  Allocated : " ++ mebibyteText m.allocated) ++
  line ("  Shared    : " ++ mebibyteText m.shared) ++
  String.join (rs.map (processLine color))

/-- The commands and what they do. -/
def helpLines : List (String × String) :=
  [ ("/url [URL]", "   – show or change the URL"),
    ("/suspend", "      – suspend the instance"),
    ("/resume", "       – resume the instance"),
    ("/hide  /show", "  – hide or show the view"),
    ("/state", "        – lifecycle state"),
    ("/fps", "          – last frame-rate sample"),
    ("/health", "       – process tree health (headless: no helpers required)"),
    ("/quit  /exit", "  – exit") ]

/-- The list of commands. -/
def helpText (color : Bool) : String :=
  line "" ++ line (painted color .title "webhost Commands") ++
  String.join (helpLines.map fun (c, about) => line ("  " ++ painted color .boldCyan c ++ about)) ++
  line ""

/-- The line about a line that is no command. -/
def parseFaultText (color : Bool) (e : ParseFault) : String :=
  line
    (painted color .red "Error:" ++ " " ++ e.message ++ ". Type " ++ painted color .bold "/help" ++
      " for available commands.")

/-- The line about the state. -/
def stateText (color : Bool) (s : Instance.Status) : String :=
  line ("  " ++ painted color .yellow s.state.text ++ (if s.hidden then " (hidden)" else ""))

/-! ## commands -/

/-- Make a request, and say what came of it. -/
def request (k : Console) (c : BrowserHost.Command) : String × Console :=
  match k.call (.request c) with
  | (.fault e, k) => (line ("  " ++ painted k.color .red "✗" ++ " " ++ e.message), k)
  | (_, k) => (line ("  " ++ painted k.color .green "✓" ++ " " ++ k.browser.status.state.text), k)

/-- Report on the process tree. -/
def health (k : Console) : String × Console :=
  let (v, w) := k.watch.assess
  (healthText k.color v w.metrics w.snapshot, { k with watch := w })

/-- Navigate. -/
def navigate (k : Console) (url : String) : String × Console :=
  let (_, k) := k.call (.setUrl url)
  (line ("  " ++ painted k.color .green "Navigating to" ++ " " ++ painted k.color .bold url), k)

/-- Hide or show the view, silently. -/
def setHidden (k : Console) (hidden : Bool) : String × Console :=
  ("", (k.call (.hide hidden)).2)

/-- What a command prints and does. -/
def perform (k : Console) : Command → String × Console
  | .url none => (line ("  " ++ painted k.color .bold k.browser.status.url), k)
  | .url (some url) => k.navigate url
  | .suspend => k.request .suspend
  | .resume => k.request .resume
  | .hide => k.setHidden true
  | .unhide => k.setHidden false
  | .state => (stateText k.color k.browser.status, k)
  | .fps => (line ("  " ++ painted k.color .yellow (toString k.browser.status.fps) ++ " fps"), k)
  | .health => k.health
  | .help => (helpText k.color, k)
  | .quit => (line (painted k.color .green "Goodbye."), k)

/-- Carry out a command. -/
def execute (k : Console) (c : Command) : Flow × String × Console :=
  (c.flow, k.perform c)

theorem execute_flow (k : Console) (c : Command) : (k.execute c).1 = .quit ↔ c = .quit := by
  cases c <;> simp [execute, Command.flow]

end Console

end BrowserHost.Shell
