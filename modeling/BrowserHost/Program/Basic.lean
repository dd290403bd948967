import BrowserHost.Health.Family
import BrowserHost.Program.Configuration
import BrowserHost.Program.Endpoint
import BrowserHost.Shell.Session

/-!
# BrowserHost.Program.Basic

The program: one instance with a headless engine, a monitor of the program's
own process tree, and a shell over both.  An observer on the console prints
what the instance tells.
-/

namespace BrowserHost.Program

open Text (painted)
open Shell (Piece Session)

/-! ## texts -/

/-- The first lines. -/
def bannerText (color : Bool) : String :=
  let art :=
    [ "                __    __               __ ",
      " _    _____ ___/ /   / /  ___  ___ ___/ /_",
      "| |/|/ / -_) _  /   / _ \\/ _ \\(_-</ __/ __/",
      "|__,__/\\__/_.__/   /_//_/\\___/___/\\__/\\__/ " ]
  "\n" ++ String.join (art.map fun l => painted color .boldCyan l ++ "\n") ++ "\n" ++
  "  " ++ painted color .bold "webhost" ++ " " ++ painted color .dimmed "v0.1.0" ++ "\n" ++
  "  Browser Instance Lifecycle Supervisor\n\n"

/-- The last line before the shell. -/
def hintText (color : Bool) : String :=
  "\n  Type " ++ painted color .boldCyan "/help" ++ " for a list of commands.\n\n"

/-- What is printed when the program is interrupted, before and after its loop
has stopped. -/
def interruptText (color : Bool) : String :=
  "\n" ++ painted color .boldYellow "⚠  Ctrl-C received – tearing down …" ++ "\n" ++
  painted color .green "  ✓ Engine loop stopped." ++ "\n"

/-- What is printed as an error about a collector that cannot be used. -/
def collectorText (env : Environment) : String :=
  if badCollector env then "[webhost] OTLP exporter init failed\n" else ""

/-- What the observer on the console prints about a notice. -/
def noticeText (color : Bool) : Notice → Option String
  | .stateChanged s =>
    some ("\n  " ++ painted color .dimmed "state →" ++ " " ++ painted color .yellow s.text ++ "\n")
  | .urlChanged _ => none
  | .loadFinished url =>
    some ("\n  " ++ painted color .green "loaded" ++ " " ++ painted color .bold url ++ "\n")
  | .hidden h =>
    some
      ("\n  " ++ painted color .dimmed "view →" ++ " " ++
        painted color .yellow (if h then "hidden" else "visible") ++ "\n")
  | .closureRequested =>
    some ("\n  " ++ painted color .yellow "Page requested window close" ++
      " (press Enter to exit)\n")

/-! ## the observer on the console -/

/-- The name of the observer on the console. -/
def observerName : String := "console"

/-- What the observer prints about something that happened. -/
def asideOf? (color : Bool) : Instance.Entry → Option Piece
  | .heard _ (.named name) n =>
    if name = observerName then (noticeText color n).map .aside else none
  | _ => none

/-- Let the observer print what it has heard. -/
def printHeard (s : Session) : Session :=
  let (entries, x) := s.console.browser.takeJournal
  let asides := entries.filterMap (asideOf? s.console.color)
  { s with console := { s.console with browser := x }, out := asides.reverse ++ s.out }

/-! ## the program -/

/-- Make a call on the instance, and let the observer print. -/
def call (s : Session) (c : Instance.Call) : Session :=
  printHeard { s with console := (s.console.call c).2 }

/-- Let something happen to the watched tree. -/
def happen (s : Session) (e : Health.Watch.Event) : Session :=
  { s with console := (s.console.happen e).2 }

/-- The session when nothing has been started. -/
def prepared (env : Environment) (c : Configuration) : Session :=
  let color := showsColor env
  let monitor : Health.Monitor :=
    { mandatory := .empty, grace := c.settings.monitor.withoutHelpers.graceSecs * Nat.pow 10 9 }
  let self := Health.Family.record Health.Family.hostPid none "webhost" true
  { console :=
      { color := color
        browser := .ofSettings c.settings.browser
        watch := { monitor := monitor, table := [self] } }
    out := [.text (bannerText color ++ c.report)]
    err := collectorText env }

/-- Start the instance and the monitor; the session is then ready for its
first line. -/
def started (env : Environment) (c : Configuration) : Session :=
  let s := prepared env c
  let s := call s (.register .state observerName [])
  let s := call s (.register .lifecycle observerName [])
  let s := call s (.start { kind := .headless })
  let s := happen s (.observe Health.Family.hostPid)
  let s := call s .resume
  s.print (.text (hintText s.console.color))

/-- Read a line, and let the observer print. -/
def readLine (s : Session) (l : List UInt8) : Session :=
  printHeard (s.readLine l)

/-- Read lines until there is a reason to stop. -/
def readLines (s : Session) : List (List UInt8) → Session
  | [] => if s.isOver then s else s.print .prompt
  | l :: ls => if s.isOver then s else readLines (readLine s l) ls

/-- End the program after its shell. -/
def ended (s : Session) : Session :=
  call (happen s (.observe 0)) .shutdown

/-- End the program while its shell waits for a line. -/
def interrupted (s : Session) : Session :=
  call (s.print (.text (interruptText s.console.color))) .shutdown

/-- What a run leaves behind. -/
structure Result where
  status : Nat
  out : List Piece
  err : String
  home : Home

/-- Run the program on its whole input; `interrupt` tells that it is
interrupted when it waits for a line after the last one. -/
def run (home : Home) (env : Environment) (input : List UInt8) (interrupt : Bool)
    (u : User := .superuser) : Result :=
  let c := Configuration.find home env u
  let lines := Shell.inputLines input
  let lines := if interrupt then lines.filter (·.getLast? == some 10) else lines
  let s := readLines (started env c) lines
  let s := if interrupt && !s.isOver then interrupted s else ended s
  { status := 0, out := s.out.reverse, err := s.err, home := c.home }

end BrowserHost.Program
