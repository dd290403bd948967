import BrowserHost.Shell.Console

/-!
# BrowserHost.Shell.Session

Reading lines until there is a reason to stop: the flag that asks for it, the
end of the input, a line that is no text, or the command to quit.

A line is blank, no command, or a command; what it does is decided line by
line, so a session is a fold over the lines.

* `run_of_isOver`: once there is a reason to stop, nothing more is read.
-/

namespace BrowserHost.Shell

open Text (painted)

/-! ## input -/

/-- The lines of an input, each with its line feed; the last may lack it. -/
def inputLines : List UInt8 → List (List UInt8)
  | [] => []
  | b :: bs =>
    if b = 10 then [b] :: inputLines bs
    else
      match inputLines bs with
      | [] => [[b]]
      | l :: ls => (b :: l) :: ls

/-- The text of a line, if it is text. -/
def lineText? (l : List UInt8) : Option (List Char) :=
  (String.fromUTF8? ⟨l.toArray⟩).map String.toList

/-! ## output -/

/-- What the shell prints: a prompt, text, or what an observer prints in
between. -/
inductive Piece
  | prompt
  | text (s : String)
  | aside (s : String)
  deriving DecidableEq, Repr

/-- The prompt. -/
def promptText (color : Bool) : String :=
  painted color .boldCyan "webhost>" ++ " "

/-- The text of a piece. -/
def Piece.toText (color : Bool) : Piece → String
  | .prompt => promptText color
  | .text s | .aside s => s

/-- The text about a line that is no text. -/
def readErrorText (color : Bool) : String :=
  painted color .red "Read error" ++ ": stream did not contain valid UTF-8\n"

/-! ## sessions -/

/-- A session: the console, what was printed, newest first, what was printed
as an error, whether the shell was asked to stop, and whether its input
broke. -/
structure Session where
  console : Console
  out : List Piece := []
  err : String := ""
  stopping : Bool := false
  broken : Bool := false

namespace Session

/-- Print a piece. -/
def print (s : Session) (p : Piece) : Session :=
  { s with out := p :: s.out }

/-- Deal with a line of text. -/
def handle (s : Session) (line : List Char) : Session :=
  if (Text.trim line).isEmpty then s
  else
    match Command.parse line with
    | .error e => s.print (.text (Console.parseFaultText s.console.color e))
    | .ok c =>
      let (flow, text, k) := s.console.execute c
      { s.print (.text text) with console := k, stopping := s.stopping || flow == .quit }

/-- Whether there is a reason to stop. -/
def isOver (s : Session) : Bool :=
  s.stopping || s.broken

/-- Prompt for a line and deal with it. -/
def readLine (s : Session) (l : List UInt8) : Session :=
  let s := s.print .prompt
  match lineText? l with
  | none => { s with err := s.err ++ readErrorText s.console.color, broken := true }
  | some line => s.handle line

/-- Read lines until there is a reason to stop. -/
def run (s : Session) : List (List UInt8) → Session
  | [] => if s.isOver then s else s.print .prompt
  | l :: ls => if s.isOver then s else run (s.readLine l) ls

/-- What was printed. -/
def outText (s : Session) : String :=
  String.join (s.out.reverse.map (·.toText s.console.color))

theorem run_of_isOver {s : Session} (h : s.isOver = true) (ls : List (List UInt8)) :
    s.run ls = s := by
  cases ls <;> simp [run, h]

end Session

end BrowserHost.Shell
