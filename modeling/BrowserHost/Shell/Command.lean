import BrowserHost.Text.Blank

/-!
# BrowserHost.Shell.Command

The lines that the shell understands.  Only the tokens of a line matter: a
command word, and for one command a URL.

* `words_ne_nil`: every command has a written form;
* `ofWords_words`: the written form of a command is read as the command.
-/

namespace BrowserHost.Shell

/-! ## commands -/

/-- A command of the shell. -/
inductive Command
  | url (target : Option String)
  | suspend
  | resume
  | hide
  | unhide
  | state
  | fps
  | health
  | help
  | quit
  deriving DecidableEq, Repr

/-- Whether the shell goes on. -/
inductive Flow
  | proceed
  | quit
  deriving DecidableEq, Repr

/-- Whether the shell goes on after a command. -/
def Command.flow : Command → Flow
  | .quit => .quit
  | _ => .proceed

/-- Why a line is no command. -/
inductive ParseFault
  | empty
  | tooManyArguments (head : String)
  | unknown (head : String)
  | superfluousArgument (head : String)
  deriving DecidableEq, Repr

/-- The text shown for a line that is no command. -/
def ParseFault.message : ParseFault → String
  | .empty => "empty command"
  | .tooManyArguments head => "too many arguments for " ++ head
  | .unknown head => "unknown command '" ++ head ++ "'"
  | .superfluousArgument head => head ++ " takes no arguments"

/-! ## reading -/

/-- The command that a word names and that takes no argument. -/
def Command.ofHead? : String → Option Command
  | "/suspend" => some .suspend
  | "/resume" => some .resume
  | "/hide" => some .hide
  | "/show" => some .unhide
  | "/state" => some .state
  | "/fps" => some .fps
  | "/health" => some .health
  | "/help" => some .help
  | "/quit" => some .quit
  | "/exit" => some .quit
  | _ => none

/-- The command of a head and what follows it. -/
def Command.ofHead (head : String) (arg : Option String) : Except ParseFault Command :=
  if head = "/url" then .ok (.url arg)
  else
    match ofHead? head, arg with
    | none, _ => .error (.unknown head)
    | some _, some _ => .error (.superfluousArgument head)
    | some c, none => .ok c

/-- The command that a line's tokens are. -/
def Command.ofWords : List String → Except ParseFault Command
  | [] => .error .empty
  | [head] => ofHead head none
  | [head, arg] => ofHead head (some arg)
  | head :: _ => .error (.tooManyArguments head)

/-- The command that a line is. -/
def Command.parse (line : List Char) : Except ParseFault Command :=
  ofWords ((Text.tokens line).map String.ofList)

/-! ## writing -/

/-- The words of a command. -/
def Command.words : Command → List String
  | .url none => ["/url"]
  | .url (some target) => ["/url", target]
  | .suspend => ["/suspend"]
  | .resume => ["/resume"]
  | .hide => ["/hide"]
  | .unhide => ["/show"]
  | .state => ["/state"]
  | .fps => ["/fps"]
  | .health => ["/health"]
  | .help => ["/help"]
  | .quit => ["/quit"]

theorem Command.words_ne_nil (c : Command) : c.words ≠ [] := by
  cases c with
  | url target => cases target <;> simp [words]
  | _ => simp [words]

theorem Command.ofWords_words (c : Command) : ofWords c.words = .ok c := by
  cases c with
  | url target => cases target <;> simp [words, ofWords, ofHead]
  | _ => simp [words, ofWords, ofHead, ofHead?]

end BrowserHost.Shell
