/-!
# BrowserHost.Text.Lines

The lines of a text end at a line feed; a carriage return straight before
the line feed belongs to the ending.  A last line may lack its line feed and
then keeps whatever it ends in.
-/

namespace BrowserHost.Text

/-! ## cutting at line feeds -/

/-- The pieces between line feeds: one more than there are line feeds. -/
def splitLines : List Char → List (List Char)
  | [] => [[]]
  | c :: cs =>
    match splitLines cs with
    | [] => [[c]]
    | l :: ls => if c = '\n' then [] :: l :: ls else (c :: l) :: ls

/-- A line without the carriage return of its ending. -/
def dropReturn (l : List Char) : List Char :=
  if l.getLast? = some '\r' then l.dropLast else l

/-- The pieces as lines: all but the last were ended by a line feed, and an
empty last piece is no line. -/
def endLines : List (List Char) → List (List Char)
  | [] => []
  | [l] => if l.isEmpty then [] else [l]
  | l :: ls => dropReturn l :: endLines ls

/-- The lines of a text. -/
def lines (cs : List Char) : List (List Char) :=
  endLines (splitLines cs)

end BrowserHost.Text
