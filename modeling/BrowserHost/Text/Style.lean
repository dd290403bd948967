/-!
# BrowserHost.Text.Style

Text in colour, for terminals that show it.  A style is put before the text
and reset after it; where the text itself resets all styles, the style is put
there again.
-/

namespace BrowserHost.Text

/-- The parameters of a style, as they are sent to the terminal. -/
structure Style where
  codes : String
  deriving DecidableEq, Repr

namespace Style

def bold : Style := ⟨"1"⟩
def dimmed : Style := ⟨"2"⟩
def red : Style := ⟨"31"⟩
def green : Style := ⟨"32"⟩
def yellow : Style := ⟨"33"⟩
def boldGreen : Style := ⟨"1;32"⟩
def boldYellow : Style := ⟨"1;33"⟩
def boldCyan : Style := ⟨"1;36"⟩
def title : Style := ⟨"1;4"⟩

/-- What starts the style. -/
def opening (s : Style) : List Char :=
  '\x1b' :: '[' :: s.codes.toList ++ ['m']

/-- What ends all styles. -/
def reset : List Char :=
  ['\x1b', '[', '0', 'm']

/-- The text with the style started again after every reset. -/
def reopened (s : Style) : List Char → List Char
  | '\x1b' :: '[' :: '0' :: 'm' :: cs => reset ++ s.opening ++ reopened s cs
  | c :: cs => c :: reopened s cs
  | [] => []

end Style

/-- Text in a style, if colour is shown. -/
def painted (color : Bool) (style : Style) (text : String) : String :=
  if color then
    String.ofList (style.opening ++ style.reopened text.toList ++ Style.reset)
  else text

end BrowserHost.Text
