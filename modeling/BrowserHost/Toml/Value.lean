import BrowserHost.Binary64

/-!
# BrowserHost.Toml.Value

The values of TOML.  Dates and times are told apart from other values, but
their fields are not kept.
-/

namespace BrowserHost.Toml

/-- A TOML value. -/
inductive Value
  | string (s : String)
  | integer (n : Int)
  | float (x : Binary64)
  | boolean (b : Bool)
  | datetime
  | array (items : List Value)
  | table (entries : List (String × Value))

/-- The integers that a value can hold. -/
def integerInRange (n : Int) : Bool :=
  -Int.pow 2 63 ≤ n && n < Int.pow 2 63

end BrowserHost.Toml
