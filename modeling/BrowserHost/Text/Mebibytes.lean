import BrowserHost.Binary64

/-!
# BrowserHost.Text.Mebibytes

An amount of memory in mebibytes, with one decimal place.  The number of bytes
is first rounded to 53 significant bits; what is then between two places goes
to the nearer one, a half to the even one.
-/

namespace BrowserHost.Text

/-- The nearest number with 53 significant bits. -/
def roundedBytes (bytes : Nat) : Nat :=
  let (m, q) := Binary64.pair (Binary64.magnitudeOfRatio bytes 1)
  if 0 ≤ q then m * Nat.pow 2 q.toNat else m / Nat.pow 2 (-q).toNat

/-- Tenths of mebibytes. -/
def mebibyteTenths (bytes : Nat) : Nat :=
  Binary64.roundDiv (10 * roundedBytes bytes) (Nat.pow 2 20)

/-- An amount of memory as text. -/
def mebibyteText (bytes : Nat) : String :=
  let tenths := mebibyteTenths bytes
  toString (tenths / 10) ++ "." ++ toString (tenths % 10) ++ " MiB"

end BrowserHost.Text
