import BrowserHost.Text.Decimal

/-!
# BrowserHost.Text.Duration

The text of a span of time: the largest of the units s, ms, µs and ns that
has a nonzero whole part, with a decimal fraction that has no trailing zeros.
The empty span is `0ns`.
-/

namespace BrowserHost.Text

/-! ## fractions -/

/-- The digits of `part / 10 ^ places`, without trailing zeros. -/
def fractionDigits (places part : Nat) : List Char :=
  ((padLeft places '0' (toString part)).toList.reverse.dropWhile (· == '0')).reverse

/-- A whole part and `part / 10 ^ places` of one more, with the point only
where a digit follows it. -/
def decimalText (whole places part : Nat) : String :=
  match fractionDigits places part with
  | [] => toString whole
  | ds => toString whole ++ "." ++ String.ofList ds

/-! ## spans -/

/-- The text of a span of `ns` nanoseconds. -/
def durationText (ns : Nat) : String :=
  if Nat.pow 10 9 ≤ ns then decimalText (ns / Nat.pow 10 9) 9 (ns % Nat.pow 10 9) ++ "s"
  else if Nat.pow 10 6 ≤ ns then decimalText (ns / Nat.pow 10 6) 6 (ns % Nat.pow 10 6) ++ "ms"
  else if Nat.pow 10 3 ≤ ns then decimalText (ns / Nat.pow 10 3) 3 (ns % Nat.pow 10 3) ++ "µs"
  else toString ns ++ "ns"

end BrowserHost.Text
