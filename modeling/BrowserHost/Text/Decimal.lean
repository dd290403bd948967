/-!
# BrowserHost.Text.Decimal

Unsigned numbers in decimal.  They are written without a sign and without
leading zeros; they are read with an optional plus sign and any number of
leading zeros, up to a limit.
-/

namespace BrowserHost.Text

/-! ## digits -/

/-- The value of an ASCII digit. -/
def digit? (c : Char) : Option Nat :=
  if '0' ≤ c ∧ c ≤ '9' then some (c.toNat - '0'.toNat) else none

/-- The digits' value when `n` has been read before them; `none` if one of
them is no digit. -/
def digitsFrom (n : Nat) : List Char → Option Nat
  | [] => some n
  | c :: cs =>
    match digit? c with
    | some d => digitsFrom (10 * n + d) cs
    | none => none

/-- The value of one or more digits. -/
def digits? (cs : List Char) : Option Nat :=
  if cs.isEmpty then none else digitsFrom 0 cs

/-- The text without a leading plus sign. -/
def dropPlus : List Char → List Char
  | '+' :: cs => cs
  | cs => cs

/-- An optional plus sign and one or more digits, of value at most `limit`. -/
def unsigned? (limit : Nat) (cs : List Char) : Option Nat :=
  match digits? (dropPlus cs) with
  | some n => if n ≤ limit then some n else none
  | none => none

/-- The largest value of a 32-bit field. -/
def max32 : Nat := Nat.pow 2 32 - 1

/-- The largest value of a 64-bit field. -/
def max64 : Nat := Nat.pow 2 64 - 1

/-! ## padding -/

/-- The text, with `fill` before it up to `width` characters. -/
def padLeft (width : Nat) (fill : Char) (s : String) : String :=
  String.ofList (List.replicate (width - s.length) fill) ++ s

/-- The text, with `fill` after it up to `width` characters. -/
def padRight (width : Nat) (fill : Char) (s : String) : String :=
  s ++ String.ofList (List.replicate (width - s.length) fill)

/-! ## small laws -/

theorem digitsFrom_append (n : Nat) (xs ys : List Char) :
    digitsFrom n (xs ++ ys) = (digitsFrom n xs).bind (digitsFrom · ys) := by
  induction xs generalizing n with
  | nil => rfl
  | cons x xs ih => simp only [List.cons_append, digitsFrom]; cases digit? x <;> simp [ih]

end BrowserHost.Text
