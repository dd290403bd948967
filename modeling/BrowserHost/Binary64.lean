import BrowserHost.Text.Decimal

/-!
# BrowserHost.Binary64

Numbers in the 64-bit binary format, by their bits, with exact decimal
conversion in both directions.  Every finite value is `m * 2 ^ q` for whole
numbers `m < 2 ^ 53` and `q ≥ -1074`; conversions work on such pairs.

* Reading rounds to the nearest value, a tie to the even one; a number too
  large becomes infinite.
* Writing gives the fewest digits that read back as the same value, and of
  those the nearest to it, without an exponent.
-/

namespace BrowserHost

/-- A number in the 64-bit binary format. -/
structure Binary64 where
  bits : UInt64
  deriving DecidableEq, Repr

namespace Binary64

/-! ## parts -/

/-- The sign bit. -/
def negative (x : Binary64) : Bool :=
  Nat.pow 2 63 ≤ x.bits.toNat

/-- The bits without the sign. -/
def magnitude (x : Binary64) : Nat :=
  x.bits.toNat % Nat.pow 2 63

/-- The magnitude of the infinities; greater ones are no numbers. -/
def infinity : Nat :=
  0x7FF * Nat.pow 2 52

/-- Whether the value is no number. -/
def isNaN (x : Binary64) : Bool :=
  infinity < x.magnitude

/-- Whether the value is infinite. -/
def isInfinite (x : Binary64) : Bool :=
  x.magnitude == infinity

/-- The value with the given sign and magnitude. -/
def ofParts (negative : Bool) (magnitude : Nat) : Binary64 :=
  ⟨UInt64.ofNat ((if negative then Nat.pow 2 63 else 0) + magnitude)⟩

/-- The one spelling of no number. -/
def nan : Binary64 :=
  ofParts false (infinity + Nat.pow 2 51)

/-- Equality of numbers: no number equals itself, and zero has two signs. -/
def same (x y : Binary64) : Bool :=
  !x.isNaN && !y.isNaN && (x == y || (x.magnitude == 0 && y.magnitude == 0))

/-! ## rounding -/

/-- `num / den` rounded to the nearest whole number, a tie to the even one. -/
def roundDiv (num den : Nat) : Nat :=
  let q := num / den
  let r := num % den
  if 2 * r < den then q
  else if den < 2 * r then q + 1
  else q + q % 2

/-- The floor of the binary logarithm of `num / den`, both positive. -/
def floorLog2 (num den : Nat) : Int :=
  let k : Int := (num.log2 : Int) - (den.log2 : Int)
  let reached := if 0 ≤ k then den * Nat.pow 2 k.toNat ≤ num else den ≤ num * Nat.pow 2 (-k).toNat
  if reached then k else k - 1

/-- The magnitude nearest to `num / den`; infinite from the largest value plus
half a unit on. -/
def magnitudeOfRatio (num den : Nat) : Nat :=
  if num = 0 then 0
  else
    let q := max (floorLog2 num den - 52) (-1074)
    let m :=
      if 0 ≤ q then roundDiv num (den * Nat.pow 2 q.toNat) else roundDiv (num * Nat.pow 2 (-q).toNat) den
    min ((q + 1074).toNat * Nat.pow 2 52 + m) infinity

/-- The value nearest to `m * 10 ^ e`, with a sign.  Exponents far out of
range are settled without computing the power. -/
def ofDecimal (negative : Bool) (m : Nat) (e : Int) : Binary64 :=
  if m = 0 then ofParts negative 0
  else if 400 < e then ofParts negative infinity
  else if e + (m.log2 : Int) < -1200 then ofParts negative 0
  else if 0 ≤ e then ofParts negative (magnitudeOfRatio (m * Nat.pow 10 e.toNat) 1)
  else ofParts negative (magnitudeOfRatio m (Nat.pow 10 (-e).toNat))

/-- The value nearest to a whole number. -/
def ofInt (n : Int) : Binary64 :=
  ofParts (decide (n < 0)) (magnitudeOfRatio n.natAbs 1)

/-! ## exact value -/

/-- The pair `(m, q)` of a finite magnitude. -/
def pair (magnitude : Nat) : Nat × Int :=
  let e : Nat := magnitude / Nat.pow 2 52
  let f : Nat := magnitude % Nat.pow 2 52
  if e = 0 then (f, -1074) else (Nat.pow 2 52 + f, (e : Int) - 1075)

/-- Whether a finite magnitude is a whole number. -/
def isWhole (magnitude : Nat) : Bool :=
  let (m, q) := pair magnitude
  decide (0 ≤ q) || m % Nat.pow 2 (-q).toNat == 0

/-! ## shortest digits -/

/-- The whole number `d` and the exponent `p` of a decimal `d * 10 ^ p`. -/
abbrev Decimal := Nat × Int

/-- Three quantities on one scale: the value and the ends of the interval of
reals that round to it. -/
structure Interval where
  value : Nat
  low : Nat
  high : Nat
  /-- What one unit of the scale divides. -/
  den : Nat
  /-- Whether the ends round to the value too. -/
  closed : Bool

/-- The interval of a positive finite magnitude.  Below a power of two the
neighbours are half as far away. -/
def interval (magnitude : Nat) : Interval :=
  let (m, q) := pair magnitude
  let low := if m = Nat.pow 2 52 ∧ -1074 < q then 4 * m - 1 else 4 * m - 2
  let num := if 0 ≤ q then Nat.pow 2 q.toNat else 1
  let den := if 0 ≤ q then 4 else 4 * Nat.pow 2 (-q).toNat
  { value := 4 * m * num, low := low * num, high := (4 * m + 2) * num, den := den,
    closed := m % 2 == 0 }

/-- Whether `d * 10 ^ p` rounds to the value. -/
def Interval.holds (i : Interval) (d : Nat) (p : Int) : Bool :=
  let x := if 0 ≤ p then d * Nat.pow 10 p.toNat * i.den else d * i.den
  let s := if 0 ≤ p then 1 else Nat.pow 10 (-p).toNat
  if i.closed then decide (i.low * s ≤ x) && decide (x ≤ i.high * s)
  else decide (i.low * s < x) && decide (x < i.high * s)

/-- The value's neighbour below on the grid of multiples of `10 ^ p`. -/
def Interval.floorAt (i : Interval) (p : Int) : Nat :=
  if 0 ≤ p then i.value / (i.den * Nat.pow 10 p.toNat) else i.value * Nat.pow 10 (-p).toNat / i.den

/-- Whether `d * 10 ^ p` is at least as near to the value as `(d + 1) * 10 ^ p`,
given that the value lies between; a tie goes to the even one. -/
def Interval.nearerBelow (i : Interval) (d : Nat) (p : Int) : Bool :=
  let x := if 0 ≤ p then (2 * d + 1) * Nat.pow 10 p.toNat * i.den else (2 * d + 1) * i.den
  let s := if 0 ≤ p then 1 else Nat.pow 10 (-p).toNat
  if 2 * i.value * s = x then d % 2 == 0 else decide (2 * i.value * s < x)

/-- The multiple of `10 ^ p` that rounds to the value, the nearer of two. -/
def Interval.onGrid? (i : Interval) (p : Int) : Option Decimal :=
  let d := i.floorAt p
  match i.holds d p, i.holds (d + 1) p with
  | true, true => some (if i.nearerBelow d p then d else d + 1, p)
  | true, false => some (d, p)
  | false, true => some (d + 1, p)
  | false, false => none

/-- The first grid from `10 ^ p` downwards that has a hit. -/
def Interval.search (i : Interval) : Nat → Int → Decimal
  | 0, p => (i.floorAt p, p)
  | n + 1, p =>
    match i.onGrid? p with
    | some d => d
    | none => i.search n (p - 1)

/-- The floor of the decimal logarithm of `num / den`, both positive, or one
more. -/
def roughLog10 (num den : Nat) : Int :=
  let k := floorLog2 num den
  k * 30103 / 100000 + 1

/-- The shortest decimal that reads back as the magnitude, and of those the
nearest to it.  From a grid no finer than the value itself, seventeen digits
are at most twenty steps away. -/
def shortest (magnitude : Nat) : Decimal :=
  let i := interval magnitude
  i.search 20 (roughLog10 i.value i.den)

/-! ## text -/

/-- The digits of `d * 10 ^ p`, with a point if there is a fraction. -/
def positional (d : Nat) (p : Int) : String :=
  if 0 ≤ p then toString (d * Nat.pow 10 p.toNat)
  else
    let k := (-p).toNat
    toString (d / Nat.pow 10 k) ++ "." ++ Text.padLeft k '0' (toString (d % Nat.pow 10 k))

/-- The decimal with no zero at the end of its fraction. -/
def stripZeros : Nat → Decimal → Decimal
  | 0, x => x
  | n + 1, (d, p) => if p < 0 ∧ d % 10 = 0 then stripZeros n (d / 10, p + 1) else (d, p)

/-- The text of a finite magnitude. -/
def magnitudeText (magnitude : Nat) : String :=
  if magnitude = 0 then "0"
  else
    let (d, p) := stripZeros 20 (shortest magnitude)
    positional d p

end Binary64

end BrowserHost
