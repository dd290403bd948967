import BrowserHost.Text.Decimal

/-!
# BrowserHost.Engine.Ticker

A ticker ticks once when it is made and then once in every period.  It looks
at a clock of whole milliseconds since it was made, so a tick is taken at the
first millisecond that is not before its time.  A ticker more than five
milliseconds late skips the ticks it missed and goes on at the next multiple of
its period.

* `due_lt_due_tick`: every tick moves on.
-/

namespace BrowserHost.Engine

/-- A ticker: its period, when it was made, and when its next tick is due, all
in nanoseconds. -/
structure Ticker where
  period : Nat
  origin : Nat
  due : Nat
  deriving DecidableEq, Repr

namespace Ticker

/-- A ticker of `rate` ticks a second, at least one, made at `now`; none if
that leaves no period. -/
def ofRate? (now rate : Nat) : Option Ticker :=
  let period := Nat.pow 10 9 / max rate 1
  if period = 0 then none else some ⟨period, now, now⟩

/-- The length of a millisecond. -/
def millisecond : Nat := Nat.pow 10 6

/-- How late a tick may be without any other being skipped. -/
def tolerance : Nat := 5 * millisecond

/-- Whether the next tick is to be taken at `now`. -/
def isDue (t : Ticker) (now : Nat) : Bool :=
  (t.due - t.origin + (millisecond - 1)) / millisecond ≤ (now - t.origin) / millisecond

/-- Take a tick at `now`. -/
def tick (t : Ticker) (now : Nat) : Ticker :=
  { t with
    due :=
      if t.due + tolerance < now then now + t.period - (now - t.due) % t.period
      else t.due + t.period }

/-- Take at most as many ticks as the first argument says, beside those counted
before; how many were taken, and the ticker after them. -/
def takeDue (now : Nat) : Nat → Nat × Ticker → Nat × Ticker
  | 0, r => r
  | n + 1, (taken, t) =>
    if t.isDue now then takeDue now n (taken + 1, t.tick now) else (taken, t)

/-- Take all ticks that are due at `now`. -/
def run (t : Ticker) (now : Nat) : Nat × Ticker :=
  takeDue now ((now - t.due) / t.period + 2) (0, t)

theorem due_lt_due_tick {t : Ticker} (h : 0 < t.period) (now : Nat) :
    t.due < (t.tick now).due := by
  have := Nat.mod_lt (now - t.due) h
  unfold tick tolerance millisecond
  split <;> simp only <;> omega

end Ticker

end BrowserHost.Engine
