import BrowserHost.Text.Blank
import BrowserHost.Text.Decimal
import BrowserHost.Text.Lines

/-!
# BrowserHost.Health.SharedMemory

Shared resident memory from the status text of a process: the figures, in
KiB, of the lines headed `RssFile:` and `RssShmem:`.  A headed line without a
readable figure counts nothing.

The program adds the figures up in 64 bits.  Here the sum is a number of any
size, and what is said of it holds of the program for sums that fit.
-/

namespace BrowserHost.Health

/-- What follows `head` at the start of the line. -/
def afterHead? : List Char → List Char → Option (List Char)
  | [], cs => some cs
  | h :: hs, c :: cs => if h = c then afterHead? hs cs else none
  | _ :: _, [] => none

/-- What follows one of the two headings. -/
def sharedField? (line : List Char) : Option (List Char) :=
  (afterHead? "RssFile:".toList line).or (afterHead? "RssShmem:".toList line)

/-- The figure of a headed line: its first token, as a 64-bit number. -/
def sharedFigure (field : List Char) : Nat :=
  match Text.tokens field with
  | [] => 0
  | t :: _ => (Text.unsigned? Text.max64 t).getD 0

/-- What one line adds. -/
def sharedOfLine (line : List Char) : Nat :=
  (sharedField? line).elim 0 sharedFigure

/-- The shared memory, in KiB, that a status text reports: the program's sum
where it fits 64 bits. -/
def sharedKib (status : List Char) : Nat :=
  (Text.lines status).foldr (fun l n => sharedOfLine l + n) 0

end BrowserHost.Health
