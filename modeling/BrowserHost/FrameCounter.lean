import BrowserHost.Text.Decimal

/-!
# BrowserHost.FrameCounter

Frames per second over windows of at least one second.  The first frame
opens a window and is not counted; a later frame is counted, and closes the
window if a second has passed since it was opened.  The closing frame opens
the next window.

Times are nanoseconds on a clock that never runs back; a frame whose time
lies before its window counts as simultaneous with the opening.

A rate is a quotient of 64-bit words.  Of a window that lasts a whole multiple
of `2 ^ 64` milliseconds nothing is left to divide by: `record` fails on the
frame that would close it, where `frame` takes the quotient for zero.
-/

namespace BrowserHost

/-! ## the counter -/

/-- A window of at least this many nanoseconds yields a sample. -/
def FrameCounter.window : Nat := Nat.pow 10 9

/-- The open window, the frames counted in it and the latest sample. -/
structure FrameCounter where
  windowStart : Option Nat := none
  frames : Nat := 0
  fps : Nat := 0
  deriving DecidableEq, Repr

namespace FrameCounter

/-- The rate of `frames` frames in `elapsed` nanoseconds, both in 32 bits;
whole milliseconds count, at least one, in 64 bits. -/
def rate (frames elapsed : Nat) : Nat :=
  min (frames * 1000 / (max (elapsed / Nat.pow 10 6) 1 % Nat.pow 2 64)) Text.max32

/-- Count a frame displayed at `now`; a sample if it closes a window. -/
def frame (c : FrameCounter) (now : Nat) : Option Nat × FrameCounter :=
  match c.windowStart with
  | none => (none, { c with windowStart := some now })
  | some start =>
    let frames := min (c.frames + 1) Text.max32
    let elapsed := now - start
    if elapsed < window then (none, { c with frames := frames })
    else
      let fps := rate frames elapsed
      (some fps, { windowStart := some now, frames := 0, fps := fps })

/-! ## the counter in words -/

/-- What the frames of a window of `elapsed` nanoseconds are divided by: its
whole milliseconds, at least one, as far as 64 bits hold them. -/
def divisor (elapsed : Nat) : UInt64 :=
  UInt64.ofNat (max (elapsed / Nat.pow 10 6) 1)

/-- A 64-bit word in 32 bits, or the largest one that they hold. -/
def saturate (word : UInt64) : UInt32 :=
  if word.toNat ≤ Text.max32 then word.toUInt32 else UInt32.ofNat Text.max32

/-- The rate of `frames` frames in `elapsed` nanoseconds; none if that is a
division by zero. -/
def rate? (frames : UInt32) (elapsed : Nat) : Option UInt32 :=
  if divisor elapsed = 0 then none
  else some (saturate (frames.toUInt64 * 1000 / divisor elapsed))

/-- What comes of a displayed frame: nothing, a sample, or a division by
zero. -/
inductive Outcome
  | counted
  | sampled (fps : Nat)
  | failed
  deriving DecidableEq, Repr

/-- Count a frame displayed at `now`.  If the division fails the frame has been
counted, and the window stays open. -/
def record (c : FrameCounter) (now : Nat) : Outcome × FrameCounter :=
  match c.windowStart with
  | none => (.counted, { c with windowStart := some now })
  | some start =>
    let frames := min (c.frames + 1) Text.max32
    let elapsed := now - start
    if elapsed < window then (.counted, { c with frames := frames })
    else
      match rate? (UInt32.ofNat frames) elapsed with
      | none => (.failed, { c with frames := frames })
      | some fps =>
        (.sampled fps.toNat, { windowStart := some now, frames := 0, fps := fps.toNat })

/-! ## many frames -/

/-- Count frames displayed at the given times. -/
def feed (c : FrameCounter) : List Nat → FrameCounter
  | [] => c
  | t :: ts => feed (c.frame t).2 ts

/-- The samples of frames displayed at the given times, each with the number
of its frame, and the counter after them.  Frames are numbered from `k` on. -/
def samples (c : FrameCounter) (k : Nat) : List Nat → List (Nat × Nat) × FrameCounter
  | [] => ([], c)
  | t :: ts =>
    match c.frame t with
    | (none, c) => samples c (k + 1) ts
    | (some fps, c) =>
      let (rest, c) := samples c (k + 1) ts
      ((k, fps) :: rest, c)

/-- The same of frames that are recorded; none if a division fails. -/
def samples? (c : FrameCounter) (k : Nat) : List Nat → Option (List (Nat × Nat) × FrameCounter)
  | [] => some ([], c)
  | t :: ts =>
    match c.record t with
    | (.counted, c) => samples? c (k + 1) ts
    | (.sampled fps, c) => (samples? c (k + 1) ts).map fun (rest, c) => ((k, fps) :: rest, c)
    | (.failed, _) => none

theorem feed_append (c : FrameCounter) (ts us : List Nat) :
    c.feed (ts ++ us) = (c.feed ts).feed us := by
  induction ts generalizing c with
  | nil => rfl
  | cons t ts ih => simp [feed, ih]

theorem samples_snd (c : FrameCounter) (k : Nat) (ts : List Nat) :
    (c.samples k ts).2 = c.feed ts := by
  induction ts generalizing c k with
  | nil => rfl
  | cons t ts ih => simp only [samples, feed]; split <;> simp_all

end FrameCounter

end BrowserHost
