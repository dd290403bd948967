import BrowserHost.Event.Notice

/-!
# BrowserHost.Hub.Channel

A stream of notices with any number of subscribers.  The latest notices are
kept, up to a capacity; each subscriber has a place in the stream of all that
was ever sent.  A subscriber that fell behind the oldest notice kept is told
how many it lost, and goes on from there.  With no subscriber at all nothing
is sent.

* `length_kept_publish`: no more than the capacity is kept;
* `readAt_event`, `readAt_lagged`: what a place reads.
-/

namespace BrowserHost.Hub

/-! ## the channel -/

/-- A stream: how many notices it keeps, how many were sent, the latest of
them, newest first, and the place of each subscriber. -/
structure Channel where
  capacity : Nat
  sent : Nat := 0
  kept : List Notice := []
  places : List (String × Nat) := []
  isOpen : Bool := true
  deriving DecidableEq, Repr

/-- What one read gives: a notice, the number of notices lost, or that there
is nothing more, for now or for good. -/
inductive Read
  | event (n : Notice)
  | lagged (count : Nat)
  | empty
  | closed
  deriving DecidableEq, Repr

namespace Channel

/-- A channel that keeps at least `capacity` notices: the next power of two. -/
def ofCapacity (capacity : Nat) : Channel :=
  { capacity := capacity.nextPowerOfTwo }

/-- The place of the oldest notice kept. -/
def oldest (c : Channel) : Nat :=
  c.sent - c.kept.length

/-- Send a notice to the subscribers there are. -/
def publish (c : Channel) (n : Notice) : Channel :=
  if c.places.isEmpty then c
  else { c with sent := c.sent + 1, kept := (n :: c.kept).take c.capacity }

/-! ## subscribers -/

/-- The place of a subscriber. -/
def place? (c : Channel) (id : String) : Option Nat :=
  c.places.lookup id

/-- The places without those of `id`. -/
def without (id : String) (places : List (String × Nat)) : List (String × Nat) :=
  places.filter (·.1 != id)

/-- Put a subscriber at a place. -/
def setPlace (c : Channel) (id : String) (place : Nat) : Channel :=
  { c with places := (id, place) :: without id c.places }

/-- Subscribe to what is sent from now on, giving up any place held before. -/
def subscribe (c : Channel) (id : String) : Channel :=
  c.setPlace id c.sent

/-- End a subscription; tells whether there was one. -/
def unsubscribe (c : Channel) (id : String) : Bool × Channel :=
  ((c.place? id).isSome, { c with places := without id c.places })

/-! ## reading -/

/-- What the given place reads, and the place after it. -/
def readAt (c : Channel) (place : Nat) : Read × Nat :=
  if c.sent ≤ place then (if c.isOpen then .empty else .closed, place)
  else if place < c.oldest then (.lagged (c.oldest - place), c.oldest)
  else
    match c.kept[c.sent - 1 - place]? with
    | some n => (.event n, place + 1)
    | none => (.empty, place)

/-- At most `n` reads from a place, ending where there is nothing more. -/
def readsFrom (c : Channel) : Nat → Nat → List Read × Nat
  | 0, place => ([], place)
  | n + 1, place =>
    match c.readAt place with
    | (.empty, p) => ([.empty], p)
    | (.closed, p) => ([.closed], p)
    | (r, p) =>
      let (rs, p) := readsFrom c n p
      (r :: rs, p)

/-- At most `n` reads of a subscriber, if there is such a one. -/
def receive (c : Channel) (id : String) (n : Nat) : Option (List Read) × Channel :=
  match c.place? id with
  | none => (none, c)
  | some p =>
    let (rs, p) := c.readsFrom n p
    (some rs, c.setPlace id p)

theorem length_kept_publish {c : Channel} (h : c.kept.length ≤ c.capacity) (n : Notice) :
    (c.publish n).kept.length ≤ (c.publish n).capacity := by
  unfold publish
  split
  · exact h
  · simp only [List.length_take]; omega

theorem readAt_event {c : Channel} {place : Nat} {n : Notice}
    (h : (c.readAt place).1 = .event n) : c.kept[c.sent - 1 - place]? = some n := by
  unfold readAt at h
  grind

theorem readAt_lagged {c : Channel} {place count : Nat}
    (h : (c.readAt place).1 = .lagged count) : (c.readAt place).2 = place + count := by
  unfold readAt at h ⊢
  grind

end Channel

end BrowserHost.Hub
