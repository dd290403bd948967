import BrowserHost.Engine.Loop
import BrowserHost.FrameCounter
import BrowserHost.Instance.Call

/-!
# BrowserHost.Instance.Basic

One supervised browser instance: its lifecycle, the URL it tracks, its
visibility, its hub, and the engine loops it has started.  Decisions are made
at once and recorded here; their effects on the engine are queued on a loop in
the order of the decisions.

The journal keeps everything that has happened, newest first.  No operation
reads it.

* `accepts_of_submitTo`: a task is accepted exactly by a loop that accepts
  tasks.
-/

namespace BrowserHost

open Engine Hub

namespace Instance

/-! ## the journal -/

/-- Something that happened. -/
inductive Entry
  /-- A request was accepted. -/
  | requested (c : Command) (next : State)
  /-- A session began with the given engine. -/
  | began (engine : Nat) (target : State)
  /-- A session was given up. -/
  | ended (engine : Nat)
  | navigated (url : String)
  | flipped (hidden : Bool)
  /-- A frame was displayed and counted. -/
  | frame (time : Nat)
  /-- A loop accepted a task. -/
  | queued (engine : Nat) (t : Task)
  /-- A loop began to run a task. -/
  | ran (engine : Nat) (t : Task)
  /-- The making of an engine began. -/
  | created (engine : Nat) (s : BrowserSettings)
  /-- The maker of an engine queued work. -/
  | submitted (engine : Nat) (accepted : Bool)
  | loaded (engine : Nat) (url : String)
  | viewed (engine : Nat) (v : View)
  | dropped (engine : Nat)
  /-- The telling of that number began. -/
  | telling (number : Nat) (n : Notice)
  /-- An observer heard a notice, in the telling of that number. -/
  | heard (number : Nat) (o : ObserverId) (n : Notice)
  /-- An observer's call returned. -/
  | answered (name : String) (c : Call) (r : Reply)
  /-- The telling of that number ended, and the notice went out. -/
  | told (number : Nat) (n : Notice)

/-- An observer that has been mentioned, and its reactions. -/
structure Observer where
  name : String
  reactions : List Reaction

end Instance

/-! ## the instance -/

/-- A browser instance. -/
structure Instance where
  settings : BrowserSettings
  machine : Machine := {}
  url : String
  hidden : Bool := false
  frames : FrameCounter := {}
  /-- The loop on which effects are queued. -/
  dispatcher : Option Nat := none
  /-- The loop that a shutdown will stop. -/
  owned : Option Nat := none
  hub : Hub := {}
  observers : List Instance.Observer := []
  /-- How many nameless observers there have been. -/
  quiet : Nat := 0
  /-- How many times something was told. -/
  tellings : Nat := 0
  loops : List Loop := []
  /-- The loops of the sessions so far, in order. -/
  sessions : List Nat := []
  /-- How many starts were attempted, rejected ones included. -/
  attempts : Nat := 0
  /-- The loop that is blocked. -/
  holding : Option Nat := none
  now : Nat := 0
  journal : List Instance.Entry := []

namespace Instance

/-- A fresh instance. -/
def ofSettings (s : BrowserSettings) : Instance :=
  { settings := s, url := s.url }

/-- Record that something happened. -/
def note (x : Instance) (e : Entry) : Instance :=
  { x with journal := e :: x.journal }

/-- Hand out what has been recorded, in order, and forget it. -/
def takeJournal (x : Instance) : List Entry × Instance :=
  (x.journal.reverse, { x with journal := [] })

/-! ## what callers can see -/

/-- The latest frame rate; zero without a session or without sampling. -/
def fps (x : Instance) : Nat :=
  if x.settings.fpsSampling && x.dispatcher.isSome then x.frames.fps else 0

/-- What callers can see. -/
def status (x : Instance) : Status :=
  { state := x.machine.requested, url := x.url, hidden := x.hidden,
    running := x.dispatcher.isSome, fps := x.fps,
    observers := (x.hub.state.count, x.hub.lifecycle.count) }

/-! ## observers -/

/-- The reactions of an observer, if it has been mentioned. -/
def reactions? (x : Instance) (name : String) : Option (List Reaction) :=
  (x.observers.find? (·.name == name)).map (·.reactions)

/-- Mention an observer: a new one gets the given reactions. -/
def mention (x : Instance) (name : String) (reactions : List Reaction) : Instance :=
  match x.reactions? name with
  | some _ => x
  | none => { x with observers := x.observers ++ [⟨name, reactions⟩] }

/-- Give an observer other reactions. -/
def setReactions (x : Instance) (name : String) (reactions : List Reaction) : Instance :=
  { x with
    observers := x.observers.map fun o =>
      if o.name = name then { o with reactions := reactions } else o }

/-- Choose the calls that an observer makes on hearing `n`; they count as made. -/
def choose (x : Instance) (name : String) (n : Notice) : List Call × Instance :=
  match x.reactions? name with
  | none => ([], x)
  | some rs =>
    let (calls, rest) := Reaction.choose n rs
    (calls, x.setReactions name rest)

/-! ## loops -/

/-- The loop with that index. -/
def loop? (x : Instance) (i : Nat) : Option Loop :=
  x.loops[i]?

/-- Put a loop in place of the one with that index. -/
def setLoop (x : Instance) (i : Nat) (l : Loop) : Instance :=
  { x with loops := x.loops.set i l }

/-- Read the flag of a loop that turns tasks away. -/
def isShut (x : Instance) (i : Nat) : Bool :=
  (x.loop? i).any (·.closed)

/-- Send a task to a loop; tells whether the loop was there to take it. -/
def sendTo (x : Instance) (i : Nat) (t : Task) : Bool × Instance :=
  match x.loop? i with
  | none => (false, x)
  | some l =>
    if l.phase.isAlive then (true, (x.setLoop i (l.send (.run t))).note (.queued l.engine t))
    else (false, x)

/-- Submit a task to a loop; tells whether it was accepted. -/
def submitTo (x : Instance) (i : Nat) (t : Task) : Bool × Instance :=
  if x.isShut i then (false, x) else x.sendTo i t

/-- Submit a task to the loop of the running session. -/
def submit (x : Instance) (t : Task) : Bool × Instance :=
  match x.dispatcher with
  | none => (false, x)
  | some i => x.submitTo i t

/-- The loop of the session with that number. -/
def session? (x : Instance) (k : Nat) : Option Nat :=
  x.sessions[k]?

/-- A submission that nothing interrupts. -/
theorem submitTo_eq (x : Instance) (i : Nat) (t : Task) :
    x.submitTo i t =
      match x.loop? i with
      | none => (false, x)
      | some l =>
        if l.accepts then (true, (x.setLoop i (l.push t)).note (.queued l.engine t))
        else (false, x) := by
  unfold submitTo isShut sendTo
  cases x.loop? i with
  | none => rfl
  | some l =>
    unfold Loop.push Loop.accepts
    cases hc : l.closed <;> simp [hc]

theorem accepts_of_submitTo (x : Instance) (i : Nat) (t : Task) :
    (x.submitTo i t).1 = (x.loop? i).any (·.accepts) := by
  rw [submitTo_eq]
  cases x.loop? i <;> simp
  split <;> simp_all

/-! ## bounds -/

/-- A bound on the calls that observers can still make. -/
def reach (x : Instance) : Nat :=
  x.observers.foldr (fun o n => Reaction.weights o.reactions + n) 0

/-- How many messages a loop has left to take. -/
def backlog (x : Instance) (i : Nat) : Nat :=
  ((x.loop? i).map (·.queue.length)).getD 0

/-- A bound on the messages still to be run and the calls still to be made. -/
def bound (x : Instance) : Nat :=
  x.loops.foldr (fun l n => l.queue.length + n) x.reach

end Instance

end BrowserHost
