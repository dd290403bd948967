import BrowserHost.Engine.Kind
import BrowserHost.Hub.Basic
import BrowserHost.Settings.Basic

/-!
# BrowserHost.Instance.Call

What callers can do to an instance, and what they get back.  Observers are
callers too: a reaction says which call an observer makes when it hears a
notice, and how many times at most.  So every run is finite, and the weight of
a call bounds what can follow from it.
-/

namespace BrowserHost.Instance

open Engine Hub

/-! ## calls -/

mutual

/-- A call. -/
inductive Call
  /-- Register the observer of that name, which has the given reactions if it
  is new. -/
  | register (role : Role) (name : String) (reactions : List Reaction)
  /-- Register a new observer that ignores what it hears. -/
  | registerQuiet
  | unregister (role : Role) (name : String) (reactions : List Reaction)
  | notify (n : Notice)
  | dropHub
  | subscribe (id : String)
  | unsubscribe (id : String)
  | receive (id : String) (max : Nat)
  | start (p : Plan)
  | shutdown
  | suspend
  | resume
  | request (c : Command)
  | setUrl (url : String)
  | hide (hidden : Bool)
  | dispatch (w : Work)
  /-- Submit work to the loop of the session with that number. -/
  | submit (session : Nat) (w : Work)
  | isClosed (session : Nat)
  /-- Let the engine of a session, or of the latest one, report something. -/
  | emit (r : Report) (session : Option Nat)
  /-- Block the loop inside a task. -/
  | hold
  | release
  | advance (ns : Nat)
  | settings
  | read
  | repeat (count : Nat) (calls : List Call)

/-- What an observer does when it hears a notice, and how often at most. -/
inductive Reaction
  | mk (on : Notice) (call : Call) (times : Nat)

end

/-! ## replies -/

/-- What callers can see of an instance. -/
structure Status where
  state : State
  url : String
  hidden : Bool
  running : Bool
  fps : Nat
  /-- The numbers of observers in the two registries. -/
  observers : Nat × Nat
  deriving DecidableEq, Repr

/-- What a call gives back. -/
inductive Reply
  | done
  | fault (e : Fault)
  | flag (b : Bool)
  /-- The hub is gone. -/
  | noHub
  | noReceiver
  | noEngine
  | alreadyHeld
  | notRunning
  | notHeld
  | reads (rs : List Read)
  | settings (s : BrowserSettings)
  | status (s : Status)
  deriving DecidableEq, Repr

/-! ## weights -/

mutual

/-- A bound on the calls and messages that can follow from a call. -/
def Call.weight : Call → Nat
  | .register _ _ rs => 2 + Reaction.weights rs
  | .unregister _ _ rs => 2 + Reaction.weights rs
  | .start p => 4 + p.preparations.length
  | .repeat n cs => 2 + n * Call.weights cs
  | _ => 2

/-- The weight of all calls of a list. -/
def Call.weights : List Call → Nat
  | [] => 0
  | c :: cs => c.weight + Call.weights cs

/-- The weight of a reaction is that of all the calls it can still make. -/
def Reaction.weight : Reaction → Nat
  | ⟨_, c, times⟩ => times * (1 + c.weight)

/-- The weight of all reactions of a list. -/
def Reaction.weights : List Reaction → Nat
  | [] => 0
  | r :: rs => r.weight + Reaction.weights rs

end

theorem weight_pos (c : Call) : 0 < c.weight := by
  cases c <;> simp only [Call.weight] <;> omega

/-! ## repetition -/

mutual

/-- The calls that a call stands for, with repetitions written out. -/
def Call.flatten : Call → List Call
  | .repeat n cs => (List.replicate n (Call.flattenAll cs)).flatten
  | c => [c]

/-- The calls that a list of calls stands for. -/
def Call.flattenAll : List Call → List Call
  | [] => []
  | c :: cs => c.flatten ++ Call.flattenAll cs

end

/-! ## choice -/

/-- The calls that reactions make when `n` is heard, and what is left of the
reactions. -/
def Reaction.choose (n : Notice) : List Reaction → List Call × List Reaction
  | [] => ([], [])
  | ⟨on, call, times⟩ :: rs =>
    let (calls, rest) := choose n rs
    if on = n ∧ 0 < times then (call :: calls, ⟨on, call, times - 1⟩ :: rest)
    else (calls, ⟨on, call, times⟩ :: rest)

/-- What is chosen is paid for out of the weight. -/
theorem Reaction.weights_choose (n : Notice) (rs : List Reaction) :
    Call.weights (Reaction.choose n rs).1 + Reaction.weights (Reaction.choose n rs).2 ≤
      Reaction.weights rs := by
  induction rs with
  | nil => simp [choose, Call.weights, Reaction.weights]
  | cons r rs ih =>
    obtain ⟨on, call, times⟩ := r
    unfold choose
    simp only
    split
    · next h =>
      obtain ⟨k, rfl⟩ : ∃ k, times = k + 1 := ⟨times - 1, by omega⟩
      simp only [Call.weights, Reaction.weights, Reaction.weight, Nat.add_sub_cancel,
        Nat.add_mul]
      omega
    · simp only [Reaction.weights, Reaction.weight]
      omega

end BrowserHost.Instance
