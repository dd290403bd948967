import BrowserHost.Instance.Perform

/-!
# BrowserHost.Instance.Schedule

Everything that can happen to an instance, one thing at a time.  Callers and
loops take their turns in any order: a schedule is a list of turns, and what is
said of every schedule holds whatever the timing of the loops.

* `play_append`: a schedule can be cut anywhere.
-/

namespace BrowserHost.Instance

/-- A waiting loop stalls: it takes no message until it goes on. -/
def stall (x : Instance) (i : Nat) : Instance :=
  match x.loop? i with
  | none => x
  | some l => if l.phase = .idle then x.setLoop i { l with phase := .held } else x

/-- One turn: a caller makes a call, a loop takes its next message, a loop
takes the ticks that are due, or a loop stalls or goes on. -/
inductive Turn
  | call (c : Call)
  | message (loop : Nat)
  | tick (loop : Nat)
  | stall (loop : Nat)
  | goOn (loop : Nat)

/-- Take a turn.  A loop that has nothing to take lets its turn pass. -/
def turn (x : Instance) : Turn → Instance
  | .call c => (call c x).2
  | .message i => (stepLoop call x i).getD x
  | .tick i => x.tickLoop i
  | .stall i => x.stall i
  | .goOn i => x.unblock i

/-- Take turns, in order. -/
def play (x : Instance) (ts : List Turn) : Instance :=
  ts.foldl turn x

theorem play_append (x : Instance) (ts us : List Turn) :
    x.play (ts ++ us) = (x.play ts).play us :=
  List.foldl_append

end BrowserHost.Instance
