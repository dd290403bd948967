import BrowserHost.Instance.Basic

/-!
# BrowserHost.Instance.Telling

Telling observers.  Who is told is settled when the telling starts; observers
may then do whatever they like, to the registries too.  When all have been told
the notice goes out over the channel.

What an observer's call does is a parameter here, so tellings nest to any
depth without this module knowing.
-/

namespace BrowserHost.Instance

open Hub

/-- What calls do: the reply, and the instance afterwards. -/
abbrev Caller := Call → Instance → Reply × Instance

/-! ## one observer -/

/-- Let an observer make its calls, in order. -/
def react (answer : Caller) (name : String) (x : Instance) : List Call → Instance
  | [] => x
  | c :: cs =>
    let (r, x) := answer c x
    react answer name (x.note (.answered name c r)) cs

/-- Let an observer hear a notice. -/
def deliver (answer : Caller) (telling : Nat) (n : Notice) (x : Instance) (o : ObserverId) :
    Instance :=
  let x := x.note (.heard telling o n)
  match o with
  | .quiet _ => x
  | .named name =>
    let (calls, x) := x.choose name n
    react answer name x calls

/-! ## all observers -/

/-- Let each of the observers hear a notice. -/
def deliverAll (answer : Caller) (telling : Nat) (n : Notice) (x : Instance)
    (audience : List ObserverId) : Instance :=
  audience.foldl (deliver answer telling n) x

theorem deliverAll_cons (answer : Caller) (k : Nat) (n : Notice) (x : Instance) (o : ObserverId)
    (os : List ObserverId) :
    deliverAll answer k n x (o :: os) = deliverAll answer k n (deliver answer k n x o) os := rfl

/-- Begin a telling. -/
def announce (n : Notice) (x : Instance) : Instance :=
  { x with tellings := x.tellings + 1 }.note (.telling x.tellings n)

/-- End a telling: the notice goes out over the channel. -/
def conclude (telling : Nat) (n : Notice) (x : Instance) : Instance :=
  { x with hub := x.hub.publish n }.note (.told telling n)

/-- Tell the observers that are registered now, then the subscribers. -/
def tell (answer : Caller) (n : Notice) (x : Instance) : Instance :=
  conclude x.tellings n
    (deliverAll answer x.tellings n (x.announce n) (x.hub.audience n))

end BrowserHost.Instance
