import BrowserHost.Instance.Telling

/-!
# BrowserHost.Instance.Running

What happens on a loop: engines are made, tasks run, reports come in, ticks
are taken.

A lifecycle task reads the hidden flag when it runs; a visibility task carries
the flag it was queued with and reads the applied state when it runs.  What a
lifecycle task applied is confirmed to the machine, and told if it is news.
-/

namespace BrowserHost.Instance

open Engine

/-! ## reports -/

/-- Count a displayed frame, if frames are counted. -/
def frameDisplayed (x : Instance) : Instance :=
  if x.settings.fpsSampling then
    { x with frames := (x.frames.frame x.now).2 }.note (.frame x.now)
  else x

/-- Count several frames displayed now. -/
def framesDisplayed : Nat → Instance → Instance
  | 0, x => x
  | n + 1, x => framesDisplayed n x.frameDisplayed

/-- Take a report of an engine. -/
def report (answer : Caller) (x : Instance) : Report → Instance
  | .urlChanged u => tell answer (.urlChanged u) { x with url := u }
  | .loadFinished u => tell answer (.loadFinished u) { x with url := u }
  | .closureRequested => tell answer .closureRequested x
  | .frames n => framesDisplayed n x

/-! ## the engine's work -/

/-- End a loop and drop its engine. -/
def endLoop (x : Instance) (i : Nat) (phase : Phase) : Instance :=
  match x.loop? i with
  | none => x
  | some l => (x.setLoop i (l.finish phase)).note (.dropped l.engine)

/-- Load a URL on the engine of a loop. -/
def load (answer : Caller) (x : Instance) (i : Nat) (url : String) : Instance :=
  match x.loop? i with
  | none => x
  | some l =>
    let x := x.note (.loaded l.engine url)
    if l.kind.failsOn url then x.endLoop i .crashed
    else if l.kind.reports then report answer (report answer x (.urlChanged url)) (.loadFinished url)
    else x

/-- Set the view of the engine of a loop. -/
def setView (x : Instance) (i : Nat) (v : View) : Instance :=
  match x.loop? i with
  | none => x
  | some l => (x.setLoop i { l with view := v }).note (.viewed l.engine v)

/-- Record what the engine applied, and tell it if it is news. -/
def confirm (answer : Caller) (x : Instance) (s : State) : Instance :=
  let (news, m) := x.machine.confirm s
  let x := { x with machine := m }
  if news then tell answer (.stateChanged s) x else x

/-- Block a loop until it is released. -/
def block (x : Instance) (i : Nat) : Instance :=
  match x.loop? i with
  | none => x
  | some l => x.setLoop i { l with phase := .held }

/-- Run a task on a loop. -/
def runTask (answer : Caller) (x : Instance) (i : Nat) : Task → Instance
  | .work (.load u) => load answer x i u
  | .work (.view v) => x.setView i v
  | .lifecycle s => confirm answer (x.setView i (View.of s x.hidden)) s
  | .visibility h => tell answer (.hidden h) (x.setView i (View.of x.machine.applied h))
  | .report r => report answer x r
  | .block => x.block i

/-! ## loops -/

/-- Let a loop whose task has returned wait for the next message. -/
def restLoop (x : Instance) (i : Nat) : Instance :=
  match x.loop? i with
  | none => x
  | some l => x.setLoop i l.rest

/-- Let a waiting loop take one message; none if it does not wait or has no
message. -/
def stepLoop (answer : Caller) (x : Instance) (i : Nat) : Option Instance :=
  match x.loop? i with
  | none => none
  | some l =>
    match l.phase, l.queue with
    | .idle, .stop :: _ => some (x.endLoop i .stopped)
    | .idle, .run t :: rest =>
      let x := (x.setLoop i { l with phase := .busy, queue := rest }).note (.ran l.engine t)
      some ((runTask answer x i t).restLoop i)
    | _, _ => none

/-- Let a loop take at most as many messages as the first argument says. -/
def drainLoop (answer : Caller) (i : Nat) : Nat → Instance → Instance
  | 0, x => x
  | n + 1, x =>
    match stepLoop answer x i with
    | none => x
    | some x => drainLoop answer i n x

/-- Let a loop take messages until it waits for more or does not wait. -/
def drain (answer : Caller) (i : Nat) (x : Instance) : Instance :=
  drainLoop answer i (x.backlog i + x.reach) x

/-- Let the first loop that can take a message do so. -/
def stepFirst (answer : Caller) (x : Instance) : List Nat → Option Instance
  | [] => none
  | i :: is =>
    match stepLoop answer x i with
    | some x => some x
    | none => stepFirst answer x is

/-- Let the loops take at most as many messages as the first argument says. -/
def drainLoops (answer : Caller) : Nat → Instance → Instance
  | 0, x => x
  | n + 1, x =>
    match stepFirst answer x (List.range x.loops.length) with
    | none => x
    | some x => drainLoops answer n x

/-- Take the ticks due on a loop. -/
def tickLoop (x : Instance) (i : Nat) : Instance :=
  match x.loop? i with
  | none => x
  | some l =>
    let (k, l) := l.tick x.now
    framesDisplayed k (x.setLoop i l)

/-- Let all loops do what they can do now. -/
def settle (answer : Caller) (x : Instance) : Instance :=
  let x := drainLoops answer x.bound x
  (List.range x.loops.length).foldl tickLoop x

/-! ## making an engine -/

/-- Do one thing that the maker of an engine does besides. -/
def prepare (answer : Caller) (i engine : Nat) (x : Instance) : Preparation → Instance
  | .report r => report answer x r
  | .submit w =>
    let (accepted, x) := x.submitTo i (.work w)
    x.note (.submitted engine accepted)

/-- How the making of an engine ends for its loop. -/
def built (x : Instance) (i : Nat) (p : Plan) : Instance :=
  match x.loop? i with
  | none => x
  | some l =>
    match p.outcome with
    | .ready =>
      let ticker := if p.kind.ticks then Ticker.ofRate? x.now x.settings.maxFps.toNat else none
      x.setLoop i { l with phase := .idle, ticker := ticker }
    | .refused _ | .crashed => x.setLoop i (l.finish .refused)

/-- Start a loop and make its engine there, as engine number `engine`.  The
index of the loop, or why there is no engine. -/
def spawn (answer : Caller) (engine : Nat) (p : Plan) (x : Instance) :
    Except Fault Nat × Instance :=
  let i := x.loops.length
  let l : Loop := { engine := engine, kind := p.kind }
  let x := { x with loops := x.loops ++ [l] }
  let x := x.note (.created engine { x.settings with url := x.url })
  let x := p.preparations.foldl (prepare answer i engine) x
  match p.outcome.fault? with
  | none => (.ok i, x.built i p)
  | some e => (.error e, x.built i p)

/-- Close a loop and let it run to its end; tells whether it got there. -/
def stopLoop (answer : Caller) (i : Nat) (x : Instance) : Bool × Instance :=
  match x.loop? i with
  | none => (true, x)
  | some l =>
    let x := drain answer i (x.setLoop i l.close)
    (!(x.loop? i).any (·.phase.isAlive), x)

end BrowserHost.Instance
