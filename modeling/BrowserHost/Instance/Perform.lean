import BrowserHost.Instance.Running

/-!
# BrowserHost.Instance.Perform

What each call does.  Decisions about the state, the URL and the visibility
are made at once; while a session is running their effects are queued on its
loop.

A call that observers react to may lead to more calls.  Every reaction is used
up a little each time, so calls nest to a bounded depth.

* `request_error`: a refused request changes nothing;
* `hide_of_no_session`: without a session, hiding does nothing.
-/

namespace BrowserHost.Instance

open Engine Hub

/-! ## the hub -/

/-- Register an observer. -/
def register (x : Instance) (role : Role) (o : ObserverId) : Reply × Instance :=
  if x.hub.isOpen then
    match x.hub.register role o with
    | .ok h => (.done, { x with hub := h })
    | .error e => (.fault e, x)
  else (.noHub, x)

/-- Register an observer that nobody knows. -/
def registerQuiet (x : Instance) : Reply × Instance :=
  { x with quiet := x.quiet + 1 }.register .lifecycle (.quiet x.quiet)

/-- Unregister an observer. -/
def unregister (x : Instance) (role : Role) (o : ObserverId) : Reply × Instance :=
  if x.hub.isOpen then
    match x.hub.unregister role o with
    | .ok h => (.done, { x with hub := h })
    | .error e => (.fault e, x)
  else (.noHub, x)

/-- Take the hub away. -/
def dropHub (x : Instance) : Reply × Instance :=
  (.flag x.hub.isOpen, { x with hub := x.hub.drop })

/-- Subscribe to the channel. -/
def subscribe (x : Instance) (id : String) : Reply × Instance :=
  if x.hub.isOpen then
    (.done, { x with hub := { x.hub with channel := x.hub.channel.subscribe id } })
  else (.noHub, x)

/-- End a subscription. -/
def unsubscribe (x : Instance) (id : String) : Reply × Instance :=
  let (had, c) := x.hub.channel.unsubscribe id
  (.flag had, { x with hub := { x.hub with channel := c } })

/-- Read from the channel. -/
def receive (x : Instance) (id : String) (max : Nat) : Reply × Instance :=
  let (rs, c) := x.hub.channel.receive id max
  ((rs.map Reply.reads).getD .noReceiver, { x with hub := { x.hub with channel := c } })

/-! ## sessions -/

/-- Begin a session on a loop whose engine is ready: load the tracked URL and
drive the engine into the requested state. -/
def begin (x : Instance) (i engine : Nat) : Instance :=
  let (target, m) := x.machine.begin
  let x := { x with machine := m, frames := {} }.note (.began engine target)
  let (_, x) := x.submitTo i (.work (.load x.url))
  let (_, x) := x.submitTo i (.lifecycle target)
  { x with dispatcher := some i, owned := some i, sessions := x.sessions ++ [i] }

/-- Start a session, unless one is running. -/
def start (answer : Caller) (x : Instance) (p : Plan) : Reply × Instance :=
  let engine := x.attempts + 1
  let x := { x with attempts := engine }
  if x.owned.isSome then (.fault (.engineLoop "engine loop is already running"), x)
  else
    match spawn answer engine p x with
    | (.error e, x) => (.fault e, x)
    | (.ok i, x) => (.done, x.begin i engine)

/-- The number of the engine of a loop. -/
def engineOf (x : Instance) (i : Nat) : Nat :=
  ((x.loop? i).map (·.engine)).getD 0

/-- End the session, if one is running.  A loop that cannot run to its end now
is left to itself. -/
def shutdown (answer : Caller) (x : Instance) : Reply × Instance :=
  match x.owned with
  | none => (.done, x)
  | some i =>
    let x := { x with owned := none, dispatcher := none, frames := {} }
    (.done, (stopLoop answer i (x.note (.ended (x.engineOf i)))).2)

/-! ## the lifecycle, the URL and the view -/

/-- Decide a request; queue its effect if there is one. -/
def request (x : Instance) (c : Command) : Reply × Instance :=
  match x.machine.request c with
  | .error e => (.fault e, x)
  | .ok (t, m) =>
    let x := { x with machine := m }.note (.requested c t.next)
    (.done, if t.dispatch then (x.submit (.lifecycle t.next)).2 else x)

/-- Navigate, or just remember the URL for the next session. -/
def setUrl (x : Instance) (url : String) : Instance :=
  ({ x with url := url }.note (.navigated url)).submit (.work (.load url)) |>.2

/-- Hide or show the view of a running session, if that is a change. -/
def hide (x : Instance) (hidden : Bool) : Instance :=
  if x.dispatcher.isNone || x.hidden == hidden then x
  else (({ x with hidden := hidden }.note (.flipped hidden)).submit (.visibility hidden)).2

/-! ## engines -/

/-- The loop of a session, or of the latest one. -/
def loopOf? (x : Instance) : Option Nat → Option Nat
  | some k => x.session? k
  | none => x.sessions.getLast?

/-- Let an engine report something: on the loop of the session if that waits
for work, else at once. -/
def emit (answer : Caller) (x : Instance) (r : Report) (session : Option Nat) :
    Reply × Instance :=
  match x.loopOf? session with
  | none => (.noEngine, x)
  | some _ =>
    match x.dispatcher with
    | none => (.done, report answer x r)
    | some i =>
      if (x.loop? i).any fun l => l.accepts && l.phase == .idle then
        (.done, drain answer i (x.submitTo i (.report r)).2)
      else (.done, report answer x r)

/-- Block the loop of the session. -/
def hold (answer : Caller) (x : Instance) : Reply × Instance :=
  match x.holding, x.dispatcher with
  | some _, _ => (.alreadyHeld, x)
  | none, none => (.notRunning, x)
  | none, some i =>
    match x.submitTo i .block with
    | (false, x) => (.notRunning, x)
    | (true, x) => (.done, { drain answer i x with holding := some i })

/-- Let a blocked loop go on. -/
def unblock (x : Instance) (i : Nat) : Instance :=
  match x.loop? i with
  | none => x
  | some l => if l.phase = .held then x.setLoop i { l with phase := .idle } else x

/-- Release the loop that is blocked. -/
def release (x : Instance) : Reply × Instance :=
  match x.holding with
  | none => (.notHeld, x)
  | some i => (.done, { x with holding := none }.unblock i)

/-- Submit work to the loop of a session. -/
def submitWork (x : Instance) (session : Nat) (w : Work) : Reply × Instance :=
  match x.session? session with
  | none => (.noEngine, x)
  | some i =>
    let (accepted, x) := x.submitTo i (.work w)
    (.flag accepted, x)

/-- Whether the loop of a session accepts no more work. -/
def sessionClosed (x : Instance) (session : Nat) : Reply :=
  match (x.session? session).bind x.loop? with
  | none => .noEngine
  | some l => .flag l.isClosed

/-! ## all calls -/

/-- Let calls be made one after the other. -/
def callAll (answer : Caller) (x : Instance) (cs : List Call) : Instance :=
  cs.foldl (fun x c => (answer c x).2) x

/-- What a call does, given what the calls it leads to do. -/
def performWith (answer : Caller) (c : Call) (x : Instance) : Reply × Instance :=
  match c with
  | .register role name rs => (x.mention name rs).register role (.named name)
  | .registerQuiet => x.registerQuiet
  | .unregister role name rs => (x.mention name rs).unregister role (.named name)
  | .notify n => if x.hub.isOpen then (.done, tell answer n x) else (.noHub, x)
  | .dropHub => x.dropHub
  | .subscribe id => x.subscribe id
  | .unsubscribe id => x.unsubscribe id
  | .receive id max => x.receive id max
  | .start p => start answer x p
  | .shutdown => shutdown answer x
  | .suspend => x.request .suspend
  | .resume => x.request .resume
  | .request c => x.request c
  | .setUrl url => (.done, x.setUrl url)
  | .hide hidden => (.done, x.hide hidden)
  | .dispatch w => let (accepted, x) := x.submit (.work w); (.flag accepted, x)
  | .submit session w => x.submitWork session w
  | .isClosed session => (x.sessionClosed session, x)
  | .emit r session => emit answer x r session
  | .hold => hold answer x
  | .release => x.release
  | .advance ns => (.done, { x with now := x.now + ns })
  | .settings => (.settings x.settings, x)
  | .read => (.status x.status, x)
  | .repeat n cs => (.done, callAll answer x (Call.flatten (.repeat n cs)))

/-- What a call does when calls may nest to the given depth. -/
def perform : Nat → Caller
  | 0, _, x => (.done, x)
  | depth + 1, c, x => performWith (perform depth) c x

/-- What a call does. -/
def call : Caller := fun c x =>
  perform (c.weight + x.reach) c x

/-! ## small laws -/

theorem request_error {x : Instance} {c : Command} {e : Fault} (h : (x.request c).1 = .fault e) :
    (x.request c).2 = x := by
  unfold request at h ⊢
  cases hm : x.machine.request c with
  | error e' => rfl
  | ok r => simp [hm] at h

theorem hide_of_no_session {x : Instance} (h : x.dispatcher = none) (hidden : Bool) :
    x.hide hidden = x := by
  simp [hide, h]

/-! ## runs -/

/-- Make one call that is no repetition, and let all loops do what they can. -/
def stepOne (c : Call) (x : Instance) : Reply × Instance :=
  let (r, x) := call c x
  (r, settle call x)

/-- Make a call and let all loops do what they can; in a repetition, after
each of its calls. -/
def step (c : Call) (x : Instance) : Reply × Instance :=
  match c with
  | .repeat n cs => (.done, callAll stepOne x (Call.flatten (.repeat n cs)))
  | c => stepOne c x

/-- Release the loop that is blocked, end the session, and let all loops come
to their end. -/
def finish (x : Instance) : Instance :=
  (step .shutdown (step .release x).2).2

end BrowserHost.Instance
