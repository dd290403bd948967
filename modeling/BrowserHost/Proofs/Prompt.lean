import BrowserHost.Instance.Schedule
import Mathlib.Tactic.Common

/-!
# BrowserHost.Proofs.Prompt

An instance whose loop never keeps anyone waiting: every task runs as soon as
it is queued, so there is no queue, no phase and nothing to schedule.  It is
what callers would see if decisions and their effects were one.

* `log`: what engines and observers were told, read off a journal;
* `Prompt.call`: what calls do at once;
* `run_front`, `foldl_hidden`: what a queue does not depend on.
-/

namespace BrowserHost.Instance

open Engine Hub

/-! ## the log -/

/-- What an engine was told to do, or what observers were told. -/
inductive Mark
  | load (engine : Nat) (url : String)
  | view (engine : Nat) (v : View)
  /-- A view that came with a state; whether it was visible is left out. -/
  | state (engine : Nat) (inWindow : Bool)
  | drop (engine : Nat)
  | telling (number : Nat) (n : Notice)
  | heard (number : Nat) (o : ObserverId) (n : Notice)
  | told (number : Nat) (n : Notice)
  deriving DecidableEq

/-- What a journal says engines and observers were told, newest first. -/
def log : List Entry → List Mark
  | [] => []
  | .viewed e v :: .ran _ (.lifecycle _) :: j => .state e v.inWindow :: log j
  | .viewed e v :: j => .view e v :: log j
  | .loaded e u :: j => .load e u :: log j
  | .dropped e :: j => .drop e :: log j
  | .telling k n :: j => .telling k n :: log j
  | .heard k o n :: j => .heard k o n :: log j
  | .told k n :: j => .told k n :: log j
  | _ :: j => log j

/-- The entries of an audience. -/
theorem log_heard (k : Nat) (n : Notice) (os : List ObserverId) (j : List Entry) :
    log ((os.map fun o => .heard k o n) ++ j) = (os.map fun o => .heard k o n) ++ log j := by
  induction os with
  | nil => rfl
  | cons o os ih =>
    simp only [List.map_cons, List.cons_append, log]
    rw [ih]

/-! ## prompt instances -/

/-- An instance whose loop runs every task at once. -/
structure Prompt where
  requested : State := .uninitialized
  applied : State := .uninitialized
  url : String
  hidden : Bool := false
  attempts : Nat := 0
  /-- The engines so far, with their numbers and views. -/
  engines : List (Nat × View) := []
  /-- The place of the engine that a session is running on. -/
  running : Option Nat := none
  hub : Hub
  tellings : Nat := 0
  log : List Mark := []

namespace Prompt

/-- The number of the engine in that place. -/
def engineOf (p : Prompt) (i : Nat) : Nat :=
  ((p.engines[i]?).map (·.1)).getD 0

/-- Tell everyone who is registered. -/
def tell (n : Notice) (p : Prompt) : Prompt :=
  { p with
    tellings := p.tellings + 1
    hub := p.hub.publish n
    log := .told p.tellings n :: (((p.hub.audience n).reverse.map fun o => .heard p.tellings o n) ++
      .telling p.tellings n :: p.log) }

/-- Run a message on the engine with number `e` in place `i`. -/
def run (i e : Nat) (p : Prompt) : Message → Prompt
  | .run (.work (.load u)) => { p with log := .load e u :: p.log }
  | .run (.work (.view v)) =>
    { p with engines := p.engines.set i (e, v), log := .view e v :: p.log }
  | .run (.lifecycle s) =>
    let p := { p with
      engines := p.engines.set i (e, View.of s p.hidden)
      log := .state e (s == .resumed) :: p.log }
    if p.applied = s then p else { p with applied := s }.tell (.stateChanged s)
  | .run (.visibility h) =>
    { p with
      engines := p.engines.set i (e, View.of p.applied h)
      log := .view e (View.of p.applied h) :: p.log }.tell (.hidden h)
  | .run (.report _) | .run .block => p
  | .stop => { p with log := .drop e :: p.log }

/-- Run a task on the engine of the session, if one is running. -/
def submit (t : Task) (p : Prompt) : Prompt :=
  match p.running with
  | none => p
  | some i => p.run i (p.engineOf i) (.run t)

/-! ## calls -/

/-- The work that the maker of an engine queues. -/
def works : List Preparation → List Task
  | [] => []
  | .report _ :: qs => works qs
  | .submit w :: qs => .work w :: works qs

/-- The tasks of a new session, oldest first. -/
def opening (qs : List Preparation) (url : String) (target : State) : List Task :=
  works qs ++ [.work (.load url), .lifecycle target]

/-- Begin a session on a new engine. -/
def begin (pl : Plan) (p : Prompt) : Prompt :=
  let target := (Machine.begin { requested := p.requested }).1
  ((opening pl.preparations p.url target).map .run).foldl (run p.engines.length p.attempts)
    { p with
      requested := target
      applied := .uninitialized
      engines := p.engines ++ [(p.attempts, ({} : View))]
      running := some p.engines.length }

/-- Start a session, unless one is running. -/
def start (pl : Plan) (p : Prompt) : Reply × Prompt :=
  let p := { p with attempts := p.attempts + 1 }
  if p.running.isSome then (.fault (.engineLoop "engine loop is already running"), p)
  else
    match pl.outcome.fault? with
    | some e => (.fault e, { p with engines := p.engines ++ [(p.attempts, ({} : View))] })
    | none => (.done, p.begin pl)

/-- End the session, if one is running. -/
def shutdown (p : Prompt) : Prompt :=
  match p.running with
  | none => p
  | some i => { p with running := none }.run i (p.engineOf i) .stop

/-- Change the state, if the request is granted. -/
def request (c : Command) (p : Prompt) : Reply × Prompt :=
  match p.requested.transition c with
  | .error e => (.fault e, p)
  | .ok t =>
    (.done, if t.dispatch then { p with requested := t.next }.submit (.lifecycle t.next)
      else { p with requested := t.next })

/-- Hide or show the view of a running session, if that is a change. -/
def hide (hidden : Bool) (p : Prompt) : Prompt :=
  if p.running.isNone || p.hidden == hidden then p
  else { p with hidden := hidden }.submit (.visibility hidden)

/-- What a call does; those that are not about sessions do nothing. -/
def call (c : Call) (p : Prompt) : Reply × Prompt :=
  match c with
  | .start pl => p.start pl
  | .shutdown => (.done, p.shutdown)
  | .suspend => p.request .suspend
  | .resume => p.request .resume
  | .request c => p.request c
  | .setUrl url => (.done, { p with url := url }.submit (.work (.load url)))
  | .hide hidden => (.done, p.hide hidden)
  | .dispatch w => (.flag p.running.isSome, p.submit (.work w))
  | _ => (.done, p)

end Prompt

/-! ## answers -/

/-- What a call returns, and what its caller can read after it. -/
structure Answer where
  reply : Reply
  state : State
  url : String
  hidden : Bool
  deriving DecidableEq

namespace Prompt

/-- What a call returns, and what can be read after it. -/
def answer (c : Call) (p : Prompt) : Answer :=
  let (r, p) := p.call c
  ⟨r, p.requested, p.url, p.hidden⟩

/-- Make calls one after the other. -/
def callAll (p : Prompt) (cs : List Call) : Prompt :=
  cs.foldl (fun p c => (p.call c).2) p

/-- What calls return, one after the other. -/
def answers (p : Prompt) : List Call → List Answer
  | [] => []
  | c :: cs => p.answer c :: (p.call c).2.answers cs

/-! ## what a queue does not depend on -/

section

variable {i e : Nat} {p q : Prompt}

/-- What callers decide at once is not the business of a message. -/
theorem run_front (m : Message) (r : State) (u : String) (a : Nat) (o : Option Nat) :
    run i e { p with requested := r, url := u, attempts := a, running := o } m =
      { run i e p m with requested := r, url := u, attempts := a, running := o } := by
  match m with
  | .stop | .run (.work (.load _)) | .run (.work (.view _)) | .run (.visibility _)
  | .run (.report _) | .run .block => rfl
  | .run (.lifecycle s) =>
    by_cases hs : p.applied = s
    · simp only [run, hs, if_true]
    · simp only [run, if_neg hs]
      rfl

/-- What callers decide at once is the same. -/
structure SameFront (p q : Prompt) : Prop where
  requested : q.requested = p.requested
  url : q.url = p.url
  hidden : q.hidden = p.hidden
  attempts : q.attempts = p.attempts
  running : q.running = p.running

/-- A message changes nothing of that. -/
theorem front_run (m : Message) : SameFront p (run i e p m) := by
  match m with
  | .stop | .run (.work (.load _)) | .run (.work (.view _)) | .run (.visibility _)
  | .run (.report _) | .run .block => exact ⟨rfl, rfl, rfl, rfl, rfl⟩
  | .run (.lifecycle s) =>
    by_cases hs : p.applied = s
    · simp only [run, hs, if_true]
      exact ⟨rfl, rfl, rfl, rfl, rfl⟩
    · simp only [run, if_neg hs]
      exact ⟨rfl, rfl, rfl, rfl, rfl⟩

theorem foldl_front (ms : List Message) (r : State) (u : String) (a : Nat) (o : Option Nat) :
    ms.foldl (run i e) { p with requested := r, url := u, attempts := a, running := o } =
      { ms.foldl (run i e) p with requested := r, url := u, attempts := a, running := o } := by
  induction ms generalizing p with
  | nil => rfl
  | cons m ms ih =>
    rw [List.foldl_cons, run_front, ih]
    rfl

theorem front_foldl (ms : List Message) : SameFront p (ms.foldl (run i e) p) := by
  induction ms generalizing p with
  | nil => exact ⟨rfl, rfl, rfl, rfl, rfl⟩
  | cons m ms ih =>
    have h := @ih (run i e p m)
    have hm := @front_run i e p m
    exact ⟨h.requested.trans hm.requested, h.url.trans hm.url, h.hidden.trans hm.hidden,
      h.attempts.trans hm.attempts, h.running.trans hm.running⟩

/-- An engine keeps its number under every view. -/
theorem engineOf_set (h : p.engineOf i = e) {v : View}
    (hq : q.engines = p.engines.set i (e, v)) : q.engineOf i = e := by
  unfold engineOf at h ⊢
  rw [hq, List.getElem?_set_self']
  cases hi : p.engines[i]? with
  | none => rwa [hi] at h
  | some w => rfl

theorem engineOf_run (h : p.engineOf i = e) (m : Message) : (run i e p m).engineOf i = e := by
  match m with
  | .stop | .run (.work (.load _)) | .run (.report _) | .run .block => exact h
  | .run (.work (.view _)) | .run (.visibility _) => exact engineOf_set h rfl
  | .run (.lifecycle s) =>
    by_cases hs : p.applied = s
    · simp only [run, hs, if_true]
      exact engineOf_set h rfl
    · simp only [run, if_neg hs]
      exact engineOf_set h rfl

theorem engineOf_foldl (h : p.engineOf i = e) (ms : List Message) :
    (ms.foldl (run i e) p).engineOf i = e := by
  induction ms generalizing p with
  | nil => exact h
  | cons m ms ih => exact ih (engineOf_run h m)

/-- A lifecycle task reads whether the view is hidden, and that shows in the
view alone. -/
theorem run_hidden (h : Bool) (v : View) (m : Message) :
    ∃ w, run i e { p with hidden := h, engines := p.engines.set i (e, v) } m =
      { run i e p m with hidden := h, engines := (run i e p m).engines.set i (e, w) } := by
  match m with
  | .stop | .run (.work (.load _)) | .run (.report _) | .run .block => exact ⟨v, rfl⟩
  | .run (.work (.view w)) =>
    refine ⟨w, ?_⟩
    simp only [run, List.set_set]
  | .run (.visibility w) =>
    refine ⟨View.of p.applied w, ?_⟩
    simp only [run, tell, List.set_set]
  | .run (.lifecycle s) =>
    refine ⟨View.of s h, ?_⟩
    by_cases hs : p.applied = s
    · simp only [run, hs, if_true, List.set_set]
    · simp only [run, if_neg hs, tell, List.set_set]

theorem foldl_hidden (h : Bool) (v : View) (ms : List Message) :
    ∃ w, ms.foldl (run i e) { p with hidden := h, engines := p.engines.set i (e, v) } =
      { ms.foldl (run i e) p with
        hidden := h
        engines := (ms.foldl (run i e) p).engines.set i (e, w) } := by
  induction ms generalizing p v with
  | nil => exact ⟨v, rfl⟩
  | cons m ms ih =>
    obtain ⟨w, hw⟩ := @run_hidden i e p h v m
    rw [List.foldl_cons, hw]
    exact ih w

theorem submit_eq (h : p.running = some i) (he : p.engineOf i = e) (t : Task) :
    p.submit t = p.run i e (.run t) := by
  unfold submit
  rw [h]
  simp only [he]

theorem url_shutdown (p : Prompt) : p.shutdown.url = p.url := by
  unfold shutdown
  split
  · rfl
  · rfl

/-- A visibility task runs over what the view was before. -/
theorem run_visibility (h : Bool) (v : View) :
    run i e { p with hidden := h, engines := p.engines.set i (e, v) } (.run (.visibility h)) =
      run i e { p with hidden := h } (.run (.visibility h)) := by
  simp only [run, tell, List.set_set]

end

end Prompt

end BrowserHost.Instance
