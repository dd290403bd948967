import BrowserHost.Proofs.Prompt
import BrowserHost.Proofs.Run

/-!
# BrowserHost.Proofs.Timing

The timing of the loop can not be told from outside, as long as its engine
reports nothing and never fails, observers make no calls, and no shutdown gives
up.  To see this, let the queue of the session's loop be run ahead: what the
instance will then have come to is what a prompt instance has come to already,
however far the loop has got.

* `forecast`: the instance with its queue run ahead;
* `stepLoop_served`: to take a message is no news to the forecast;
* `call_meets`: a call does to the forecast what it does to a prompt instance;
* `play_forecast`: so does a schedule;
* `timing_unobservable`: two schedules of the same calls can not be told apart.
-/

namespace BrowserHost.Instance

open Engine Hub

/-! ## what may happen -/

/-- Whether the work does no harm to a recording engine. -/
def isSafe : Work → Bool
  | .load u => !Kind.recording.failsOn u
  | .view _ => true

/-- Whether a task reports nothing and does no harm. -/
def isMild : Task → Bool
  | .work w => isSafe w
  | .report _ => false
  | _ => true

/-- Whether a call blocks or releases the loop or lets time pass, and does
nothing else. -/
def Call.isTiming : Call → Bool
  | .hold | .release | .advance _ => true
  | _ => false

/-- Whether a call is one of a caller whose engines report nothing and never
fail once they are made, or one that is about timing. -/
def Call.isTame : Call → Bool
  | .start pl => pl.kind == .recording && pl.preparations.all fun
    | .report _ => false
    | .submit w => isSafe w
  | .suspend | .resume | .request _ | .hide _ | .shutdown => true
  | .hold | .release | .advance _ => true
  | .setUrl url => isSafe (.load url)
  | .dispatch w => isSafe w
  | _ => false

/-- Whether the call of a turn is tame, if it is one. -/
def Turn.isTame : Turn → Bool
  | .call c => c.isTame
  | _ => true

/-- Observers make no calls. -/
def Passive (x : Instance) : Prop :=
  ∀ o ∈ x.observers, o.reactions = []

/-! ## loops -/

/-- A loop that takes its messages whenever it gets to them. -/
structure Attending (l : Loop) : Prop where
  kind : l.kind = .recording
  ticker : l.ticker = none
  waiting : l.phase = .idle ∨ l.phase = .held
  queue : ∃ ts : List Task, (∀ t ∈ ts, isMild t) ∧
    l.queue = ts.map .run ++ if l.closed then [.stop] else []

/-- A loop that has come to its end. -/
structure Gone (l : Loop) : Prop where
  dead : l.phase.isAlive = false
  queue : l.queue = []

/-- A loop that takes its messages until it is closed. -/
def Tame (l : Loop) : Prop :=
  Attending l ∨ (l.closed ∧ Gone l)

theorem Tame.attending {l : Loop} (h : Tame l) (hc : l.closed = false) : Attending l := by
  rcases h with h | ⟨h, -⟩
  · exact h
  · simp [hc] at h

theorem Tame.attending_of_queue {l : Loop} {m : Message} {ms : List Message} (h : Tame l)
    (hq : l.queue = m :: ms) : Attending l := by
  rcases h with h | ⟨-, hg⟩
  · exact h
  · simp [hg.queue] at hq

theorem Attending.alive {l : Loop} (h : Attending l) : l.phase.isAlive := by
  rcases h.waiting with hw | hw
  · simp [hw, Phase.isAlive]
  · simp [hw, Phase.isAlive]

theorem Attending.accepts {l : Loop} (h : Attending l) (hc : l.closed = false) : l.accepts := by
  simp [Loop.accepts, hc, h.alive]

/-- An open loop takes one more task. -/
theorem Attending.push {l : Loop} {t : Task} (h : Attending l) (hc : l.closed = false)
    (ht : isMild t) : Attending (l.push t) := by
  obtain ⟨ts, hmild, hq⟩ := h.queue
  simp only [hc, Bool.false_eq_true, if_false, List.append_nil] at hq
  rw [Loop.push_eq, if_pos (h.accepts hc)]
  refine ⟨h.kind, h.ticker, h.waiting, ts ++ [t], fun u hu => ?_, ?_⟩
  · rcases List.mem_append.1 hu with hu | hu
    · exact hmild u hu
    · rw [List.mem_singleton.1 hu]
      exact ht
  · simp only [hc, Bool.false_eq_true, if_false, List.append_nil, hq, List.map_append]
    rfl

theorem Attending.close_eq {l : Loop} (h : Attending l) (hc : l.closed = false) :
    l.close = { l with closed := true, queue := l.queue ++ [.stop] } := by
  rw [Loop.close_eq]
  simp only [hc, h.alive, Bool.false_eq_true, if_false, if_true]

/-- A loop that is closed comes to its end once it has run its queue. -/
theorem Attending.close {l : Loop} (h : Attending l) (hc : l.closed = false) :
    Attending l.close := by
  obtain ⟨ts, hmild, hq⟩ := h.queue
  simp only [hc, Bool.false_eq_true, if_false, List.append_nil] at hq
  rw [h.close_eq hc]
  exact ⟨h.kind, h.ticker, h.waiting, ts, hmild, by simp only [hq, if_true]⟩

theorem Tame.gone {l : Loop} (h : Tame l) (hd : l.phase.isAlive = false) : Gone l := by
  rcases h with h | ⟨-, h⟩
  · simp [h.alive] at hd
  · exact h

/-! ## the forecast -/

/-- What the instance has come to. -/
def present (x : Instance) : Prompt where
  requested := x.machine.requested
  applied := x.machine.applied
  url := x.url
  hidden := x.hidden
  attempts := x.attempts
  engines := x.loops.map fun l => (l.engine, l.view)
  running := x.owned
  hub := x.hub
  tellings := x.tellings
  log := log x.journal

/-- What the instance will have come to once a loop has run its queue. -/
def ahead (x : Instance) (i : Nat) : Prompt :=
  match x.loop? i with
  | none => x.present
  | some l => l.queue.foldl (Prompt.run i l.engine) x.present

/-- What the instance will have come to once the loop of the session has run
its queue. -/
def forecast (x : Instance) : Prompt :=
  match x.owned with
  | none => x.present
  | some i => x.ahead i

section

variable {x y : Instance} {i : Nat} {l : Loop} {answer : Caller}

theorem ahead_eq (hl : x.loop? i = some l) :
    x.ahead i = l.queue.foldl (Prompt.run i l.engine) x.present := by
  unfold ahead
  rw [hl]

theorem engines_present (hl : x.loop? i = some l) :
    x.present.engines[i]? = some (l.engine, l.view) := by
  unfold loop? at hl
  simp only [present, List.getElem?_map, hl, Option.map_some]

/-- A loop that keeps its engine and view shows no change. -/
theorem engines_set_self (hl : x.loop? i = some l) :
    (x.loops.map fun l => (l.engine, l.view)).set i (l.engine, l.view) =
      x.loops.map fun l => (l.engine, l.view) := by
  obtain ⟨hi, he⟩ := List.getElem?_eq_some_iff.1 (engines_present hl)
  simp only [present] at hi he
  rw [← he, List.set_getElem_self]

theorem present_setLoop (hl : x.loop? i = some l) {k : Loop} (he : k.engine = l.engine)
    (hv : k.view = l.view) : (x.setLoop i k).present = x.present := by
  simp only [present, setLoop, List.map_set, he, hv, engines_set_self hl]

theorem engineOf_present (hl : x.loop? i = some l) : x.present.engineOf i = l.engine := by
  unfold Prompt.engineOf
  rw [engines_present hl]
  rfl

/-- What callers decide at once is in the forecast as it is. -/
theorem sameFront_forecast (x : Instance) : Prompt.SameFront x.present x.forecast := by
  unfold forecast
  split
  · exact ⟨rfl, rfl, rfl, rfl, rfl⟩
  · unfold ahead
    split
    · exact ⟨rfl, rfl, rfl, rfl, rfl⟩
    · exact Prompt.front_foldl _

@[simp] theorem requested_forecast (x : Instance) :
    x.forecast.requested = x.machine.requested :=
  (sameFront_forecast x).requested

@[simp] theorem url_forecast (x : Instance) : x.forecast.url = x.url :=
  (sameFront_forecast x).url

@[simp] theorem hidden_forecast (x : Instance) : x.forecast.hidden = x.hidden :=
  (sameFront_forecast x).hidden

@[simp] theorem attempts_forecast (x : Instance) : x.forecast.attempts = x.attempts :=
  (sameFront_forecast x).attempts

@[simp] theorem running_forecast (x : Instance) : x.forecast.running = x.owned :=
  (sameFront_forecast x).running

/-! ## passive observers -/

theorem deliver_passive (hp : x.Passive) (k : Nat) (n : Notice) (o : ObserverId) :
    deliver answer k n x o = x.note (.heard k o n) := by
  cases o with
  | quiet _ => rfl
  | named name =>
    have hobservers : (x.note (.heard k (.named name) n)).observers = x.observers := rfl
    simp only [deliver, choose]
    cases hr : (x.note (.heard k (.named name) n)).reactions? name with
    | none => rfl
    | some rs =>
      have hnone : rs = [] := by
        unfold reactions? at hr
        obtain ⟨q, hq, rfl⟩ := Option.map_eq_some_iff.1 hr
        exact hp q (List.mem_of_find?_eq_some hq)
      have hkept : (x.observers.map fun o =>
          if o.name = name then { o with reactions := [] } else o) = x.observers := by
        conv => rhs; rw [← List.map_id x.observers]
        refine List.map_congr_left fun o ho => ?_
        split
        · have hnone := hp o ho
          cases o
          simp_all
        · rfl
      subst hnone
      simp only [Reaction.choose, react, setReactions, hobservers, hkept]
      rfl

theorem deliverAll_passive (hp : x.Passive) (k : Nat) (n : Notice) (os : List ObserverId) :
    deliverAll answer k n x os =
      { x with journal := (os.reverse.map fun o => .heard k o n) ++ x.journal } := by
  induction os generalizing x with
  | nil => rfl
  | cons o os ih =>
    have hnote : (x.note (.heard k o n)).Passive := hp
    rw [deliverAll_cons, deliver_passive hp, ih hnote]
    simp only [note, List.reverse_cons, List.map_append, List.map_cons, List.map_nil,
      List.append_assoc, List.cons_append, List.nil_append]

/-- Who is told makes nothing of it. -/
theorem tell_passive (hp : x.Passive) (n : Notice) :
    tell answer n x =
      { x with
        tellings := x.tellings + 1
        hub := x.hub.publish n
        journal := .told x.tellings n ::
          (((x.hub.audience n).reverse.map fun o => .heard x.tellings o n) ++
            .telling x.tellings n :: x.journal) } := by
  have hannounced : (x.announce n).Passive := hp
  unfold tell
  rw [deliverAll_passive hannounced]
  rfl

/-! ## messages -/

/-- A loop whose task has returned waits again. -/
theorem restLoop_busy {z : Instance} {l' : Loop} (hz : z.loops = x.loops.set i l')
    (hi : i < x.loops.length) (hb : l'.phase = .busy) :
    z.restLoop i = { z with loops := x.loops.set i { l' with phase := .idle } } := by
  have hloop : z.loop? i = some l' := by
    unfold loop?
    rw [hz, List.getElem?_set_self hi]
  unfold restLoop
  rw [hloop]
  simp only [setLoop, Loop.rest, hb, hz, List.set_set, if_true]

/-- A loop that is blocked in its task stays so. -/
theorem restLoop_held {z : Instance} {l' : Loop} (hz : z.loops = x.loops.set i l')
    (hi : i < x.loops.length) (hb : l'.phase = .held) : z.restLoop i = z := by
  have hloop : z.loop? i = some l' := by
    unfold loop?
    rw [hz, List.getElem?_set_self hi]
  have hsame : z.loops.set i l' = z.loops := by rw [hz, List.set_set]
  unfold restLoop
  rw [hloop]
  simp only [setLoop, Loop.rest, hb, reduceCtorEq, if_false, hsame]

/-- What is left of `x` when its loop has run a mild task: it ran now as it
would have run ahead. -/
structure Performed (x : Instance) (i : Nat) (l : Loop) (t : Task) (rest : List Message)
    (y : Instance) : Prop where
  observers : y.observers = x.observers
  dispatcher : y.dispatcher = x.dispatcher
  owned : y.owned = x.owned
  loops : ∃ ph v, (ph = .idle ∨ ph = .held) ∧
    y.loops = x.loops.set i { l with phase := ph, queue := rest, view := v }
  present : y.present = x.present.run i l.engine (.run t)

theorem load_performed (answer : Caller) {u : String} (rest : List Message)
    (hl : x.loop? i = some l) (hk : l.kind = .recording) (hu : isSafe (.load u)) :
    Performed x i l (.work (.load u)) rest
      ((runTask answer (x.take i l (.work (.load u)) rest) i (.work (.load u))).restLoop i) := by
  have hi : i < x.loops.length := (List.getElem?_eq_some_iff.1 hl).1
  have hsame := engines_set_self hl
  have hsafe : Kind.recording.failsOn u = false := by simpa [isSafe] using hu
  have hrun : runTask answer (x.take i l (.work (.load u)) rest) i (.work (.load u)) =
      (x.take i l (.work (.load u)) rest).note (.loaded l.engine u) := by
    simp only [runTask, load, loop?_take hl, if_true, hk, hsafe, Kind.reports, Bool.false_eq_true,
      if_false]
  rw [hrun, restLoop_busy rfl hi rfl]
  refine ⟨rfl, rfl, rfl, ⟨.idle, l.view, .inl rfl, rfl⟩, ?_⟩
  simp only [present, Instance.take, note, setLoop, List.map_set, Prompt.run, log, hsame]

theorem view_performed (answer : Caller) (v : View) (rest : List Message)
    (hl : x.loop? i = some l) :
    Performed x i l (.work (.view v)) rest
      ((runTask answer (x.take i l (.work (.view v)) rest) i (.work (.view v))).restLoop i) := by
  have hi : i < x.loops.length := (List.getElem?_eq_some_iff.1 hl).1
  simp only [runTask]
  rw [setView_take hl, restLoop_busy rfl hi rfl]
  refine ⟨rfl, rfl, rfl, ⟨.idle, v, .inl rfl, rfl⟩, ?_⟩
  simp only [present, Instance.take, note, setLoop, List.map_set, Prompt.run, log]

/-- A lifecycle task is news only once. -/
theorem lifecycle_performed (answer : Caller) (s : State) (rest : List Message) (hp : x.Passive)
    (hl : x.loop? i = some l) :
    Performed x i l (.lifecycle s) rest
      ((runTask answer (x.take i l (.lifecycle s) rest) i (.lifecycle s)).restLoop i) := by
  have hi : i < x.loops.length := (List.getElem?_eq_some_iff.1 hl).1
  have hmachine : (x.take i l (.lifecycle s) rest).machine = x.machine := rfl
  have hhidden : (x.take i l (.lifecycle s) rest).hidden = x.hidden := rfl
  simp only [runTask, hhidden]
  rw [setView_take hl]
  unfold confirm Machine.confirm
  by_cases hs : x.machine.applied = s
  · simp only [hmachine, if_pos hs, Bool.false_eq_true, if_false]
    rw [restLoop_busy rfl hi rfl]
    refine ⟨rfl, rfl, rfl, ⟨.idle, View.of s x.hidden, .inl rfl, rfl⟩, ?_⟩
    simp only [present, Instance.take, note, setLoop, List.map_set, Prompt.run, log, hs, if_true,
      View.of]
  · simp only [hmachine, if_neg hs, if_true]
    rw [tell_passive (by exact hp), restLoop_busy rfl hi rfl]
    refine ⟨rfl, rfl, rfl, ⟨.idle, View.of s x.hidden, .inl rfl, rfl⟩, ?_⟩
    simp only [present, Instance.take, note, setLoop, List.map_set, Prompt.run, Prompt.tell, log,
      log_heard, hs, if_false, View.of]

theorem visibility_performed (answer : Caller) (h : Bool) (rest : List Message) (hp : x.Passive)
    (hl : x.loop? i = some l) :
    Performed x i l (.visibility h) rest
      ((runTask answer (x.take i l (.visibility h) rest) i (.visibility h)).restLoop i) := by
  have hi : i < x.loops.length := (List.getElem?_eq_some_iff.1 hl).1
  have hmachine : (x.take i l (.visibility h) rest).machine = x.machine := rfl
  simp only [runTask, hmachine]
  rw [setView_take hl, tell_passive (by exact hp), restLoop_busy rfl hi rfl]
  refine ⟨rfl, rfl, rfl, ⟨.idle, View.of x.machine.applied h, .inl rfl, rfl⟩, ?_⟩
  simp only [present, Instance.take, note, setLoop, List.map_set, Prompt.run, Prompt.tell, log,
    log_heard]

/-- A loop that blocks goes on where it was. -/
theorem block_performed (answer : Caller) (rest : List Message) (hl : x.loop? i = some l) :
    Performed x i l .block rest
      ((runTask answer (x.take i l .block rest) i .block).restLoop i) := by
  have hi : i < x.loops.length := (List.getElem?_eq_some_iff.1 hl).1
  have hsame := engines_set_self hl
  have hblock : runTask answer (x.take i l .block rest) i .block =
      { x.take i l .block rest with
        loops := x.loops.set i { l with phase := .held, queue := rest } } := by
    simp only [runTask, block, loop?_take hl, if_true]
    simp only [Instance.take, setLoop, note, List.set_set]
  rw [hblock, restLoop_held rfl hi rfl]
  refine ⟨rfl, rfl, rfl, ⟨.held, l.view, .inr rfl, rfl⟩, ?_⟩
  simp only [present, Instance.take, note, setLoop, List.map_set, Prompt.run, log, hsame]

theorem task_performed (answer : Caller) {t : Task} (rest : List Message) (hp : x.Passive)
    (hl : x.loop? i = some l) (hk : l.kind = .recording) (ht : isMild t) :
    Performed x i l t rest ((runTask answer (x.take i l t rest) i t).restLoop i) := by
  cases t with
  | work w =>
    cases w with
    | load u => exact load_performed answer rest hl hk ht
    | view v => exact view_performed answer v rest hl
  | lifecycle s => exact lifecycle_performed answer s rest hp hl
  | visibility h => exact visibility_performed answer h rest hp hl
  | report r => simp [isMild] at ht
  | block => exact block_performed answer rest hl

/-- The loop of that index is tame, and closed or not as told. -/
def TameAt (x : Instance) (i : Nat) (closed : Bool) : Prop :=
  ∃ l, x.loop? i = some l ∧ l.closed = closed ∧ Tame l

/-- Between `x` and `y` nothing has happened but that the loop took
messages. -/
structure Served (i : Nat) (closed : Bool) (x y : Instance) : Prop where
  observers : y.observers = x.observers
  dispatcher : y.dispatcher = x.dispatcher
  owned : y.owned = x.owned
  others : ∀ j, j ≠ i → y.loop? j = x.loop? j
  loop : y.TameAt i closed
  ahead : y.ahead i = x.ahead i

theorem Served.refl {c : Bool} (h : x.TameAt i c) : Served i c x x :=
  ⟨rfl, rfl, rfl, fun _ _ => rfl, h, rfl⟩

theorem Served.trans {z : Instance} {c : Bool} (h : Served i c x y) (h' : Served i c y z) :
    Served i c x z where
  observers := h'.observers.trans h.observers
  dispatcher := h'.dispatcher.trans h.dispatcher
  owned := h'.owned.trans h.owned
  others j hj := (h'.others j hj).trans (h.others j hj)
  loop := h'.loop
  ahead := h'.ahead.trans h.ahead

theorem Served.passive {c : Bool} (h : Served i c x y) (hp : x.Passive) : y.Passive := by
  unfold Passive
  rw [h.observers]
  exact hp

/-- A loop that stops has run its queue. -/
theorem endLoop_served (hl : x.loop? i = some l) (hc : l.closed) (hq : l.queue = [.stop]) :
    Served i l.closed x (x.endLoop i .stopped) := by
  have hend : x.endLoop i .stopped =
      (x.setLoop i (l.finish .stopped)).note (.dropped l.engine) := by
    unfold endLoop
    rw [hl]
  have hloop (j : Nat) : (x.endLoop i .stopped).loop? j =
      if i = j then some (l.finish .stopped) else x.loop? j := by
    rw [hend]
    exact loop?_setLoop hl _ j
  have hsame := engines_set_self hl
  constructor
  · rw [hend]
    rfl
  · rw [hend]
    rfl
  · rw [hend]
    rfl
  · intro j hj
    rw [hloop, if_neg hj.symm]
  · have hself := hloop i
    rw [if_pos rfl] at hself
    exact ⟨_, hself, rfl, .inr ⟨hc, rfl, rfl⟩⟩
  · rw [ahead_eq hl, hq, ahead_eq (by rw [hloop, if_pos rfl])]
    simp only [Loop.finish, List.foldl_cons, List.foldl_nil, Prompt.run]
    rw [hend]
    simp only [present, note, setLoop, Loop.finish, List.map_set, log, hsame]

/-- To take a message is no news to the forecast. -/
theorem stepLoop_served {c : Bool} (hp : x.Passive) (ht : x.TameAt i c)
    (hstep : stepLoop answer x i = some y) : Served i c x y := by
  obtain ⟨l, hl, rfl, ht⟩ := ht
  unfold stepLoop at hstep
  simp only [hl] at hstep
  split at hstep
  · next rest hidle hq =>
    obtain rfl := Option.some.inj hstep
    have ha := ht.attending_of_queue hq
    obtain ⟨ts, -, hts⟩ := ha.queue
    rw [hq] at hts
    -- the stop stands at the end
    cases ts with
    | cons t ts => simp at hts
    | nil =>
      cases hc : l.closed with
      | false => simp [hc] at hts
      | true =>
        simp only [hc, List.map_nil, List.nil_append, if_true, List.cons.injEq, true_and] at hts
        have hserved := endLoop_served hl hc (by rw [hq, hts])
        rwa [hc] at hserved
  · next t rest hidle hq =>
    have ha := ht.attending_of_queue hq
    obtain ⟨ts, hmild, hts⟩ := ha.queue
    rw [hq] at hts
    cases ts with
    | nil => split at hts <;> simp at hts
    | cons t' ts =>
      simp only [List.map_cons, List.cons_append, List.cons.injEq, Message.run.injEq] at hts
      obtain ⟨rfl, hrest⟩ := hts
      have hdone := task_performed answer rest hp hl ha.kind (hmild t List.mem_cons_self)
      obtain ⟨ph, v, hph, hloops⟩ := hdone.loops
      have hi : i < x.loops.length := (List.getElem?_eq_some_iff.1 hl).1
      have hy : (runTask answer (x.take i l t rest) i t).restLoop i = y := Option.some.inj hstep
      rw [hy] at hdone hloops
      have hloop : y.loop? i = some { l with phase := ph, queue := rest, view := v } := by
        unfold loop?
        rw [hloops, List.getElem?_set_self hi]
      refine ⟨hdone.observers, hdone.dispatcher, hdone.owned, fun j hj => ?_, ?_, ?_⟩
      · unfold loop?
        rw [hloops, List.getElem?_set_ne hj.symm]
      · exact ⟨_, hloop, rfl, .inl ⟨ha.kind, ha.ticker, hph,
          ts, fun t ht => hmild t (List.mem_cons_of_mem _ ht), hrest⟩⟩
      · rw [ahead_eq hl, hq, ahead_eq hloop, hdone.present]
        rfl
  · simp at hstep

theorem drainLoop_served {c : Bool} (n : Nat) (hp : x.Passive) (ht : x.TameAt i c) :
    Served i c x (drainLoop answer i n x) := by
  induction n generalizing x with
  | zero => exact .refl ht
  | succ n ih =>
    unfold drainLoop
    cases hstep : stepLoop answer x i with
    | none => exact .refl ht
    | some y =>
      have hfirst := stepLoop_served hp ht hstep
      exact hfirst.trans (ih (hfirst.passive hp) hfirst.loop)

theorem drain_served (answer : Caller) {c : Bool} (hp : x.Passive) (ht : x.TameAt i c) :
    Served i c x (drain answer i x) :=
  drainLoop_served _ hp ht

/-! ## sound instances -/

/-- Every loop but that of the session has come to its end, and that one takes
its messages. -/
structure Sound (x : Instance) : Prop where
  passive : x.Passive
  driven : x.dispatcher = x.owned
  safe : isSafe (.load x.url)
  gone : ∀ j l, x.owned ≠ some j → x.loop? j = some l → Gone l
  tame : ∀ i, x.owned = some i → x.TameAt i false

theorem forecast_of_owned (h : x.owned = some i) : x.forecast = x.ahead i := by
  unfold forecast
  rw [h]

theorem forecast_of_unowned (h : x.owned = none) : x.forecast = x.present := by
  unfold forecast
  rw [h]

/-- To take messages is no news to the forecast. -/
theorem Served.sound (h : Served i false x y) (hs : Sound x) (ho : x.owned = some i) :
    Sound y ∧ y.forecast = x.forecast := by
  have hforecast : y.forecast = x.forecast := by
    rw [forecast_of_owned ho, forecast_of_owned (h.owned.trans ho), h.ahead]
  have hurl : y.url = x.url := by rw [← url_forecast, hforecast, url_forecast]
  refine ⟨⟨h.passive hs.passive, ?_, ?_, fun j l hj hl => ?_, fun j hj => ?_⟩, hforecast⟩
  · rw [h.dispatcher, h.owned, hs.driven]
  · rw [hurl]
    exact hs.safe
  · rw [h.owned] at hj
    have hij : j ≠ i := by
      rintro rfl
      exact hj ho
    exact hs.gone j l hj (h.others j hij ▸ hl)
  · rw [h.owned, ho] at hj
    obtain rfl := Option.some.inj hj
    exact h.loop

/-! ## turns of loops -/

/-- The instance is sound still, and its forecast the same. -/
def Quiet (x y : Instance) : Prop :=
  Sound y ∧ y.forecast = x.forecast

theorem Gone.not_waiting (h : Gone l) : l.phase ≠ .idle ∧ l.phase ≠ .held := by
  have hd := h.dead
  constructor
  · intro hp
    simp [hp, Phase.isAlive] at hd
  · intro hp
    simp [hp, Phase.isAlive] at hd

/-- Whether a waiting loop is blocked is no news to the forecast. -/
theorem setPhase_quiet (hs : Sound x) (ho : x.owned = some i) (hl : x.loop? i = some l)
    {ph : Phase} (hph : ph = .idle ∨ ph = .held) :
    Quiet x (x.setLoop i { l with phase := ph }) := by
  have hloop (j : Nat) : (x.setLoop i { l with phase := ph }).loop? j =
      if i = j then some { l with phase := ph } else x.loop? j := loop?_setLoop hl _ j
  obtain ⟨l', hl', hc, ht⟩ := hs.tame i ho
  obtain rfl := Option.some.inj (hl.symm.trans hl')
  have ha := ht.attending hc
  have hserved : Served i false x (x.setLoop i { l with phase := ph }) := by
    refine ⟨rfl, rfl, rfl, fun j hj => ?_, ?_, ?_⟩
    · rw [hloop, if_neg hj.symm]
    · have hself := hloop i
      rw [if_pos rfl] at hself
      exact ⟨_, hself, hc, .inl ⟨ha.kind, ha.ticker, hph, ha.queue⟩⟩
    · have hpresent : (x.setLoop i { l with phase := ph }).present = x.present :=
        present_setLoop hl rfl rfl
      rw [ahead_eq hl, ahead_eq (by rw [hloop, if_pos rfl]), hpresent]
  exact hserved.sound hs ho

theorem message_quiet (hs : Sound x) (i : Nat) : Quiet x (x.turn (.message i)) := by
  simp only [turn]
  cases hstep : stepLoop call x i with
  | none => exact ⟨hs, rfl⟩
  | some y =>
    by_cases ho : x.owned = some i
    · exact (stepLoop_served hs.passive (hs.tame i ho) hstep).sound hs ho
    · -- the other loops have come to their end
      unfold stepLoop at hstep
      cases hl : x.loop? i with
      | none => simp [hl] at hstep
      | some l =>
        have hidle := (hs.gone i l ho hl).not_waiting.1
        simp only [hl] at hstep
        split at hstep
        · next h _ => exact absurd h hidle
        · next h _ => exact absurd h hidle
        · simp at hstep

theorem tick_quiet (hs : Sound x) (i : Nat) : Quiet x (x.tickLoop i) := by
  unfold tickLoop
  cases hl : x.loop? i with
  | none => exact ⟨hs, rfl⟩
  | some l =>
    have htick : l.tick x.now = (0, l) := by
      unfold Loop.tick
      by_cases ho : x.owned = some i
      · obtain ⟨l', hl', hc, ht⟩ := hs.tame i ho
        obtain rfl := Option.some.inj (hl.symm.trans hl')
        rw [(ht.attending hc).ticker]
        split
        · next h => simp at h
        · rfl
      · have hidle := (hs.gone i l ho hl).not_waiting.1
        split
        · next h _ => exact absurd h hidle
        · rfl
    have hsame : framesDisplayed 0 (x.setLoop i l) = x := setLoop_self hl
    simp only [htick, hsame]
    exact ⟨hs, rfl⟩

theorem stall_quiet (hs : Sound x) (i : Nat) : Quiet x (x.stall i) := by
  unfold stall
  cases hl : x.loop? i with
  | none => exact ⟨hs, rfl⟩
  | some l =>
    simp only
    by_cases hidle : l.phase = .idle
    · rw [if_pos hidle]
      have ho : x.owned = some i := by
        by_contra ho
        exact (hs.gone i l ho hl).not_waiting.1 hidle
      exact setPhase_quiet hs ho hl (.inr rfl)
    · rw [if_neg hidle]
      exact ⟨hs, rfl⟩

theorem unblock_quiet (hs : Sound x) (i : Nat) : Quiet x (x.unblock i) := by
  unfold unblock
  cases hl : x.loop? i with
  | none => exact ⟨hs, rfl⟩
  | some l =>
    simp only
    by_cases hheld : l.phase = .held
    · rw [if_pos hheld]
      have ho : x.owned = some i := by
        by_contra ho
        exact (hs.gone i l ho hl).not_waiting.2 hheld
      exact setPhase_quiet hs ho hl (.inl rfl)
    · rw [if_neg hheld]
      exact ⟨hs, rfl⟩

/-! ## submissions -/

/-- The engine of the session has the number that it had. -/
theorem engineOf_forecast (ho : x.owned = some i) (hl : x.loop? i = some l) :
    x.forecast.engineOf i = l.engine := by
  rw [forecast_of_owned ho, ahead_eq hl]
  exact Prompt.engineOf_foldl (engineOf_present hl) _

/-- The loop of the session takes a mild task, and will have run it. -/
theorem submitTo_sound (hs : Sound x) (ho : x.owned = some i) {t : Task} (ht : isMild t) :
    (x.submitTo i t).1 = true ∧ Sound (x.submitTo i t).2 ∧
      (x.submitTo i t).2.forecast =
        x.forecast.run i (x.forecast.engineOf i) (.run t) := by
  obtain ⟨l, hl, hc, htame⟩ := hs.tame i ho
  have ha := htame.attending hc
  have hpush : l.push t = { l with queue := l.queue ++ [.run t] } := by
    rw [Loop.push_eq, if_pos (ha.accepts hc)]
  have hsubmit : x.submitTo i t = (true, (x.setLoop i (l.push t)).note (.queued l.engine t)) := by
    simp only [submitTo_eq, hl, ha.accepts hc, if_true]
  rw [hsubmit]
  have hloop (j : Nat) : ((x.setLoop i (l.push t)).note (.queued l.engine t)).loop? j =
      if i = j then some (l.push t) else x.loop? j := loop?_setLoop hl _ j
  have hself := hloop i
  rw [if_pos rfl] at hself
  refine ⟨rfl, ⟨hs.passive, hs.driven, hs.safe, fun j k hj hk => ?_, fun j hj => ?_⟩, ?_⟩
  · have hij : i ≠ j := by
      rintro rfl
      exact hj ho
    rw [hloop, if_neg hij] at hk
    exact hs.gone j k hj hk
  · obtain rfl : i = j := Option.some.inj (ho.symm.trans hj)
    exact ⟨_, hself, by rw [hpush]; exact hc, .inl (ha.push hc ht)⟩
  · have hpresent : ((x.setLoop i (l.push t)).note (.queued l.engine t)).present = x.present :=
      present_setLoop hl (by rw [hpush]) (by rw [hpush])
    rw [forecast_of_owned (by exact ho), ahead_eq hself, engineOf_forecast ho hl,
      forecast_of_owned ho, ahead_eq hl, hpresent, hpush]
    simp only [List.foldl_append, List.foldl_cons, List.foldl_nil]

theorem submit_sound (hs : Sound x) {t : Task} (ht : isMild t) :
    (x.submit t).1 = x.owned.isSome ∧ Sound (x.submit t).2 ∧
      (x.submit t).2.forecast = x.forecast.submit t := by
  unfold submit Prompt.submit
  rw [hs.driven, running_forecast]
  cases ho : x.owned with
  | none => exact ⟨rfl, hs, rfl⟩
  | some i => exact submitTo_sound hs ho ht

theorem hold_quiet (hs : Sound x) : Quiet x (hold answer x).2 := by
  unfold hold
  rw [hs.driven]
  cases x.holding with
  | some j => exact ⟨hs, rfl⟩
  | none =>
    cases ho : x.owned with
    | none => exact ⟨hs, rfl⟩
    | some i =>
      obtain ⟨haccepted, hsound, hforecast⟩ := submitTo_sound hs ho (t := .block) rfl
      have howned : (x.submitTo i .block).2.owned = some i := by
        rw [← running_forecast, hforecast, ← ho, ← running_forecast]
        rfl
      simp only
      cases hy : x.submitTo i .block with
      | mk b y =>
        rw [hy] at haccepted hsound hforecast howned
        obtain rfl : b = true := haccepted
        have hserved := drain_served answer hsound.passive (hsound.tame i howned)
        obtain ⟨hd, hsame⟩ := hserved.sound hsound howned
        exact ⟨⟨hd.passive, hd.driven, hd.safe, hd.gone, hd.tame⟩, hsame.trans hforecast⟩

theorem release_quiet (hs : Sound x) : Quiet x x.release.2 := by
  unfold release
  cases x.holding with
  | none => exact ⟨hs, rfl⟩
  | some i =>
    have hfree : Sound { x with holding := none } :=
      ⟨hs.passive, hs.driven, hs.safe, hs.gone, hs.tame⟩
    exact unblock_quiet hfree i

/-! ## calls -/

/-- A call has given what it gives on a prompt instance. -/
def Meets (r : Reply × Instance) (q : Reply × Prompt) : Prop :=
  r.1 = q.1 ∧ Sound r.2 ∧ r.2.forecast = q.2

/-- What callers decide at once is decided at once in the forecast too. -/
theorem forecast_front {r : State} {u : String} {a : Nat} (ho : y.owned = x.owned)
    (hl : y.loops = x.loops)
    (hp : y.present = { x.present with requested := r, url := u, attempts := a }) :
    y.forecast = { x.forecast with requested := r, url := u, attempts := a } := by
  unfold forecast
  rw [ho]
  cases x.owned with
  | none => exact hp
  | some i =>
    have hloop : y.loop? i = x.loop? i := by
      unfold loop?
      rw [hl]
    simp only [ahead, hloop]
    cases x.loop? i with
    | none => exact hp
    | some l =>
      simp only
      have hfront := @Prompt.foldl_front i l.engine x.present l.queue r u a x.present.running
      rw [hp]
      exact hfront.trans (by rw [(Prompt.front_foldl l.queue).running])

theorem request_meets (hs : Sound x) (c : Command) :
    Meets (x.request c) (x.forecast.request c) := by
  unfold request Prompt.request Machine.request
  rw [requested_forecast]
  cases x.machine.requested.transition c with
  | error e => exact ⟨rfl, hs, rfl⟩
  | ok t =>
    have hgranted : Sound ({ x with machine := { x.machine with requested := t.next } }.note
        (.requested c t.next)) := ⟨hs.passive, hs.driven, hs.safe, hs.gone, hs.tame⟩
    have hforecast : ({ x with machine := { x.machine with requested := t.next } }.note
        (.requested c t.next)).forecast = { x.forecast with requested := t.next } := by
      have hfront := forecast_front (x := x)
        (y := { x with machine := { x.machine with requested := t.next } }.note
          (.requested c t.next)) (r := t.next) (u := x.url) (a := x.attempts) rfl rfl rfl
      rw [hfront, ← url_forecast, ← attempts_forecast]
    simp only
    by_cases hdispatch : t.dispatch
    · simp only [hdispatch, if_true]
      obtain ⟨-, hsound, hqueued⟩ := submit_sound hgranted (t := .lifecycle t.next) rfl
      refine ⟨rfl, hsound, ?_⟩
      rw [hqueued, hforecast]
    · simp only [hdispatch, if_false, Bool.false_eq_true]
      exact ⟨rfl, hgranted, hforecast⟩

theorem setUrl_meets (hs : Sound x) {url : String} (hsafe : isSafe (.load url)) :
    Sound (x.setUrl url) ∧ (x.setUrl url).forecast =
      { x.forecast with url := url }.submit (.work (.load url)) := by
  have hnamed : Sound ({ x with url := url }.note (.navigated url)) :=
    ⟨hs.passive, hs.driven, hsafe, hs.gone, hs.tame⟩
  have hforecast : ({ x with url := url }.note (.navigated url)).forecast =
      { x.forecast with url := url } := by
    have hfront := forecast_front (x := x) (y := { x with url := url }.note (.navigated url))
      (r := x.machine.requested) (u := url) (a := x.attempts) rfl rfl rfl
    rw [hfront, ← requested_forecast, ← attempts_forecast]
  obtain ⟨-, hsound, hqueued⟩ := submit_sound hnamed (t := .work (.load url)) hsafe
  exact ⟨hsound, hqueued.trans (by rw [hforecast])⟩

/-- A change of visibility runs after all lifecycle tasks that may have read
the flag. -/
theorem hide_meets (hs : Sound x) (hidden : Bool) :
    Sound (x.hide hidden) ∧ (x.hide hidden).forecast = x.forecast.hide hidden := by
  have hsame : (x.forecast.running.isNone || x.forecast.hidden == hidden) =
      (x.dispatcher.isNone || x.hidden == hidden) := by
    rw [hs.driven, hidden_forecast, running_forecast]
  unfold hide Prompt.hide
  rw [hsame]
  by_cases hskip : (x.dispatcher.isNone || x.hidden == hidden) = true
  · rw [if_pos hskip, if_pos hskip]
    exact ⟨hs, rfl⟩
  · rw [if_neg hskip, if_neg hskip]
    obtain ⟨i, ho⟩ : ∃ i, x.owned = some i := by
      cases ho : x.owned with
      | none => simp [hs.driven, ho] at hskip
      | some i => exact ⟨i, rfl⟩
    have hflipped : Sound ({ x with hidden := hidden }.note (.flipped hidden)) :=
      ⟨hs.passive, hs.driven, hs.safe, hs.gone, hs.tame⟩
    obtain ⟨-, hsound, hqueued⟩ := submit_sound hflipped (t := .visibility hidden) rfl
    refine ⟨hsound, hqueued.trans ?_⟩
    obtain ⟨l, hl, -, -⟩ := hs.tame i ho
    have hself : x.present.engines.set i (l.engine, l.view) = x.present.engines :=
      engines_set_self hl
    have hpresent : ({ x with hidden := hidden }.note (.flipped hidden)).present =
        { x.present with
          hidden := hidden, engines := x.present.engines.set i (l.engine, l.view) } := by
      rw [hself]
      rfl
    obtain ⟨w, hw⟩ := @Prompt.foldl_hidden i l.engine x.present hidden l.view l.queue
    have hforecast : ({ x with hidden := hidden }.note (.flipped hidden)).forecast =
        { x.forecast with
          hidden := hidden, engines := x.forecast.engines.set i (l.engine, w) } := by
      have hloop : ({ x with hidden := hidden }.note (.flipped hidden)).loop? i = some l := hl
      have howned : ({ x with hidden := hidden }.note (.flipped hidden)).owned = some i := ho
      rw [forecast_of_owned howned, ahead_eq hloop, hpresent, hw, forecast_of_owned ho,
        ahead_eq hl]
    have hengine := engineOf_forecast ho hl
    have hrunning : x.forecast.running = some i := (running_forecast x).trans ho
    rw [hforecast, Prompt.submit_eq (by exact hrunning) (Prompt.engineOf_set hengine rfl),
      Prompt.run_visibility, Prompt.submit_eq (by exact hrunning) (by exact hengine)]

/-- What a session that is given up has yet to run. -/
theorem giveUp_tame (hs : Sound x) (ho : x.owned = some i) :
    (x.giveUp i).TameAt i true ∧ (x.giveUp i).owned = none ∧ (x.giveUp i).dispatcher = none ∧
      (x.giveUp i).observers = x.observers ∧
      (∀ j, j ≠ i → (x.giveUp i).loop? j = x.loop? j) ∧
      (x.giveUp i).ahead i = x.forecast.shutdown := by
  obtain ⟨l, hl, hc, htame⟩ := hs.tame i ho
  have ha := htame.attending hc
  have hclose := ha.close_eq hc
  have hl' : ({ x with owned := none, dispatcher := none, frames := {} }.note
      (.ended (x.engineOf i))).loop? i = some l := hl
  have hgive : x.giveUp i =
      ({ x with owned := none, dispatcher := none, frames := {} }.note
        (.ended (x.engineOf i))).setLoop i l.close := by
    unfold giveUp closeLoop
    rw [hl']
  rw [hgive]
  have hloop (j : Nat) := loop?_setLoop hl' l.close j
  have hself := hloop i
  rw [if_pos rfl] at hself
  refine ⟨⟨_, hself, by rw [hclose], .inl (ha.close hc)⟩, rfl, rfl, rfl,
    fun j hj => (hloop j).trans (if_neg hj.symm), ?_⟩
  have hfront := @Prompt.foldl_front i l.engine x.present l.queue
    x.present.requested x.present.url x.present.attempts none
  have hsame := @Prompt.front_foldl i l.engine x.present l.queue
  have hrunning : x.forecast.running = some i := (running_forecast x).trans ho
  have hpresent : (({ x with owned := none, dispatcher := none, frames := {} }.note
      (.ended (x.engineOf i))).setLoop i l.close).present = { x.present with running := none } :=
    present_setLoop hl' (by rw [hclose]) (by rw [hclose])
  unfold Prompt.shutdown
  rw [hrunning]
  simp only [engineOf_forecast ho hl]
  rw [ahead_eq hself, hpresent, hclose, forecast_of_owned ho, ahead_eq hl]
  simp only [List.foldl_append, List.foldl_cons, List.foldl_nil]
  rw [hfront, ← hsame.requested, ← hsame.url, ← hsame.attempts]

/-- A shutdown that does not give up is over when all tasks have run. -/
theorem shutdown_meets (hs : Sound x)
    (hstop : ∀ i l, x.owned = some i → (shutdown answer x).2.loop? i = some l →
      l.phase.isAlive = false) :
    Sound (shutdown answer x).2 ∧ (shutdown answer x).2.forecast = x.forecast.shutdown := by
  cases ho : x.owned with
  | none =>
    unfold shutdown Prompt.shutdown
    rw [running_forecast, ho]
    exact ⟨hs, rfl⟩
  | some i =>
    have hshutdown : (shutdown answer x).2 = drain answer i (x.giveUp i) := by
      unfold shutdown
      rw [ho]
      simp only [stopLoop_snd]
      rfl
    obtain ⟨htame, howned, hdispatcher, hobservers, hothers, hahead⟩ := giveUp_tame hs ho
    have hpassive : (x.giveUp i).Passive := by
      unfold Passive
      rw [hobservers]
      exact hs.passive
    have hserved := drain_served answer hpassive htame
    rw [← hshutdown] at hserved
    generalize (shutdown answer x).2 = z at hserved hstop
    obtain ⟨l, hl, -, hend⟩ := hserved.loop
    have hgone := hend.gone (hstop i l ho hl)
    have hfree : z.owned = none := hserved.owned.trans howned
    have hpresent : z.present = x.forecast.shutdown := by
      rw [← hahead, ← hserved.ahead, ahead_eq hl, hgone.queue]
      rfl
    have hurl : z.url = x.url := by
      rw [← url_forecast z, forecast_of_unowned hfree, hpresent, Prompt.url_shutdown, url_forecast]
    refine ⟨⟨hserved.passive hpassive, ?_, hurl ▸ hs.safe, fun j k _ hk => ?_, ?_⟩, ?_⟩
    · rw [hserved.dispatcher, hdispatcher, hfree]
    · by_cases hji : j = i
      · subst hji
        rw [← Option.some.inj (hl.symm.trans hk)]
        exact hgone
      · have hne : x.owned ≠ some j := by
          rw [ho]
          exact fun h => hji (Option.some.inj h).symm
        rw [hserved.others j hji, hothers j hji] at hk
        exact hs.gone j k hne hk
    · intro j hj
      simp [hfree] at hj
    · rw [forecast_of_unowned hfree, hpresent]

/-! ## starts -/

theorem loop?_last {ls : List Loop} (hloops : x.loops = ls ++ [l]) :
    x.loop? ls.length = some l := by
  unfold loop?
  rw [hloops, List.getElem?_concat_length]

theorem setLoop_last {ls : List Loop} (hloops : x.loops = ls ++ [l]) (k : Loop) :
    x.setLoop ls.length k = { x with loops := ls ++ [k] } := by
  unfold setLoop
  rw [hloops, List.set_append_right _ _ (Nat.le_refl _), Nat.sub_self]
  rfl

/-- The newest loop takes a task. -/
theorem submitTo_last {ls : List Loop} (hloops : x.loops = ls ++ [l]) (ha : l.accepts) (t : Task) :
    x.submitTo ls.length t =
      (true, { x with
        loops := ls ++ [{ l with queue := l.queue ++ [.run t] }]
        journal := .queued l.engine t :: x.journal }) := by
  rw [submitTo_eq, loop?_last hloops]
  simp only [ha, if_true, Loop.push_eq]
  rw [setLoop_last hloops]
  rfl

/-- The maker of an engine that reports nothing leaves work in the queue. -/
theorem preparations_eq (answer : Caller) {qs : List Preparation} {ls : List Loop} (e : Nat)
    (hqs : qs.all fun | .report _ => false | .submit w => isSafe w)
    (hloops : x.loops = ls ++ [l]) (ha : l.accepts) :
    ∃ j, log j = log x.journal ∧
      qs.foldl (prepare answer ls.length e) x =
        { x with
          loops := ls ++ [{ l with queue := l.queue ++ (Prompt.works qs).map Message.run }]
          journal := j } := by
  induction qs generalizing x l with
  | nil =>
    refine ⟨x.journal, rfl, ?_⟩
    simp only [List.foldl_nil, Prompt.works, List.map_nil, List.append_nil]
    rw [← hloops]
  | cons q qs ih =>
    simp only [List.all_cons, Bool.and_eq_true] at hqs
    cases q with
    | report r => simp at hqs
    | submit w =>
      simp only [List.foldl_cons, prepare]
      rw [submitTo_last hloops ha]
      obtain ⟨j, hj, hrest⟩ := ih
        (x := { x with
          loops := ls ++ [{ l with queue := l.queue ++ [Message.run (.work w)] }]
          journal := .queued l.engine (.work w) :: x.journal }.note (.submitted e true))
        (l := { l with queue := l.queue ++ [.run (.work w)] }) hqs.2 rfl ha
      refine ⟨j, hj, hrest.trans ?_⟩
      simp only [note, Prompt.works, List.map_cons, List.append_assoc, List.cons_append,
        List.nil_append]

theorem isMild_works {qs : List Preparation}
    (hqs : qs.all fun | .report _ => false | .submit w => isSafe w) :
    ∀ t ∈ Prompt.works qs, isMild t := by
  induction qs with
  | nil => simp [Prompt.works]
  | cons q qs ih =>
    simp only [List.all_cons, Bool.and_eq_true] at hqs
    cases q with
    | report r => simp at hqs
    | submit w =>
      intro t ht
      rcases List.mem_cons.1 ht with rfl | ht
      · exact hqs.1
      · exact ih hqs.2 t ht

theorem isMild_opening {qs : List Preparation} {url : String} (s : State)
    (hqs : qs.all fun | .report _ => false | .submit w => isSafe w) (hurl : isSafe (.load url)) :
    ∀ t ∈ Prompt.opening qs url s, isMild t := by
  intro t ht
  rcases List.mem_append.1 ht with ht | ht
  · exact isMild_works hqs t ht
  · simp only [List.mem_cons, List.not_mem_nil, or_false] at ht
    rcases ht with rfl | rfl
    · exact hurl
    · rfl

/-- A loop besides those there were is the new one. -/
theorem loop?_concat {ls : List Loop} (hloops : y.loops = ls ++ [l]) {j : Nat} {k : Loop}
    (hk : y.loop? j = some k) : ls[j]? = some k ∨ (j = ls.length ∧ k = l) := by
  unfold loop? at hk
  rw [hloops, List.getElem?_append] at hk
  split at hk
  · exact .inl hk
  · by_cases hj : j = ls.length
    · subst hj
      simp only [Nat.sub_self, List.getElem?_cons_zero, Option.some.injEq] at hk
      exact .inr ⟨rfl, hk.symm⟩
    · rw [List.getElem?_eq_none (by simp; omega)] at hk
      simp at hk

/-- The new loop, as its maker leaves it. -/
theorem prepared_eq (answer : Caller) (x : Instance) {pl : Plan}
    (hpl : (Call.start pl).isTame) :
    ∃ j, log j = log x.journal ∧
      x.prepared answer pl =
        { x with
          attempts := x.attempts + 1
          loops := x.loops ++ [{
            engine := x.attempts + 1
            kind := .recording
            queue := (Prompt.works pl.preparations).map Message.run }]
          journal := j } := by
  simp only [Call.isTame, Bool.and_eq_true, beq_iff_eq] at hpl
  obtain ⟨hkind, hqs⟩ := hpl
  have hopened : (x.openLoop pl.kind).loops =
      x.loops ++ [{ engine := x.attempts + 1, kind := .recording }] := by
    rw [hkind]
    rfl
  obtain ⟨j, hj, heq⟩ := preparations_eq answer (x.attempts + 1) hqs hopened rfl
  exact ⟨j, hj, heq⟩

/-- A session begins with the URL and the state that were asked for. -/
theorem begin_last {ls : List Loop} (hloops : x.loops = ls ++ [l]) (ha : l.accepts) (e : Nat) :
    x.begin ls.length e =
      { x with
        machine := x.machine.begin.2
        frames := {}
        loops := ls ++ [{ l with
          queue := l.queue ++ [.run (.work (.load x.url)), .run (.lifecycle x.machine.begin.1)] }]
        dispatcher := some ls.length
        owned := some ls.length
        sessions := x.sessions ++ [ls.length]
        journal := .queued l.engine (.lifecycle x.machine.begin.1) ::
          .queued l.engine (.work (.load x.url)) :: .began e x.machine.begin.1 :: x.journal } := by
  have hfirst := submitTo_last (x := { x with machine := x.machine.begin.2, frames := {} }.note
    (.began e x.machine.begin.1)) hloops ha (.work (.load x.url))
  unfold begin
  simp only [note] at hfirst ⊢
  rw [hfirst]
  simp only
  rw [submitTo_last rfl (by exact ha)]
  simp only [List.append_assoc, List.cons_append, List.nil_append]

/-- A start whose engine is not made leaves nothing behind but a loop that has
come to its end. -/
theorem start_refused (hs : Sound x) (hfree : x.owned = none) {j : List Entry}
    (hj : log j = log x.journal) {n : Nat} (hy : y = { x with
      attempts := n
      loops := x.loops ++ [l.finish .refused]
      journal := j }) :
    Sound y ∧ y.forecast = { x.present with
      attempts := n
      engines := x.present.engines ++ [(l.engine, l.view)] } := by
  subst hy
  refine ⟨⟨hs.passive, hs.driven, hs.safe, fun i k _ hk => ?_, fun i hi => ?_⟩, ?_⟩
  · rcases loop?_concat rfl hk with hk | ⟨-, rfl⟩
    · exact hs.gone i k (by simp [hfree]) hk
    · exact ⟨rfl, rfl⟩
  · have hi : x.owned = some i := hi
    simp [hfree] at hi
  · rw [forecast_of_unowned (by exact hfree)]
    simp only [present, List.map_append, List.map_cons, List.map_nil, Loop.finish, hj]

/-- A session that begins on a new loop has its queue to run. -/
theorem start_ready (hs : Sound x) (hfree : x.owned = none) (ha : Attending l)
    (hc : l.closed = false) {j : List Entry} (hj : log j = log x.journal) {m : Machine} {n : Nat}
    {c : FrameCounter} {ks : List Nat} (hy : y = { x with
      machine := m
      attempts := n
      frames := c
      loops := x.loops ++ [l]
      dispatcher := some x.loops.length
      owned := some x.loops.length
      sessions := ks
      journal := j }) :
    Sound y ∧ y.forecast = l.queue.foldl (Prompt.run x.loops.length l.engine) { x.present with
      requested := m.requested
      applied := m.applied
      attempts := n
      engines := x.present.engines ++ [(l.engine, l.view)]
      running := some x.loops.length } := by
  subst hy
  have hlast : loop? { x with
      machine := m
      attempts := n
      frames := c
      loops := x.loops ++ [l]
      dispatcher := some x.loops.length
      owned := some x.loops.length
      sessions := ks
      journal := j } x.loops.length = some l := loop?_last rfl
  refine ⟨⟨hs.passive, rfl, hs.safe, fun i k hi hk => ?_, fun i hi => ?_⟩, ?_⟩
  · rcases loop?_concat rfl hk with hk | ⟨rfl, -⟩
    · exact hs.gone i k (by simp [hfree]) hk
    · exact absurd rfl hi
  · obtain rfl := Option.some.inj hi
    exact ⟨l, hlast, hc, .inl ha⟩
  · rw [forecast_of_owned rfl, ahead_eq hlast]
    simp only [present, List.map_append, List.map_cons, List.map_nil, hj]

/-- How the making of the newest engine ends for its loop. -/
theorem built_last {ls : List Loop} (hloops : x.loops = ls ++ [l]) {pl : Plan}
    (hkind : pl.kind = .recording) :
    x.built ls.length pl = { x with loops := ls ++ [
      if pl.outcome.fault?.isSome then l.finish .refused
      else { l with phase := .idle, ticker := none }] } := by
  unfold built
  rw [loop?_last hloops]
  simp only [hkind, Kind.ticks, Bool.false_eq_true, if_false, setLoop_last hloops]
  cases pl.outcome with
  | ready => rfl
  | refused e => rfl
  | crashed => rfl

/-- A start that ends without an engine. -/
theorem start_of_fault (answer : Caller) (hfree : x.owned = none) {pl : Plan}
    (hpl : (Call.start pl).isTame) {e : Fault} (hout : pl.outcome.fault? = some e) :
    ∃ (j : List Entry) (l : Loop),
      log j = log x.journal ∧ l.engine = x.attempts + 1 ∧ l.view = {} ∧
      start answer x pl = (.fault e,
        { x with
          attempts := x.attempts + 1
          loops := x.loops ++ [l.finish .refused]
          journal := j }) := by
  have hidle : ¬x.owned.isSome := by simp [hfree]
  obtain ⟨j, hj, hprepared⟩ := prepared_eq answer x hpl
  simp only [Call.isTame, Bool.and_eq_true, beq_iff_eq] at hpl
  have hbuilt := built_last (x := x.prepared answer pl) (by rw [hprepared]) hpl.1
  simp only [hout, Option.isSome_some, if_true] at hbuilt
  have hstart : start answer x pl = (.fault e, (x.prepared answer pl).built x.loops.length pl) := by
    unfold start
    simp only [spawn_eq, hout]
    rw [if_neg hidle]
  rw [hstart, hbuilt, hprepared]
  exact ⟨j, _, hj, rfl, rfl, rfl⟩

/-- A start that begins a session. -/
theorem start_of_ready (answer : Caller) (hfree : x.owned = none) {pl : Plan}
    (hpl : (Call.start pl).isTame) (hout : pl.outcome.fault? = none) :
    ∃ j, log j = log x.journal ∧
      start answer x pl = (.done,
        { x with
          machine := x.machine.begin.2
          attempts := x.attempts + 1
          frames := {}
          loops := x.loops ++ [{
            engine := x.attempts + 1
            kind := .recording
            phase := .idle
            queue := (Prompt.opening pl.preparations x.url x.machine.begin.1).map Message.run }]
          dispatcher := some x.loops.length
          owned := some x.loops.length
          sessions := x.sessions ++ [x.loops.length]
          journal := j }) := by
  have hidle : ¬x.owned.isSome := by simp [hfree]
  obtain ⟨j, hj, hprepared⟩ := prepared_eq answer x hpl
  simp only [Call.isTame, Bool.and_eq_true, beq_iff_eq] at hpl
  have hbuilt := built_last (x := x.prepared answer pl) (by rw [hprepared]) hpl.1
  simp only [hout, Option.isSome_none, Bool.false_eq_true, if_false] at hbuilt
  have hqueue : (Prompt.opening pl.preparations x.url x.machine.begin.1).map Message.run =
      (Prompt.works pl.preparations).map Message.run ++
        [.run (.work (.load x.url)), .run (.lifecycle x.machine.begin.1)] := by
    unfold Prompt.opening
    rw [List.map_append]
    rfl
  refine ⟨.queued (x.attempts + 1) (.lifecycle x.machine.begin.1) ::
    .queued (x.attempts + 1) (.work (.load x.url)) ::
    .began (x.attempts + 1) x.machine.begin.1 :: j, hj, ?_⟩
  unfold start
  simp only [spawn_eq, hout]
  rw [if_neg hidle, hbuilt, begin_last rfl rfl, hprepared, hqueue]

theorem start_meets (hs : Sound x) {pl : Plan} (hpl : (Call.start pl).isTame) :
    Meets (start answer x pl) (x.forecast.start pl) := by
  by_cases hbusy : x.owned.isSome
  · have hrunning : x.forecast.running.isSome := by rwa [running_forecast]
    unfold start Prompt.start
    simp only
    rw [if_pos hbusy, if_pos hrunning]
    refine ⟨rfl, ⟨hs.passive, hs.driven, hs.safe, hs.gone, hs.tame⟩, ?_⟩
    have hfront := forecast_front (x := x) (y := { x with attempts := x.attempts + 1 })
      (r := x.machine.requested) (u := x.url) (a := x.attempts + 1) rfl rfl rfl
    rw [hfront, ← requested_forecast, ← url_forecast, ← attempts_forecast]
  · have hfree : x.owned = none := by simpa using hbusy
    have hidle : ¬x.present.running.isSome := hbusy
    unfold Prompt.start
    rw [forecast_of_unowned hfree]
    simp only
    rw [if_neg hidle]
    cases hout : pl.outcome.fault? with
    | some e =>
      obtain ⟨j, l, hj, hengine, hview, hstart⟩ := start_of_fault answer hfree hpl hout
      obtain ⟨hsound, hforecast⟩ := start_refused (l := l) (n := x.attempts + 1) hs hfree hj rfl
      rw [hstart]
      refine ⟨rfl, hsound, hforecast.trans ?_⟩
      rw [hengine, hview]
      rfl
    | none =>
      obtain ⟨j, hj, hstart⟩ := start_of_ready answer hfree hpl hout
      simp only [Call.isTame, Bool.and_eq_true, beq_iff_eq] at hpl
      have hmild := isMild_opening x.machine.begin.1 hpl.2 hs.safe
      have hlength : x.present.engines.length = x.loops.length := List.length_map _
      obtain ⟨hsound, hforecast⟩ := start_ready hs hfree
        (l := {
          engine := x.attempts + 1
          kind := .recording
          phase := .idle
          queue := (Prompt.opening pl.preparations x.url x.machine.begin.1).map Message.run })
        ⟨rfl, rfl, .inl rfl, _, hmild, (List.append_nil _).symm⟩ rfl hj rfl
      rw [hstart]
      refine ⟨rfl, hsound, hforecast.trans ?_⟩
      unfold Prompt.begin
      simp only [hlength]
      rfl

/-! ## runs -/

/-- Whether the turn is no shutdown that leaves its loop to itself. -/
def timely (x : Instance) (t : Turn) : Bool :=
  match t, x.owned with
  | .call .shutdown, some i => !((x.turn t).loop? i).any (·.phase.isAlive)
  | _, _ => true

/-- Whether no shutdown leaves its loop to itself. -/
def allTimely (x : Instance) : List Turn → Bool
  | [] => true
  | t :: ts => x.timely t && (x.turn t).allTimely ts

/-- Whether no loop has messages left. -/
def isDrained (x : Instance) : Bool :=
  x.loops.all (·.queue.isEmpty)

/-- The calls that are not about timing, oldest first. -/
def calls : List Turn → List Call
  | [] => []
  | .call c :: ts => if c.isTiming then calls ts else c :: calls ts
  | _ :: ts => calls ts

/-- What those calls return, and what can be read after each. -/
def answers (x : Instance) : List Turn → List Answer
  | [] => []
  | .call c :: ts =>
    let (r, y) := call c x
    if c.isTiming then y.answers ts
    else ⟨r, y.machine.requested, y.url, y.hidden⟩ :: y.answers ts
  | t :: ts => (x.turn t).answers ts

/-- A call about timing is no news. -/
theorem call_quiet (hs : Sound x) {c : Call} (hc : c.isTiming) : Quiet x (call c x).2 := by
  obtain ⟨answer, hcall⟩ := call_eq c x
  rw [hcall]
  cases c <;> simp only [Call.isTiming, Bool.false_eq_true] at hc
  case hold => exact hold_quiet hs
  case release => exact release_quiet hs
  case advance ns => exact ⟨⟨hs.passive, hs.driven, hs.safe, hs.gone, hs.tame⟩, rfl⟩

/-- Any other call does what it does to a prompt instance. -/
theorem call_meets (hs : Sound x) {c : Call} (hc : c.isTame) (hkind : c.isTiming = false)
    (htimely : x.timely (.call c)) : Meets (call c x) (x.forecast.call c) := by
  obtain ⟨answer, hcall⟩ := call_eq c x
  rw [hcall]
  cases c <;> simp only [Call.isTame, Call.isTiming, Bool.false_eq_true, Bool.true_eq_false]
    at hc hkind
  case start pl => exact start_meets hs hc
  case shutdown =>
    refine ⟨?_, shutdown_meets hs fun i l ho hl => ?_⟩
    · show (shutdown answer x).1 = .done
      unfold shutdown
      split <;> rfl
    · unfold timely at htimely
      simp only [ho, turn, hcall, performWith, hl, Option.any_some] at htimely
      simpa using htimely
  case suspend => exact request_meets hs .suspend
  case resume => exact request_meets hs .resume
  case request c => exact request_meets hs c
  case setUrl url => exact ⟨rfl, setUrl_meets hs hc⟩
  case hide hidden => exact ⟨rfl, hide_meets hs hidden⟩
  case dispatch w =>
    obtain ⟨haccepted, hsound, hforecast⟩ := submit_sound hs (t := .work w) hc
    refine ⟨?_, hsound, hforecast⟩
    simp only [performWith, Prompt.call, haccepted, running_forecast]

/-- A schedule does to the forecast what its calls do to a prompt instance. -/
theorem play_forecast (hs : Sound x) {ts : List Turn} (hts : ∀ t ∈ ts, t.isTame)
    (htimely : x.allTimely ts) :
    Sound (x.play ts) ∧ (x.play ts).forecast = x.forecast.callAll (calls ts) ∧
      x.answers ts = x.forecast.answers (calls ts) := by
  induction ts generalizing x with
  | nil => exact ⟨hs, rfl, rfl⟩
  | cons t ts ih =>
    have htame := hts t List.mem_cons_self
    have hrest : ∀ t ∈ ts, t.isTame := fun t ht => hts t (List.mem_cons_of_mem _ ht)
    simp only [allTimely, Bool.and_eq_true] at htimely
    obtain ⟨hfirst, hlater⟩ := htimely
    -- a turn that is no news
    have hquiet (hq : Quiet x (x.turn t)) (hcalls : calls (t :: ts) = calls ts)
        (hanswers : x.answers (t :: ts) = (x.turn t).answers ts) :
        Sound (x.play (t :: ts)) ∧
          (x.play (t :: ts)).forecast = x.forecast.callAll (calls (t :: ts)) ∧
          x.answers (t :: ts) = x.forecast.answers (calls (t :: ts)) := by
      obtain ⟨hsound, hforecast⟩ := hq
      rw [hcalls, hanswers, ← hforecast]
      exact ih hsound hrest hlater
    cases t with
    | call c =>
      by_cases hkind : c.isTiming
      · exact hquiet (call_quiet hs hkind) (by simp only [calls, hkind, if_true])
          (by simp only [answers, hkind, if_true, turn])
      · obtain ⟨hreply, hsound, hforecast⟩ := call_meets hs htame (by simpa using hkind) hfirst
        obtain ⟨hend, hcalls, hanswers⟩ := ih hsound hrest hlater
        refine ⟨hend, ?_, ?_⟩
        · simp only [calls, hkind, Bool.false_eq_true, if_false, Prompt.callAll, List.foldl_cons]
          rw [← hforecast]
          exact hcalls
        · simp only [answers, calls, hkind, Bool.false_eq_true, if_false, Prompt.answers,
            Prompt.answer]
          rw [hreply, ← requested_forecast, ← url_forecast, ← hidden_forecast, ← hforecast,
            hanswers]
    | message i => exact hquiet (message_quiet hs i) rfl rfl
    | tick i => exact hquiet (tick_quiet hs i) rfl rfl
    | stall i => exact hquiet (stall_quiet hs i) rfl rfl
    | goOn i => exact hquiet (unblock_quiet hs i) rfl rfl

/-- Once all queues are empty, what was forecast has come. -/
theorem forecast_drained (h : x.isDrained) : x.forecast = x.present := by
  cases ho : x.owned with
  | none => exact forecast_of_unowned ho
  | some i =>
    rw [forecast_of_owned ho]
    unfold ahead
    cases hl : x.loop? i with
    | none => rfl
    | some l =>
      unfold isDrained at h
      have hempty := List.all_eq_true.1 h l (List.mem_of_getElem? hl)
      simp only [List.isEmpty_iff.1 hempty, List.foldl_nil]

/-- Fresh instances are sound. -/
theorem fresh_sound {s : BrowserSettings} (hurl : isSafe (.load s.url)) {h : Hub}
    {os : List Observer} (hos : ∀ o ∈ os, o.reactions = []) :
    Sound { ofSettings s with hub := h, observers := os } where
  passive := hos
  driven := rfl
  safe := hurl
  gone _ _ _ hl := by simp [loop?, ofSettings] at hl
  tame _ hi := by simp [ofSettings] at hi

end

/-! ## two schedules -/

/-- Two schedules of the same calls can not be told apart: calls return the
same, and what can be read after each is the same.  Once all messages have been
taken, engines and observers have been told the same in the same order, the
views are the same, and so is what subscribers can read. -/
theorem timing_unobservable {s : BrowserSettings} {h : Hub} {os : List Observer}
    {ts us : List Turn} (hurl : isSafe (.load s.url)) (hos : ∀ o ∈ os, o.reactions = [])
    (hts : ∀ t ∈ ts, t.isTame) (hus : ∀ t ∈ us, t.isTame) (hcalls : calls ts = calls us)
    (htimely : allTimely { ofSettings s with hub := h, observers := os } ts)
    (htimely' : allTimely { ofSettings s with hub := h, observers := os } us) :
    let x : Instance := { ofSettings s with hub := h, observers := os }
    x.answers ts = x.answers us ∧
      ((x.play ts).isDrained → (x.play us).isDrained →
        log (x.play ts).journal = log (x.play us).journal ∧
          (x.play ts).present.engines = (x.play us).present.engines ∧
          (x.play ts).hub = (x.play us).hub) := by
  intro x
  have hx : Sound x := fresh_sound hurl hos
  obtain ⟨-, hend, hanswers⟩ := play_forecast hx hts htimely
  obtain ⟨-, hend', hanswers'⟩ := play_forecast hx hus htimely'
  refine ⟨by rw [hanswers, hanswers', hcalls], fun hdrained hdrained' => ?_⟩
  have hpresent : (x.play ts).present = (x.play us).present := by
    rw [← forecast_drained hdrained, ← forecast_drained hdrained', hend, hend', hcalls]
  exact ⟨congrArg Prompt.log hpresent, congrArg Prompt.engines hpresent,
    congrArg Prompt.hub hpresent⟩

/-- A session whose loop keeps up with its caller. -/
def eager : List Turn :=
  [.call (.start {}), .message 0, .message 0, .call .resume, .message 0, .call (.hide true),
    .message 0, .call (.setUrl "b"), .message 0, .call .shutdown]

/-- The same session, whose loop is late.  It resumes the engine when that is
hidden already. -/
def tardy : List Turn :=
  [.call (.start {}), .stall 0, .call .resume, .call (.hide true), .goOn 0, .call .hold,
    .call (.setUrl "b"), .message 0, .call .release, .call .shutdown]

theorem timing_unobservable_tardy :
    let x : Instance :=
      { ofSettings ({} : Settings).browser with
        hub := { state := { members := [.named "shell", .quiet 0] } }
        observers := [⟨"shell", []⟩] }
    x.answers eager = x.answers tardy ∧
      log (x.play eager).journal = log (x.play tardy).journal := by
  intro x
  have h := @timing_unobservable ({} : Settings).browser
    { state := { members := [.named "shell", .quiet 0] } } [⟨"shell", []⟩] eager tardy
    (by decide) (by simp) (by decide) (by decide) rfl (by decide) (by decide)
  exact ⟨h.1, (h.2 (by decide) (by decide)).1⟩

end BrowserHost.Instance
