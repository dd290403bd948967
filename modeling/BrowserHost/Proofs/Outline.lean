import BrowserHost.Proofs.Chronicle
import BrowserHost.Proofs.Run

/-!
# BrowserHost.Proofs.Outline

The outline of an instance: its sessions, its queues, its states and views,
and its journal.  Observers, URLs, frames and the clock are left out, and so is
all that a loop does between two messages.  What is left moves in a handful of
ways, so that what holds of sessions, queues and states is proved on the
outline.

* `Step`: how an outline moves;
* `Change.steps`: every change of an instance is made of such steps;
* `outline_induction`: what every step keeps holds after every schedule.
-/

namespace BrowserHost.Instance

open Engine Hub

/-! ## outlines -/

/-- A loop in outline. -/
structure Strand where
  engine : Nat
  building : Bool := true
  alive : Bool := true
  closed : Bool := false
  queue : List Message := []
  view : View := {}

/-- An instance in outline. -/
structure Outline where
  machine : Machine
  hidden : Bool
  dispatcher : Option Nat
  owned : Option Nat
  sessions : List Nat
  attempts : Nat
  loops : List Strand
  journal : List Entry

/-- The outline of a loop. -/
def strand (l : Loop) : Strand where
  engine := l.engine
  building := l.phase == .building
  alive := l.phase.isAlive
  closed := l.closed
  queue := l.queue
  view := l.view

/-- The outline of an instance. -/
def outline (x : Instance) : Outline where
  machine := x.machine
  hidden := x.hidden
  dispatcher := x.dispatcher
  owned := x.owned
  sessions := x.sessions
  attempts := x.attempts
  loops := x.loops.map strand
  journal := x.journal

/-- Whether a task has nothing to do with states and visibility. -/
def isPlainTask : Task → Bool
  | .lifecycle _ | .visibility _ => false
  | _ => true

namespace Strand

def accepts (g : Strand) : Bool :=
  !g.closed && g.alive

def push (g : Strand) (t : Task) : Strand :=
  { g with queue := g.queue ++ [.run t] }

def close (g : Strand) : Strand :=
  if g.closed then g
  else { g with closed := true, queue := if g.alive then g.queue ++ [.stop] else g.queue }

def finish (g : Strand) : Strand :=
  { g with building := false, alive := false, queue := [] }

end Strand

namespace Outline

def loop? (o : Outline) (i : Nat) : Option Strand :=
  o.loops[i]?

def note (o : Outline) (e : Entry) : Outline :=
  { o with journal := e :: o.journal }

def setLoop (o : Outline) (i : Nat) (g : Strand) : Outline :=
  { o with loops := o.loops.set i g }

def submitTo (o : Outline) (i : Nat) (t : Task) : Outline :=
  match o.loop? i with
  | none => o
  | some g => if g.accepts then (o.setLoop i (g.push t)).note (.queued g.engine t) else o

def submit (o : Outline) (t : Task) : Outline :=
  match o.dispatcher with
  | none => o
  | some i => o.submitTo i t

def closeLoop (o : Outline) (i : Nat) : Outline :=
  match o.loop? i with
  | none => o
  | some g => o.setLoop i g.close

/-- Take a task from the queue of a loop, which leaves it with the given view. -/
def take (o : Outline) (i : Nat) (g : Strand) (t : Task) (rest : List Message) (v : View) :
    Outline :=
  (o.setLoop i { g with queue := rest, view := v }).note (.ran g.engine t)

/-- Take note of what was applied, in the telling of that number if it is
news. -/
def settleOn (o : Outline) (k : Nat) (s : State) : Outline :=
  if (o.machine.confirm s).1 then
    { o with machine := (o.machine.confirm s).2 }.note (.telling k (.stateChanged s))
  else { o with machine := (o.machine.confirm s).2 }

/-- Carry out a request that leads to the given transition. -/
def grant (o : Outline) (c : Command) (t : Transition) (m : Machine) : Outline :=
  if t.dispatch then ({ o with machine := m }.note (.requested c t.next)).submit (.lifecycle t.next)
  else { o with machine := m }.note (.requested c t.next)

/-- Give a loop whose engine is ready a session. -/
def openSession (o : Outline) (i : Nat) (g : Strand) : Outline :=
  { (o.setLoop i { g with building := false }).note (.began g.engine o.machine.begin.1) with
    machine := o.machine.begin.2
    dispatcher := some i
    owned := some i
    sessions := o.sessions ++ [i] }

/-- Begin a session on a loop whose engine is ready. -/
def begin (o : Outline) (i : Nat) (g : Strand) (url : String) : Outline :=
  ((o.openSession i g).submitTo i (.work (.load url))).submitTo i (.lifecycle o.machine.begin.1)

end Outline

/-! ## steps -/

open Outline

/-- A step that changes states or sessions; calls satisfy `p`. -/
inductive Shift (p : Call → Bool) : Outline → Outline → Prop
  | notify {o : Outline} {k : Nat} {s : State} (hp : p (.notify (.stateChanged s))) :
    Shift p o (o.note (.telling k (.stateChanged s)))
  | request {o : Outline} {c : Command} {t : Transition} {m : Machine}
    (hm : o.machine.request c = .ok (t, m)) : Shift p o (o.grant c t m)
  | ready {o : Outline} {i : Nat} {g : Strand} (url : String) (hg : o.loop? i = some g)
    (hb : g.building) (ha : g.alive) : Shift p o (o.begin i g url)
  | giveUp {o : Outline} {i e : Nat} (hi : o.owned = some i) :
    Shift p o ((Outline.note { o with owned := none, dispatcher := none } (.ended e)).closeLoop i)
  | finish {o : Outline} {i : Nat} {g : Strand} (hg : o.loop? i = some g)
    (hb : g.building = false) : Shift p o ((o.setLoop i g.finish).note (.dropped g.engine))
  | lifecycle {o : Outline} {i k : Nat} {g : Strand} {s : State} {rest : List Message}
    (hg : o.loop? i = some g) (hb : g.building = false)
    (hq : g.queue = .run (.lifecycle s) :: rest) :
    Shift p o (((o.take i g (.lifecycle s) rest (View.of s o.hidden)).note
      (.viewed g.engine (View.of s o.hidden))).settleOn k s)

/-- A step that changes what the engine is told about its view, and no state. -/
inductive Glance : Outline → Outline → Prop
  | hide {o : Outline} {i : Nat} {h : Bool} (hi : o.dispatcher = some i) :
    Glance o ((Outline.note { o with hidden := h } (.flipped h)).submitTo i (.visibility h))
  | view {o : Outline} {i : Nat} {g : Strand} {v : View} {rest : List Message}
    (hg : o.loop? i = some g) (hb : g.building = false)
    (hq : g.queue = .run (.work (.view v)) :: rest) :
    Glance o (o.take i g (.work (.view v)) rest v)
  | visibility {o : Outline} {i : Nat} {g : Strand} {h : Bool} {rest : List Message}
    (hg : o.loop? i = some g) (hb : g.building = false)
    (hq : g.queue = .run (.visibility h) :: rest) :
    Glance o (o.take i g (.visibility h) rest (View.of o.machine.applied h))

/-- A step of an outline; calls satisfy `p`. -/
inductive Step (p : Call → Bool) : Outline → Outline → Prop
  | shift {o o' : Outline} (h : Shift p o o') : Step p o o'
  | glance {o o' : Outline} (h : Glance o o') : Step p o o'
  | quiet {o : Outline} {e : Entry} (he : e.isLoud = false) : Step p o (o.note e)
  | attempt {o : Outline} : Step p o { o with attempts := o.attempts + 1 }
  | openLoop {o : Outline} : Step p o
    { o with attempts := o.attempts + 1, loops := o.loops ++ [{ engine := o.attempts + 1 }] }
  | push {o : Outline} {i : Nat} {t : Task} (ht : isPlainTask t) : Step p o (o.submitTo i t)
  | fail {o : Outline} {i : Nat} {g : Strand} (hg : o.loop? i = some g) (hb : g.building) :
    Step p o (o.setLoop i g.finish)
  | take {o : Outline} {i : Nat} {g : Strand} {t : Task} {rest : List Message}
    (hg : o.loop? i = some g) (hb : g.building = false) (hq : g.queue = .run t :: rest)
    (ht : isPlainTask t) : Step p o (o.take i g t rest g.view)

/-- Any number of steps. -/
abbrev Steps (p : Call → Bool) : Outline → Outline → Prop :=
  Relation.ReflTransGen (Step p)

/-! ## outlines of what happens -/

theorem loop?_outline (x : Instance) (i : Nat) :
    x.outline.loop? i = (x.loop? i).map strand := by
  simp only [outline, Outline.loop?, loop?, List.getElem?_map]

theorem outline_note (x : Instance) (e : Entry) : (x.note e).outline = x.outline.note e := rfl

theorem outline_setLoop (x : Instance) (i : Nat) (l : Loop) :
    (x.setLoop i l).outline = x.outline.setLoop i (strand l) := by
  simp only [outline, setLoop, Outline.setLoop, List.map_set]

/-- What changes a loop between two messages does not show. -/
theorem outline_setLoop_self {x : Instance} {i : Nat} {l l' : Loop} (hl : x.loop? i = some l)
    (h : strand l' = strand l) : (x.setLoop i l').outline = x.outline := by
  have hg : x.outline.loop? i = some (strand l') := by rw [loop?_outline, hl, h, Option.map_some]
  obtain ⟨hi, he⟩ := List.getElem?_eq_some_iff.1 hg
  rw [outline_setLoop, Outline.setLoop, ← he, List.set_getElem_self]

theorem strand_push {l : Loop} (h : l.accepts) (t : Task) :
    strand (l.push t) = (strand l).push t := by
  rw [Loop.push_eq, if_pos h]
  rfl

theorem strand_close (l : Loop) : strand l.close = (strand l).close := by
  rw [Loop.close_eq]
  unfold Strand.close
  by_cases h : l.closed
  · simp [strand, h]
  · simp [strand, h]

theorem outline_submitTo (x : Instance) (i : Nat) (t : Task) :
    (x.submitTo i t).2.outline = x.outline.submitTo i t := by
  rw [submitTo_eq]
  unfold Outline.submitTo
  rw [loop?_outline]
  cases hl : x.loop? i with
  | none => rfl
  | some l =>
    simp only [Option.map_some]
    by_cases ha : l.accepts
    · have hs : (strand l).accepts := ha
      rw [if_pos ha, if_pos hs, outline_note, outline_setLoop, strand_push ha]
      rfl
    · have hs : ¬(strand l).accepts := ha
      rw [if_neg ha, if_neg hs]

theorem outline_submit (x : Instance) (t : Task) :
    (x.submit t).2.outline = x.outline.submit t := by
  unfold submit Outline.submit
  cases hd : x.dispatcher with
  | none => simp only [outline, hd]
  | some i =>
    have hd' : x.outline.dispatcher = some i := hd
    simp only [hd', outline_submitTo]

theorem outline_closeLoop (x : Instance) (i : Nat) :
    (x.closeLoop i).outline = x.outline.closeLoop i := by
  unfold closeLoop Outline.closeLoop
  rw [loop?_outline]
  cases hl : x.loop? i with
  | none => rfl
  | some l =>
    simp only [Option.map_some]
    rw [outline_setLoop, strand_close]

theorem outline_settleOn (x : Instance) (s : State) :
    (x.settleOn s).outline = x.outline.settleOn x.tellings s := by
  unfold settleOn Outline.settleOn
  have hm : x.outline.machine = x.machine := rfl
  simp only [hm]
  split <;> rfl

theorem outline_request {x : Instance} {c : Command} {t : Transition} {m : Machine}
    (hm : x.machine.request c = .ok (t, m)) :
    (x.request c).2.outline = x.outline.grant c t m := by
  simp only [request, hm, grant]
  by_cases ht : t.dispatch
  · rw [if_pos ht, if_pos ht, outline_submit]
    rfl
  · rw [if_neg ht, if_neg ht]
    rfl

/-! ## changes in steps -/

section

variable {p : Call → Bool} {x : Instance}

theorem Steps.of_eq {o o' : Outline} (h : o' = o) : Steps p o o' := by
  rw [h]

theorem Step.steps {o o' : Outline} (h : Step p o o') : Steps p o o' :=
  .single h

theorem note_steps (x : Instance) {e : Entry} (he : e.isLoud = false) :
    Steps p x.outline (x.note e).outline :=
  .single (.quiet he)

theorem announce_steps (x : Instance) {n : Notice} (hn : ∀ s, n ≠ .stateChanged s) :
    Steps p x.outline (x.announce n).outline := by
  have hquiet : (Entry.telling x.tellings n).isLoud = false := by
    cases n with
    | stateChanged s => exact absurd rfl (hn s)
    | _ => rfl
  exact .single (.quiet hquiet)

theorem framesDisplayed_steps (n : Nat) (x : Instance) :
    Steps p x.outline (framesDisplayed n x).outline := by
  induction n generalizing x with
  | zero => exact .refl
  | succ n ih =>
    have hfirst : Steps p x.outline x.frameDisplayed.outline := by
      unfold frameDisplayed
      split
      · exact .single (.quiet rfl)
      · exact .refl
    exact hfirst.trans (ih _)

theorem raise_steps (x : Instance) (r : Report) : Steps p x.outline (x.raise r).outline := by
  cases r with
  | urlChanged u =>
    have hurl : { x with url := u }.outline = x.outline := rfl
    rw [← hurl]
    exact announce_steps _ (by simp)
  | loadFinished u =>
    have hurl : { x with url := u }.outline = x.outline := rfl
    rw [← hurl]
    exact announce_steps _ (by simp)
  | closureRequested => exact announce_steps _ (by simp)
  | frames n => exact framesDisplayed_steps n x

theorem submitTo_steps (x : Instance) (i : Nat) {t : Task} (ht : isPlainTask t) :
    Steps p x.outline (x.submitTo i t).2.outline := by
  rw [outline_submitTo]
  exact .single (.push ht)

theorem submit_steps (x : Instance) {t : Task} (ht : isPlainTask t) :
    Steps p x.outline (x.submit t).2.outline := by
  rw [outline_submit, Outline.submit]
  split
  · exact .refl
  · exact .single (.push ht)

theorem outline_unblock (x : Instance) (i : Nat) : (x.unblock i).outline = x.outline := by
  unfold unblock
  cases hl : x.loop? i with
  | none => rfl
  | some l =>
    simp only
    by_cases hheld : l.phase = .held
    · rw [if_pos hheld]
      exact outline_setLoop_self hl (by simp [strand, hheld, Phase.isAlive])
    · rw [if_neg hheld]

theorem hide_steps (x : Instance) (hidden : Bool) :
    Steps p x.outline (x.hide hidden).outline := by
  unfold hide
  split
  · exact .refl
  · next h =>
    obtain ⟨i, hi⟩ : ∃ i, x.dispatcher = some i := by
      cases hd : x.dispatcher with
      | none => simp [hd] at h
      | some i => exact ⟨i, rfl⟩
    have hd : x.outline.dispatcher = some i := hi
    have hglance := Glance.hide (h := hidden) hd
    rw [outline_submit, Outline.submit]
    simp only [note, outline, hi] at hglance ⊢
    exact .single (.glance hglance)

/-! ## what a task does -/

theorem outline_take (i : Nat) {l : Loop} (t : Task) (rest : List Message)
    (hidle : l.phase = .idle) :
    (x.take i l t rest).outline = x.outline.take i (strand l) t rest l.view := by
  unfold Instance.take Outline.take
  rw [outline_note, outline_setLoop]
  simp only [strand, hidle]
  rfl

/-- A view that a task sets shows together with the taking of the task. -/
theorem outline_setView {i : Nat} {l : Loop} (hl : x.loop? i = some l) (t : Task)
    (rest : List Message) (hidle : l.phase = .idle) (v : View) :
    ((x.take i l t rest).setView i v).outline =
      (x.outline.take i (strand l) t rest v).note (.viewed l.engine v) := by
  have hloop : (x.take i l t rest).loop? i = some { l with phase := .busy, queue := rest } := by
    rw [loop?_take hl, if_pos rfl]
  unfold setView Outline.take
  rw [hloop]
  simp only
  rw [outline_note, outline_setLoop, outline_take i t rest hidle]
  simp only [Outline.take, Outline.setLoop, Outline.note, List.set_set, strand, hidle]
  rfl

theorem outline_endLoop {i : Nat} {l : Loop} (hl : x.loop? i = some l) {phase : Phase}
    (hp : phase = .stopped ∨ phase = .crashed ∨ phase = .refused) :
    (x.endLoop i phase).outline =
      (x.outline.setLoop i (strand l).finish).note (.dropped l.engine) := by
  unfold endLoop
  rw [hl]
  simp only
  rw [outline_note, outline_setLoop]
  rcases hp with rfl | rfl | rfl <;> rfl

theorem endLoop_steps {i : Nat} {l : Loop} (hl : x.loop? i = some l) {phase : Phase}
    (hp : phase = .stopped ∨ phase = .crashed ∨ phase = .refused) (hb : l.phase ≠ .building) :
    Steps p x.outline (x.endLoop i phase).outline := by
  rw [outline_endLoop hl hp]
  have hg : x.outline.loop? i = some (strand l) := by rw [loop?_outline, hl, Option.map_some]
  have hb' : (strand l).building = false := by simpa [strand] using hb
  exact .single (.shift (.finish hg hb'))

theorem arrive_steps {i : Nat} {l : Loop} (hl : x.loop? i = some l) (hb : l.phase ≠ .building)
    (u : String) : Steps p x.outline (x.arrive i u).outline := by
  unfold arrive
  rw [hl]
  have hnote : Steps p x.outline (x.note (.loaded l.engine u)).outline := note_steps x rfl
  have hloop : (x.note (.loaded l.engine u)).loop? i = some l := hl
  simp only
  split
  · exact hnote.trans (endLoop_steps hloop (.inr (.inl rfl)) hb)
  · exact hnote

theorem block_steps {i : Nat} {l : Loop} (hl : x.loop? i = some l) (hb : l.phase = .busy) :
    Steps p x.outline (x.block i).outline := by
  unfold block
  rw [hl]
  refine .of_eq (outline_setLoop_self hl ?_)
  simp [strand, hb, Phase.isAlive]

theorem run_steps {i : Nat} {l : Loop} {t : Task} {rest : List Message} (hl : x.loop? i = some l)
    (hidle : l.phase = .idle) (hq : l.queue = .run t :: rest) :
    Steps p x.outline ((x.take i l t rest).effect i t).outline := by
  have hg : x.outline.loop? i = some (strand l) := by rw [loop?_outline, hl, Option.map_some]
  have hb : (strand l).building = false := by simp [strand, hidle]
  have hloop : (x.take i l t rest).loop? i = some { l with phase := .busy, queue := rest } := by
    rw [loop?_take hl, if_pos rfl]
  -- a plain task leaves the view alone when it is taken
  have htake (ht : isPlainTask t) : Steps p x.outline (x.take i l t rest).outline := by
    rw [outline_take i t rest hidle]
    exact .single (.take hg hb hq ht)
  match t with
  | .work (.load u) => exact (htake rfl).trans (arrive_steps hloop (by simp) u)
  | .work (.view v) =>
    simp only [effect, outline_setView hl _ rest hidle]
    have hview := Step.glance (p := p) (.view hg hb hq)
    exact hview.steps.trans (.single (.quiet rfl))
  | .lifecycle s =>
    simp only [effect, outline_settleOn, outline_setView hl _ rest hidle]
    exact .single (.shift (.lifecycle hg hb hq))
  | .visibility h =>
    simp only [effect]
    refine .trans ?_ (announce_steps _ (by simp))
    rw [outline_setView hl _ rest hidle]
    have hvisibility := Step.glance (p := p) (.visibility hg hb hq)
    exact hvisibility.steps.trans (.single (.quiet rfl))
  | .report r => exact (htake rfl).trans (raise_steps _ r)
  | .block => exact (htake rfl).trans (block_steps hloop rfl)

/-! ## what callers do -/

theorem plain_steps {c : Call} (answer : Caller) (hc : c.isPlain) :
    Steps p x.outline (performWith answer c x).2.outline := by
  have hregister (y : Instance) (role : Role) (o : ObserverId) :
      (y.register role o).2.outline = y.outline := by
    unfold register
    split
    · split <;> rfl
    · rfl
  have hunregister (y : Instance) (role : Role) (o : ObserverId) :
      (y.unregister role o).2.outline = y.outline := by
    unfold unregister
    split
    · split <;> rfl
    · rfl
  have hmention (name : String) (rs : List Reaction) : (x.mention name rs).outline = x.outline := by
    unfold mention
    split <;> rfl
  have hrequest (c : Command) : Steps p x.outline (x.request c).2.outline := by
    cases hm : x.machine.request c with
    | error e => exact .of_eq (by simp only [request, hm])
    | ok r => rw [outline_request hm]; exact .single (.shift (.request hm))
  cases c with
  | register role name rs => exact .of_eq ((hregister _ _ _).trans (hmention _ _))
  | registerQuiet => exact .of_eq (hregister _ _ _)
  | unregister role name rs => exact .of_eq ((hunregister _ _ _).trans (hmention _ _))
  | subscribe id =>
    simp only [performWith, subscribe]
    split <;> exact .refl
  | dropHub | unsubscribe id | receive id n | isClosed k | advance ns | settings | read =>
    exact .refl
  | suspend => exact hrequest .suspend
  | resume => exact hrequest .resume
  | request c => exact hrequest c
  | setUrl url =>
    have hnote : Steps p x.outline ({ x with url := url }.note (.navigated url)).outline :=
      .single (.quiet rfl)
    exact hnote.trans (submit_steps _ rfl)
  | hide hidden => exact hide_steps x hidden
  | dispatch w => exact submit_steps x rfl
  | submit k w =>
    simp only [performWith, submitWork]
    split
    · exact .refl
    · exact submitTo_steps x _ rfl
  | release =>
    simp only [performWith, release]
    split
    · exact .refl
    · next i _ => exact .of_eq (outline_unblock { x with holding := none } i)
  | notify _ | start _ | shutdown | emit _ _ | hold | «repeat» _ _ => simp [Call.isPlain] at hc

/-! ## sessions -/

theorem outline_built {i : Nat} {l : Loop} {pl : Plan} (hl : x.loop? i = some l)
    (hb : l.phase = .building) (ho : pl.outcome = .ready) :
    (x.built i pl).outline = x.outline.setLoop i { strand l with building := false } := by
  unfold built
  simp only [hl, ho]
  rw [outline_setLoop]
  simp only [strand, hb]
  rfl

/-- Where a task goes does not depend on the sessions. -/
theorem submitTo_withSession (x : Instance) (i : Nat) (t : Task) (d o : Option Nat)
    (ss : List Nat) :
    { (x.submitTo i t).2 with dispatcher := d, owned := o, sessions := ss } =
      ({ x with dispatcher := d, owned := o, sessions := ss }.submitTo i t).2 := by
  simp only [submitTo_eq]
  have hloop : ({ x with dispatcher := d, owned := o, sessions := ss } : Instance).loop? i =
      x.loop? i := rfl
  rw [hloop]
  cases x.loop? i with
  | none => rfl
  | some l =>
    simp only
    split <;> rfl

theorem sessions_submitTo (x : Instance) (i : Nat) (t : Task) :
    (x.submitTo i t).2.sessions = x.sessions := by
  rw [submitTo_eq]
  split
  · rfl
  · split <;> rfl

theorem ready_steps {pl : Plan} {i e : Nat} (hi : x.IsBuilding i e) (ho : pl.outcome = .ready) :
    Steps p x.outline ((x.built i pl).begin i e).outline := by
  obtain ⟨l, hl, hb, rfl⟩ := hi
  have hg : x.outline.loop? i = some (strand l) := by rw [loop?_outline, hl, Option.map_some]
  have hbuilt := outline_built hl hb ho
  have hmachine : (x.built i pl).machine = x.machine := congrArg Outline.machine hbuilt
  have hsessions : (x.built i pl).sessions = x.sessions := congrArg Outline.sessions hbuilt
  have hopen (y : Instance) (m : Machine) (ss : List Nat) (ent : Entry) :
      { { y with machine := m, frames := {} }.note ent with
        dispatcher := some i, owned := some i, sessions := ss }.outline =
      { y.outline.note ent with
        machine := m, dispatcher := some i, owned := some i, sessions := ss } := rfl
  have hbegin : ((x.built i pl).begin i l.engine).outline =
      x.outline.begin i (strand l) (x.built i pl).url := by
    unfold Instance.begin Outline.begin Outline.openSession
    simp only [sessions_submitTo]
    rw [submitTo_withSession, submitTo_withSession, outline_submitTo, outline_submitTo, hopen,
      hbuilt, hmachine, note, hsessions]
    rfl
  rw [hbegin]
  exact .single
    (.shift (.ready _ hg (by simp [strand, hb]) (by simp [strand, hb, Phase.isAlive])))

theorem fail_steps {pl : Plan} {i e : Nat} (hi : x.IsBuilding i e) (ho : pl.outcome ≠ .ready) :
    Steps p x.outline (x.built i pl).outline := by
  obtain ⟨l, hl, hb, rfl⟩ := hi
  have hg : x.outline.loop? i = some (strand l) := by rw [loop?_outline, hl, Option.map_some]
  have hbuilt : x.built i pl = x.setLoop i (l.finish .refused) := by
    unfold built
    rw [hl]
    cases hpl : pl.outcome with
    | ready => exact absurd hpl ho
    | _ => rfl
  rw [hbuilt, outline_setLoop]
  exact .single (.fail hg (by simp [strand, hb]))

theorem openLoop_steps (k : Kind) : Steps p x.outline (x.openLoop k).outline := by
  have hopen : (x.openLoop k).outline =
      Outline.note
        { x.outline with
          attempts := x.attempts + 1
          loops := x.outline.loops ++ [{ engine := x.attempts + 1 }] }
        (.created (x.attempts + 1) { x.settings with url := x.url }) := by
    simp only [openLoop, outline, Instance.note, Outline.note, List.map_append]
    rfl
  rw [hopen]
  exact Step.openLoop.steps.trans (.single (.quiet rfl))

theorem giveUp_steps {i : Nat} (hi : x.owned = some i) :
    Steps p x.outline (x.giveUp i).outline := by
  unfold giveUp
  rw [outline_closeLoop]
  exact .single (.shift (.giveUp hi))

/-! ## all changes -/

theorem Move.steps {y : Instance} (h : Move p x y) : Steps p x.outline y.outline := by
  cases h with
  | plain answer _ hc => exact plain_steps answer hc
  | @notify n hp =>
    cases n with
    | stateChanged s => exact .single (.shift (.notify hp))
    | _ => exact announce_steps x (by simp)
  | hear _ _ _ | answer _ _ _ => exact note_steps x rfl
  | choose name n =>
    unfold Instance.choose
    split
    · exact .refl
    · exact .refl
  | conclude k n => exact .single (.quiet rfl)
  | reject _ _ => exact .single .attempt
  | mark _ => exact .refl
  | openLoop _ _ => exact openLoop_steps _
  | prepare _ _ _ => exact (submitTo_steps x _ rfl).trans (note_steps _ rfl)
  | precede _ _ | emit _ | echo _ _ _ => exact raise_steps x _
  | post _ _ | hold _ _ => exact submitTo_steps x _ rfl
  | giveUp _ hi => exact giveUp_steps hi
  | stop hl hidle _ => exact endLoop_steps hl (.inl rfl) (by simp [hidle])
  | run hl hidle hq => exact run_steps hl hidle hq
  | rest i =>
    unfold restLoop
    cases hl : x.loop? i with
    | none => exact .refl
    | some l =>
      refine .of_eq (outline_setLoop_self hl ?_)
      unfold Loop.rest
      split
      · next hbusy => simp [strand, hbusy, Phase.isAlive]
      · rfl
  | tick i =>
    cases hl : x.loop? i with
    | none => simpa only [tickLoop, hl] using .refl
    | some l =>
      have hticker : (x.setLoop i { l with ticker := (l.tick x.now).2.ticker }).outline =
          x.outline := outline_setLoop_self hl rfl
      rw [tickLoop_eq hl, ← hticker]
      exact framesDisplayed_steps _ _
  | stall i =>
    unfold Instance.stall
    cases hl : x.loop? i with
    | none => exact .refl
    | some l =>
      simp only
      split
      · next hidle =>
        exact .of_eq (outline_setLoop_self hl (by simp [strand, hidle, Phase.isAlive]))
      · exact .refl
  | goOn i => exact .of_eq (outline_unblock x i)

/-- Every change of an instance is made of steps of its outline. -/
theorem Change.steps {y : Instance} (h : Change p x y) : Steps p x.outline y.outline := by
  cases h with
  | move h => exact h.steps
  | ready _ hi ho => exact ready_steps hi ho
  | fail _ hi ho => exact fail_steps hi ho

/-- What holds of the outline of a fresh instance, and is kept by every step,
holds after every schedule. -/
theorem outline_induction {P : Outline → Prop} {s : BrowserSettings}
    (hfresh : P (ofSettings s).outline) (hstep : ∀ o o', Step p o o' → P o → P o')
    {ts : List Turn} (hts : ∀ t ∈ ts, t.every p) : P ((ofSettings s).play ts).outline := by
  refine play_induction (P := fun x => P x.outline) hfresh (fun x y h hx => ?_) hts
  have hsteps : Steps p x.outline y.outline := h.steps
  generalize y.outline = o at hsteps
  induction hsteps with
  | refl => exact hx
  | tail _ hlast ih => exact hstep _ _ hlast ih

end

end BrowserHost.Instance
