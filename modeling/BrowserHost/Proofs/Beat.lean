import BrowserHost.Proofs.Outline

/-!
# BrowserHost.Proofs.Beat

The beats of an instance: the smallest things that happen to its machine, its
flag, its sessions, its queues and its journal.  Every change is some beats, one
after the other, and each beat touches little: it takes one message, queues one
task, closes one loop, or takes note of one decision.  Where an outline keeps
only what sessions need, a beat also tells how a loop ended and which call made
a decision.

* `Beat`: all the beats there are;
* `Change.beats`: every change is made of beats;
* `play_beats`: so is every schedule.
-/

namespace BrowserHost.Engine

/-- The phase of a loop once its task returns or it is released. -/
def Phase.rested : Phase → Phase
  | .busy | .held => .idle
  | phase => phase

end BrowserHost.Engine

namespace BrowserHost.Instance

open Engine Hub

/-! ## what beats are about -/

/-- Whether an entry says nothing about sessions, tasks, decisions or tellings. -/
def Entry.isAside : Entry → Bool
  | .navigated _ | .frame _ | .created .. | .submitted .. | .loaded .. | .viewed .. | .heard ..
  | .answered .. | .told .. => true
  | _ => false

/-- The command that a call requests. -/
def Call.command? : Call → Option Command
  | .suspend => some .suspend
  | .resume => some .resume
  | .request c => some c
  | _ => none

/-- Give a loop whose engine is ready a session. -/
def openSession (x : Instance) (i : Nat) (l : Loop) (ticker : Option Ticker) : Instance :=
  { (x.setLoop i { l with phase := .idle, ticker := ticker }).note
      (.began l.engine x.machine.begin.1) with
    machine := x.machine.begin.2
    frames := {}
    dispatcher := some i
    owned := some i
    sessions := x.sessions ++ [i] }

/-- End the session, before its loop is closed. -/
def endSession (x : Instance) (i : Nat) : Instance :=
  { x with owned := none, dispatcher := none, frames := {} }.note (.ended (x.engineOf i))

/-- Set the flag, before the task that shows it is queued. -/
def setFlag (x : Instance) (h : Bool) : Instance :=
  { x with hidden := h }.note (.flipped h)

/-- A loop takes a visibility task and sets the view. -/
def takeFlag (x : Instance) (i : Nat) (l : Loop) (h : Bool) (rest : List Message) (v : View) :
    Instance :=
  ((x.setLoop i { l with phase := .busy, queue := rest, view := v }).note
    (.ran l.engine (.visibility h))).note (.viewed l.engine v)

/-- A beat; calls satisfy `p`. -/
inductive Beat (p : Call → Bool) : Instance → Instance → Prop
  | note {x : Instance} {e : Entry} (he : e.isAside) : Beat p x (x.note e)
  /-- A telling begins; only a call tells of a flag out of turn. -/
  | tell {x : Instance} {n : Notice} (hn : ∀ h, n = .hidden h → p (.notify n)) :
    Beat p x (x.announce n)
  | aside {x : Instance} (url : String) (frames : FrameCounter) (hub : Hub)
    (observers : List Observer) (quiet tellings now : Nat) (holding : Option Nat) :
    Beat p x { x with
      url := url, frames := frames, hub := hub, observers := observers, quiet := quiet,
      tellings := tellings, holding := holding, now := now }
  /-- A loop goes on or waits, gets another view or moves its ticker. -/
  | touch {x : Instance} {i : Nat} {l : Loop} (hl : x.loop? i = some l) (phase : Phase) (v : View)
    (ticker : Option Ticker) (hphase : phase.rested = l.phase.rested) :
    Beat p x (x.setLoop i { l with phase := phase, view := v, ticker := ticker })
  | attempt {x : Instance} : Beat p x { x with attempts := x.attempts + 1 }
  | openLoop {x : Instance} (k : Kind) : Beat p x (x.openLoop k)
  | refuse {x : Instance} {i : Nat} {l : Loop} (hl : x.loop? i = some l)
    (hb : l.phase = .building) : Beat p x (x.setLoop i (l.finish .refused))
  | begin {x : Instance} {i : Nat} {l : Loop} {pl : Plan} (hp : p (.start pl))
    (ho : pl.outcome = .ready) (hl : x.loop? i = some l) (hb : l.phase = .building)
    (ticker : Option Ticker) : Beat p x (x.openSession i l ticker)
  | request {x : Instance} {call : Call} {c : Command} {t : Transition} {m : Machine}
    (hp : p call) (hc : call.command? = some c) (hm : x.machine.request c = .ok (t, m)) :
    Beat p x ({ x with machine := m }.note (.requested c t.next))
  | confirm {x : Instance} (s : State) : Beat p x { x with machine := (x.machine.confirm s).2 }
  | submit {x : Instance} {i : Nat} {t : Task} (ht : ∀ h, t ≠ .visibility h) :
    Beat p x (x.submitTo i t).2
  | hide {x : Instance} {i : Nat} {h : Bool} (hi : x.dispatcher = some i) (hh : x.hidden ≠ h) :
    Beat p x ((x.setFlag h).submitTo i (.visibility h)).2
  | giveUp {x : Instance} {i : Nat} (hi : x.owned = some i) :
    Beat p x ((x.endSession i).closeLoop i)
  | take {x : Instance} {i : Nat} {l : Loop} {t : Task} {rest : List Message}
    (hl : x.loop? i = some l) (hidle : l.phase = .idle) (hq : l.queue = .run t :: rest)
    (ht : ∀ h, t ≠ .visibility h) : Beat p x (x.take i l t rest)
  /-- A visibility task is told of as it runs. -/
  | takeFlag {x : Instance} {i : Nat} {l : Loop} {h : Bool} {rest : List Message}
    (hl : x.loop? i = some l) (hidle : l.phase = .idle)
    (hq : l.queue = .run (.visibility h) :: rest) (v : View) :
    Beat p x ((x.takeFlag i l h rest v).announce (.hidden h))
  | stop {x : Instance} {i : Nat} {l : Loop} {rest : List Message} (hl : x.loop? i = some l)
    (hidle : l.phase = .idle) (hq : l.queue = .stop :: rest) : Beat p x (x.endLoop i .stopped)
  /-- A task fails. -/
  | crash {x : Instance} {i : Nat} {l : Loop} (hl : x.loop? i = some l) (hbusy : l.phase = .busy) :
    Beat p x (x.endLoop i .crashed)

/-- Any number of beats. -/
abbrev Beats (p : Call → Bool) : Instance → Instance → Prop :=
  Relation.ReflTransGen (Beat p)

/-! ## reports and views -/

section

variable {p : Call → Bool} {x : Instance}

theorem Beats.of_eq {y : Instance} (h : y = x) : Beats p x y := by
  rw [h]

theorem Beat.beats {y : Instance} (h : Beat p x y) : Beats p x y :=
  .single h

theorem note_beats (x : Instance) {e : Entry} (he : e.isAside) : Beats p x (x.note e) :=
  .single (.note he)

theorem announce_beats (x : Instance) {n : Notice} (hn : ∀ h, n ≠ .hidden h) :
    Beats p x (x.announce n) :=
  .single (.tell fun h hh => absurd hh (hn h))

theorem setUrlOnly_beats (x : Instance) (url : String) : Beats p x { x with url := url } :=
  .single (.aside url _ _ _ _ _ _ _)

theorem framesDisplayed_beats (n : Nat) (x : Instance) : Beats p x (framesDisplayed n x) := by
  induction n generalizing x with
  | zero => exact .refl
  | succ n ih =>
    have hfirst : Beats p x x.frameDisplayed := by
      unfold frameDisplayed
      split
      · have hframes : Beats p x { x with frames := (x.frames.frame x.now).2 } :=
          .single (.aside _ _ _ _ _ _ _ _)
        exact hframes.trans (note_beats _ rfl)
      · exact .refl
    exact hfirst.trans (ih _)

theorem raise_beats (x : Instance) (r : Report) : Beats p x (x.raise r) := by
  cases r with
  | urlChanged u => exact (setUrlOnly_beats x u).trans (announce_beats _ (by simp))
  | loadFinished u => exact (setUrlOnly_beats x u).trans (announce_beats _ (by simp))
  | closureRequested => exact announce_beats x (by simp)
  | frames n => exact framesDisplayed_beats n x

theorem setView_beats (x : Instance) (i : Nat) (v : View) : Beats p x (x.setView i v) := by
  unfold setView
  split
  · exact .refl
  · next l hl => exact (Beat.touch hl l.phase v l.ticker rfl).beats.trans (note_beats _ rfl)

theorem submit_beats (x : Instance) {t : Task} (ht : ∀ h, t ≠ .visibility h) :
    Beats p x (x.submit t).2 := by
  unfold submit
  split
  · exact .refl
  · exact .single (.submit ht)

theorem settleOn_beats (x : Instance) (s : State) : Beats p x (x.settleOn s) := by
  unfold settleOn
  have hconfirm : Beats p x { x with machine := (x.machine.confirm s).2 } := .single (.confirm s)
  simp only
  split
  · exact hconfirm.trans (announce_beats _ (by simp))
  · exact hconfirm

/-! ## what a task does -/

theorem endLoop_eq {i : Nat} {l : Loop} (hl : x.loop? i = some l) (phase : Phase) :
    x.endLoop i phase = (x.setLoop i (l.finish phase)).note (.dropped l.engine) := by
  simp only [endLoop, hl]

theorem loop?_endLoop {i : Nat} {l : Loop} (hl : x.loop? i = some l) (phase : Phase) :
    (x.endLoop i phase).loop? i = some (l.finish phase) := by
  rw [endLoop_eq hl]
  have hset := loop?_setLoop hl (l.finish phase) i
  rwa [if_pos rfl] at hset

theorem arrive_beats {i : Nat} {l : Loop} (hl : x.loop? i = some l) (hb : l.phase = .busy)
    (u : String) : Beats p x (x.arrive i u) := by
  unfold arrive
  rw [hl]
  have hnote : Beats p x (x.note (.loaded l.engine u)) := note_beats x rfl
  have hloop : (x.note (.loaded l.engine u)).loop? i = some l := hl
  simp only
  split
  · exact hnote.tail (.crash hloop hb)
  · exact hnote

theorem block_beats {i : Nat} {l : Loop} (hl : x.loop? i = some l) (hb : l.phase = .busy) :
    Beats p x (x.block i) := by
  unfold block
  rw [hl]
  exact .single (.touch hl .held l.view l.ticker (by rw [hb]; rfl))

theorem takeFlag_eq {i : Nat} {l : Loop} (hl : x.loop? i = some l) (h : Bool)
    (rest : List Message) (v : View) :
    x.takeFlag i l h rest v = (x.take i l (.visibility h) rest).setView i v := by
  rw [setView_take hl]
  rfl

theorem run_beats {i : Nat} {l : Loop} {t : Task} {rest : List Message} (hl : x.loop? i = some l)
    (hidle : l.phase = .idle) (hq : l.queue = .run t :: rest) :
    Beats p x ((x.take i l t rest).effect i t) := by
  have hloop : (x.take i l t rest).loop? i = some { l with phase := .busy, queue := rest } := by
    rw [loop?_take hl, if_pos rfl]
  have htake (ht : ∀ h, t ≠ .visibility h) : Beats p x (x.take i l t rest) :=
    .single (.take hl hidle hq ht)
  match t with
  | .work (.load u) => exact (htake (by simp)).trans (arrive_beats hloop rfl u)
  | .work (.view v) => exact (htake (by simp)).trans (setView_beats _ i v)
  | .lifecycle s =>
    exact (htake (by simp)).trans ((setView_beats _ i _).trans (settleOn_beats _ s))
  | .visibility h =>
    simp only [effect, ← takeFlag_eq hl]
    exact .single (.takeFlag hl hidle hq _)
  | .report r => exact (htake (by simp)).trans (raise_beats _ r)
  | .block => exact (htake (by simp)).trans (block_beats hloop rfl)

/-! ## what callers do -/

theorem register_beats (x : Instance) (role : Role) (o : ObserverId) :
    Beats p x (x.register role o).2 := by
  unfold register
  split
  · split
    · exact .single (.aside _ _ _ _ _ _ _ _)
    · exact .refl
  · exact .refl

theorem unregister_beats (x : Instance) (role : Role) (o : ObserverId) :
    Beats p x (x.unregister role o).2 := by
  unfold unregister
  split
  · split
    · exact .single (.aside _ _ _ _ _ _ _ _)
    · exact .refl
  · exact .refl

theorem mention_beats (x : Instance) (name : String) (rs : List Reaction) :
    Beats p x (x.mention name rs) := by
  unfold mention
  split
  · exact .refl
  · exact .single (.aside _ _ _ _ _ _ _ _)

theorem request_beats {c : Call} {cmd : Command} (hp : p c) (hc : c.command? = some cmd) :
    Beats p x (x.request cmd).2 := by
  unfold request
  cases hm : x.machine.request cmd with
  | error e => exact .refl
  | ok r =>
    have hgrant := (Beat.request hp hc hm).beats
    simp only
    split
    · exact hgrant.trans (submit_beats _ (by simp))
    · exact hgrant

theorem hide_beats (x : Instance) (h : Bool) : Beats p x (x.hide h) := by
  unfold hide
  split
  · exact .refl
  · next hflip =>
    simp only [Bool.or_eq_true, Option.isNone_iff_eq_none, beq_iff_eq, not_or] at hflip
    obtain ⟨i, hi⟩ := Option.ne_none_iff_exists'.1 hflip.1
    have hbeat : Beat p x ((x.setFlag h).submitTo i (.visibility h)).2 := .hide hi hflip.2
    simpa only [submit, setFlag, note, hi] using hbeat.beats

theorem unblock_beats (x : Instance) (i : Nat) : Beats p x (x.unblock i) := by
  unfold unblock
  split
  · exact .refl
  · next l hl =>
    split
    · next hheld => exact .single (.touch hl .idle l.view l.ticker (by rw [hheld]; rfl))
    · exact .refl

theorem plain_beats {c : Call} (answer : Caller) (hp : c.every p) (hc : c.isPlain) :
    Beats p x (performWith answer c x).2 := by
  cases c with
  | register role name rs => exact (mention_beats x name rs).trans (register_beats _ _ _)
  | registerQuiet =>
    have hquiet : Beats p x { x with quiet := x.quiet + 1 } := .single (.aside _ _ _ _ _ _ _ _)
    exact hquiet.trans (register_beats _ _ _)
  | unregister role name rs => exact (mention_beats x name rs).trans (unregister_beats _ _ _)
  | subscribe id =>
    simp only [performWith, subscribe]
    split
    · exact .single (.aside _ _ _ _ _ _ _ _)
    · exact .refl
  | dropHub | unsubscribe id | receive id n | advance ns => exact .single (.aside _ _ _ _ _ _ _ _)
  | isClosed k | settings | read => exact .refl
  | suspend | resume | request c => exact request_beats hp rfl
  | setUrl url =>
    have hurl := (setUrlOnly_beats (p := p) x url).trans (note_beats _ (e := .navigated url) rfl)
    exact hurl.trans (submit_beats _ (by simp))
  | hide h => exact hide_beats x h
  | dispatch w => exact submit_beats x (by simp)
  | submit k w =>
    simp only [performWith, submitWork]
    split
    · exact .refl
    · exact .single (.submit (by simp))
  | release =>
    simp only [performWith, release]
    split
    · exact .refl
    · have hmark : Beats p x { x with holding := none } := .single (.aside _ _ _ _ _ _ _ _)
      exact hmark.trans (unblock_beats _ _)
  | notify _ | start _ | shutdown | emit _ _ | hold | «repeat» _ _ => simp [Call.isPlain] at hc

/-! ## sessions -/

/-- A session is opened, its first tasks are queued. -/
theorem begin_built {i : Nat} {l : Loop} {pl : Plan} (hl : x.loop? i = some l)
    (ho : pl.outcome = .ready) :
    ∃ ticker, (x.built i pl).begin i l.engine =
      (((x.openSession i l ticker).submitTo i (.work (.load x.url))).2.submitTo i
        (.lifecycle x.machine.begin.1)).2 := by
  refine ⟨if pl.kind.ticks then Ticker.ofRate? x.now x.settings.maxFps.toNat else none, ?_⟩
  simp only [built, hl, ho]
  unfold Instance.begin
  simp only [sessions_submitTo]
  rw [submitTo_withSession, submitTo_withSession]
  rfl

theorem ready_beats {pl : Plan} {i e : Nat} (hp : p (.start pl)) (hi : x.IsBuilding i e)
    (ho : pl.outcome = .ready) : Beats p x ((x.built i pl).begin i e) := by
  obtain ⟨l, hl, hb, rfl⟩ := hi
  obtain ⟨ticker, hbegin⟩ := begin_built hl ho
  rw [hbegin]
  have hopen := (Beat.begin hp ho hl hb ticker).beats
  exact (hopen.tail (.submit (by simp))).tail (.submit (by simp))

theorem fail_beats {pl : Plan} {i e : Nat} (hi : x.IsBuilding i e) (ho : pl.outcome ≠ .ready) :
    Beats p x (x.built i pl) := by
  obtain ⟨l, hl, hb, rfl⟩ := hi
  have hbuilt : x.built i pl = x.setLoop i (l.finish .refused) := by
    unfold built
    rw [hl]
    cases hpl : pl.outcome with
    | ready => exact absurd hpl ho
    | _ => rfl
  rw [hbuilt]
  exact .single (.refuse hl hb)

/-! ## the journal -/

/-- No entry of the journal is lost. -/
theorem Beat.journal {y : Instance} (h : Beat p x y) : x.journal <:+ y.journal := by
  have hsubmit (z : Instance) (i : Nat) (t : Task) : z.journal <:+ (z.submitTo i t).2.journal :=
    (submitTo_extends (p := p) z i t).journal
  cases h with
  | note _ | tell _ | openLoop _ | begin _ _ _ _ _ | request _ _ _ | take _ _ _ _ =>
    exact List.suffix_cons _ _
  | aside _ _ _ _ _ _ _ _ | touch _ _ _ _ _ | attempt | refuse _ _ | confirm _ =>
    exact List.suffix_rfl
  | submit _ => exact hsubmit x _ _
  | @hide i h _ _ =>
    have hflip : x.journal <:+ (x.setFlag h).journal := List.suffix_cons _ _
    exact hflip.trans (hsubmit _ i _)
  | @giveUp i _ =>
    have hend : x.journal <:+ (x.endSession i).journal := List.suffix_cons _ _
    exact hend.trans (closeLoop_extends (p := p) _ i).journal
  | takeFlag _ _ _ _ => exact ⟨[_, _, _], rfl⟩
  | stop hl _ _ | crash hl _ =>
    rw [endLoop_eq hl]
    exact List.suffix_cons _ _

/-! ## all changes -/

theorem Move.beats {y : Instance} (h : Move p x y) : Beats p x y := by
  cases h with
  | plain answer hp hc => exact plain_beats answer hp hc
  | notify hp => exact .single (.tell fun _ _ => hp)
  | hear _ _ _ | answer _ _ _ => exact note_beats x rfl
  | choose name n =>
    unfold Instance.choose
    split
    · exact .refl
    · exact .single (.aside _ _ _ _ _ _ _ _)
  | conclude k n =>
    have hpublish : Beats p x { x with hub := x.hub.publish n } := .single (.aside _ _ _ _ _ _ _ _)
    exact hpublish.trans (note_beats _ rfl)
  | reject _ _ => exact .single .attempt
  | mark _ => exact .single (.aside _ _ _ _ _ _ _ _)
  | openLoop _ _ => exact .single (.openLoop _)
  | prepare _ _ _ => exact (Beat.submit (by simp)).beats.trans (note_beats _ rfl)
  | precede _ _ | emit _ | echo _ _ _ => exact raise_beats x _
  | post _ _ | hold _ _ => exact .single (.submit (by simp))
  | giveUp _ hi => exact .single (.giveUp hi)
  | stop hl hidle hq => exact .single (.stop hl hidle hq)
  | run hl hidle hq => exact run_beats hl hidle hq
  | rest i =>
    unfold restLoop
    cases hl : x.loop? i with
    | none => exact .refl
    | some l =>
      simp only
      unfold Loop.rest
      split
      · next hbusy => exact .single (.touch hl .idle l.view l.ticker (by rw [hbusy]; rfl))
      · exact .single (.touch hl l.phase l.view l.ticker rfl)
  | tick i =>
    cases hl : x.loop? i with
    | none => simpa only [tickLoop, hl] using .refl
    | some l =>
      rw [tickLoop_eq hl]
      exact (Beat.touch hl l.phase l.view _ rfl).beats.trans (framesDisplayed_beats _ _)
  | stall i =>
    unfold Instance.stall
    cases hl : x.loop? i with
    | none => exact .refl
    | some l =>
      simp only
      split
      · next hidle => exact .single (.touch hl .held l.view l.ticker (by rw [hidle]; rfl))
      · exact .refl
  | goOn i => exact unblock_beats x i

/-- Every change of an instance is made of beats. -/
theorem Change.beats {y : Instance} (h : Change p x y) : Beats p x y := by
  cases h with
  | move h => exact h.beats
  | ready hp hi ho => exact ready_beats hp hi ho
  | fail _ hi ho => exact fail_beats hi ho

theorem Changes.beats {y : Instance} (h : Changes p x y) : Beats p x y := by
  induction h with
  | refl => exact .refl
  | tail _ hlast ih => exact ih.trans hlast.beats

/-- Every schedule is made of beats. -/
theorem play_beats {ts : List Turn} (hts : ∀ t ∈ ts, t.every p) (hx : x.Obeys p) :
    Beats p x (x.play ts) :=
  (play_changes hts hx).beats

end

end BrowserHost.Instance
