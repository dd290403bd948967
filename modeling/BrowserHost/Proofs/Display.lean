import BrowserHost.Proofs.Stillness

/-!
# BrowserHost.Proofs.Display

When frames are displayed.  Sessions run one after the other on headless engines,
and callers leave frames and views to these.  Then the engine of a session that
has nothing left to run displays a frame at every tick if the session is resumed
and not hidden, and none at all if it is not.

* `tickLoop_eq_frames`: all that a tick does;
* `Change.tended`: tickers are steady, and nothing is displayed before the first
  lifecycle task;
* `Change.dark`: nothing is displayed while a drained session does not show;
* `Drained.play_waits`: all that happens while everyone waits;
* `frames_follow_view`: so frames are displayed as the state and the flag say.
-/

namespace BrowserHost.Instance

open Engine Hub Outline

/-! ## what a tick does -/

section

variable {x : Instance} {i : Nat} {l : Loop}

/-- Frames leave everything but the counter and the journal. -/
theorem framesDisplayed_eq (n : Nat) (x : Instance) :
    ∃ f, framesDisplayed n x = { x with
      frames := f
      journal := (if x.settings.fpsSampling then List.replicate n (.frame x.now) else []) ++
        x.journal } := by
  induction n generalizing x with
  | zero => exact ⟨x.frames, by simp [framesDisplayed]⟩
  | succ n ih =>
    obtain ⟨f, hf⟩ := ih x.frameDisplayed
    refine ⟨f, ?_⟩
    rw [framesDisplayed, hf]
    by_cases hs : x.settings.fpsSampling
    · have hone : x.frameDisplayed =
          { x with frames := (x.frames.frame x.now).2 }.note (.frame x.now) := if_pos hs
      rw [hone]
      simp only [note, hs, if_true, List.replicate_succ', List.append_assoc]
      rfl
    · have hnone : x.frameDisplayed = x := if_neg hs
      rw [hnone]
      simp only [hs, if_false, Bool.false_eq_true]

/-- All that the ticks of a loop do. -/
theorem tickLoop_eq_frames (hl : x.loop? i = some l) :
    ∃ f, x.tickLoop i = { x.setLoop i { l with ticker := (l.tick x.now).2.ticker } with
      frames := f
      journal := (if x.settings.fpsSampling
        then List.replicate (l.tick x.now).1 (.frame x.now) else []) ++ x.journal } := by
  rw [tickLoop_eq hl]
  exact framesDisplayed_eq _ _

/-- A loop without an engine takes no ticks. -/
theorem tickLoop_of_not_isUp (hl : x.loop? i = some l) (h : ¬l.IsUp) : x.tickLoop i = x := by
  simp only [tickLoop, hl, Loop.tick_of_not_isUp h, framesDisplayed, setLoop_self hl]

end

/-! ## tickers -/

/-- The period of the tickers of headless engines. -/
def framePeriod (s : BrowserSettings) : Nat :=
  Nat.pow 10 9 / max s.maxFps.toNat 1

/-- Engines tick at the rate of the settings, no loop has accepted anything that
displays something besides, and the session has displayed nothing before its
first lifecycle task. -/
structure Ticking (s : BrowserSettings) (x : Instance) : Prop where
  settings : x.settings = s
  clean : ∀ e t, .queued e t ∈ x.journal → t.displays = false
  tickers : ∀ i l, x.loop? i = some l → l.IsUp →
    ∃ t, l.ticker = some t ∧ t.IsSteady (framePeriod s)
  silent : isDriven x.journal = false → sessionFrames x.journal = []

section

variable {s : BrowserSettings} {x y : Instance}

theorem framePeriod_pos (hrate : s.maxFps.toNat ≤ Nat.pow 10 9) : 0 < framePeriod s := by
  have hone : 1 ≤ Nat.pow 10 9 := Nat.pow_pos (by decide)
  exact Nat.div_pos (Nat.max_le.2 ⟨hrate, hone⟩) (by omega)

/-- A session that has run no lifecycle task had run none before. -/
theorem isDriven_append {es : List Entry} (hes : ∀ e ∈ es, e.isBegin = false) {j : List Entry}
    (h : isDriven (es ++ j) = false) : isDriven j = false := by
  induction es with
  | nil => exact h
  | cons e es ih =>
    refine ih (fun d hd => hes d (List.mem_cons_of_mem e hd)) ?_
    have hfirst := hes e List.mem_cons_self
    match e with
    | .began .. => cases hfirst
    | .ran _ (.lifecycle _) => exact (Bool.or_eq_false_iff.1 h).2
    | .ran _ (.work _) | .ran _ (.visibility _) | .ran _ (.report _) | .ran _ .block
    | .requested .. | .ended _ | .navigated _ | .flipped _ | .frame _ | .queued ..
    | .created .. | .submitted .. | .loaded .. | .viewed .. | .dropped _ | .telling ..
    | .heard .. | .answered .. | .told .. => exact h

theorem ticking_ofSettings (s : BrowserSettings) : Ticking s (ofSettings s) :=
  ⟨rfl, nofun, fun i l hl => by simp [loop?, ofSettings] at hl, fun _ => rfl⟩

theorem Ticking.still (hx : Ticking s x) (h : Still x y) : Ticking s y where
  settings := h.settings.trans hx.settings
  clean e t hmem := by
    obtain ⟨es, hj, hes⟩ := h.journal
    rw [hj] at hmem
    refine (List.mem_append.1 hmem).elim (fun hnew => ?_) (hx.clean e t)
    simpa [Entry.isStill] using hes _ hnew
  tickers i l hl hup := by
    obtain ⟨l', hl', hup', ht⟩ := h.loop i l hl hup
    rw [ht]
    exact hx.tickers i l' hl' hup'
  silent hnot := by
    rw [h.sessionFrames]
    obtain ⟨es, hj, hes⟩ := h.journal
    rw [hj] at hnot
    refine hx.silent (isDriven_append (fun e he => ?_) hnot)
    have hstill := hes e he
    cases e with
    | began _ _ => cases hstill
    | _ => rfl

/-- An engine that is made gets a steady ticker, and an engine that is not gets
none. -/
theorem Ticking.built (hx : Ticking s x) (hrate : s.maxFps.toNat ≤ Nat.pow 10 9) (i : Nat)
    {pl : Plan} (hpl : Call.leavesDisplay (.start pl)) : Ticking s (x.built i pl) := by
  have hkind : pl.kind = .headless := by
    simp only [Call.leavesDisplay, Bool.and_eq_true, beq_iff_eq] at hpl
    exact hpl.1
  unfold Instance.built
  split
  · exact hx
  · next l hl =>
    split
    · refine ⟨hx.settings, hx.clean, fun k m hm hup => ?_, hx.silent⟩
      rcases setLoop_cases hl hm with ⟨rfl, rfl⟩ | ⟨-, hm⟩
      · simp only [hkind, Kind.ticks, if_true, hx.settings]
        exact Ticker.isSteady_ofRate? hrate
      · exact hx.tickers k m hm hup
    · exact hx.still (.setLoop hl fun hup => absurd hup (not_isUp_finish l rfl))
    · exact hx.still (.setLoop hl fun hup => absurd hup (not_isUp_finish l rfl))

/-- A session begins with a load and a lifecycle task. -/
theorem begin_still (x : Instance) (i e : Nat) :
    Still ({ x with machine := x.machine.begin.2, frames := {} }.note
      (.began e x.machine.begin.1)) (x.begin i e) := by
  let began : Instance :=
    { x with machine := x.machine.begin.2, frames := {} }.note (.began e x.machine.begin.1)
  let loading := (began.submitTo i (.work (.load x.url))).2
  have hqueued : Still began (loading.submitTo i (.lifecycle x.machine.begin.1)).2 :=
    (submitTo_still began i rfl).trans (submitTo_still loading i rfl)
  exact hqueued.trans (.frame [] rfl rfl rfl (by simp))

theorem Ticking.begin (hx : Ticking s x) (i e : Nat) : Ticking s (x.begin i e) := by
  refine Ticking.still ?_ (begin_still x i e)
  refine ⟨hx.settings, fun d t hmem => ?_, hx.tickers, fun _ => rfl⟩
  exact hx.clean d t ((List.mem_cons.1 hmem).resolve_left nofun)

theorem Ticking.secluded (hx : Ticking s x) (h : Whenever Entry.isBegin AllDropped x.journal) :
    Secluded x.journal := by
  refine ⟨h, fun e he => ?_⟩
  match e with
  | .queued d (.work (.view v)) => cases hx.clean d _ he
  | .queued _ (.work (.load _)) | .queued _ (.lifecycle _) | .queued _ (.visibility _)
  | .queued _ (.report _) | .queued _ .block | .requested .. | .began .. | .ended _
  | .navigated _ | .flipped _ | .frame _ | .ran .. | .created .. | .submitted .. | .loaded ..
  | .viewed .. | .dropped _ | .telling .. | .heard .. | .answered .. | .told .. => rfl

/-- No queue holds anything to display. -/
theorem Ticking.queues (hx : Ticking s x) (hsolitary : Solitary x.outline) (i : Nat) (l : Loop)
    (t : Task) (hl : x.loop? i = some l) (ht : .run t ∈ l.queue) : t.displays = false :=
  hx.clean _ t (hsolitary.recorded i _ t (loop?_outline_of_loop? hl) ht)

/-- An engine that ticks before the first lifecycle task shows nothing yet. -/
theorem Ticking.tickLoop (hx : Ticking s x) (hrate : s.maxFps.toNat ≤ Nat.pow 10 9)
    (hsolitary : Solitary x.outline) (i : Nat) : Ticking s (x.tickLoop i) := by
  cases hl : x.loop? i with
  | none => simpa only [Instance.tickLoop, hl] using hx
  | some l =>
    by_cases hup : l.IsUp
    · obtain ⟨f, hf⟩ := tickLoop_eq_frames hl
      rw [hf]
      refine ⟨hx.settings, fun e t hmem => hx.clean e t ?_, fun k m hm hup' => ?_, fun hnot => ?_⟩
      · refine (List.mem_append.1 hmem).resolve_left fun hnew => ?_
        split at hnew <;> simp at hnew
      · rcases setLoop_cases hl hm with ⟨rfl, rfl⟩ | ⟨-, hm⟩
        · obtain ⟨t, ht, hsteady⟩ := hx.tickers i l hl hup
          exact Loop.tick_isSteady ht hsteady (framePeriod_pos hrate) x.now
        · exact hx.tickers k m hm hup'
      · have hbefore : isDriven x.journal = false := by
          refine isDriven_append (fun e he => ?_) hnot
          split at he
          · rw [List.eq_of_mem_replicate he]
            rfl
          · cases he
        have hview := hsolitary.view_of_undriven hl hup hbefore
        have hnone : (l.tick x.now).1 = 0 := by simp [Loop.tick_fst, hview]
        simpa [hnone] using hx.silent hbefore
    · rwa [tickLoop_of_not_isUp hl hup]

theorem Change.ticking (h : Change Call.leavesDisplay x y)
    (hrate : s.maxFps.toNat ≤ Nat.pow 10 9) (hsolitary : Solitary x.outline)
    (hx : Ticking s x) : Ticking s y := by
  cases h with
  | move h =>
    rcases h.still (hx.queues hsolitary) with hstill | ⟨i, rfl⟩
    · exact hx.still hstill
    · exact hx.tickLoop hrate hsolitary i
  | ready hp _ _ => exact (hx.built hrate _ hp).begin _ _
  | fail hp _ _ => exact hx.built hrate _ hp

/-- What holds at every moment of a run of such sessions, one after the other. -/
structure Tended (s : BrowserSettings) (x : Instance) : Prop where
  sampled : Sampled s x
  ticking : Ticking s x
  solitary : Solitary x.outline
  alone : Whenever Entry.isBegin AllDropped x.journal

theorem Change.tended (h : Change Call.leavesDisplay x y)
    (hrate : s.maxFps.toNat ≤ Nat.pow 10 9) (hx : Tended s x)
    (halone : Whenever Entry.isBegin AllDropped y.journal) : Tended s y := by
  have hticking := h.ticking hrate hx.solitary hx.ticking
  have hsolitary := h.steps.solitary (hticking.secluded halone) hx.solitary
  exact ⟨h.sampled hx.sampled, hticking, hsolitary, halone⟩

theorem Changes.tended (h : Changes Call.leavesDisplay (ofSettings s) x)
    (hrate : s.maxFps.toNat ≤ Nat.pow 10 9)
    (halone : Whenever Entry.isBegin AllDropped x.journal) : Tended s x := by
  induction h with
  | refl =>
    exact ⟨sampled_ofSettings s, ticking_ofSettings s, solitary_ofSettings s, trivial⟩
  | tail _ hlast ih =>
    obtain ⟨b, hb⟩ := hlast.extends
    exact hlast.tended hrate (ih (halone.of_suffix hb.journal)) halone

end

/-! ## drained sessions -/

/-- Whether the session is to show: it is resumed, and not hidden. -/
def Shows (x : Instance) : Prop :=
  x.status.state = .resumed ∧ x.status.hidden = false

instance (x : Instance) : Decidable x.Shows :=
  inferInstanceAs (Decidable (_ ∧ _))

section

variable {s : BrowserSettings} {x y : Instance} {i : Nat} {l : Loop}

namespace Drained

theorem latest (hd : x.Drained i l) (hx : Solitary x.outline) : x.sessions.getLast? = some i :=
  hx.orderly.current i hd.dispatcher

/-- Its engine ticks as the state and the flag say. -/
theorem tick_fst (hd : x.Drained i l) (hx : Solitary x.outline) :
    (l.tick x.now).1 = if x.Shows then l.ticks x.now else 0 := by
  have hview : (l.view.visible && l.view.inWindow) = decide x.Shows := by
    rw [hx.view_of_drained hd, View.of]
    by_cases hstate : x.machine.requested = .resumed <;> cases hhidden : x.hidden <;>
      simp [Shows, status, hstate, hhidden]
  simp only [Loop.tick_fst, hview, decide_eq_true_eq]

/-- All that its ticks do. -/
theorem tickLoop_eq (hd : x.Drained i l) (hx : Solitary x.outline)
    (hs : x.settings.fpsSampling) :
    ∃ f, x.tickLoop i = { x.setLoop i (l.tick x.now).2 with
      frames := f
      journal := List.replicate (if x.Shows then l.ticks x.now else 0) (.frame x.now) ++
        x.journal } := by
  obtain ⟨f, hf⟩ := tickLoop_eq_frames hd.loop
  rw [if_pos hs, hd.tick_fst hx, ← Loop.tick_snd] at hf
  exact ⟨f, hf⟩

/-- No other loop has an engine. -/
theorem tickLoop_other (hd : x.Drained i l) (hx : Solitary x.outline) {k : Nat} (hki : k ≠ i) :
    x.tickLoop k = x := by
  cases hm : x.loop? k with
  | none => simp only [tickLoop, hm]
  | some m =>
    refine tickLoop_of_not_isUp hm fun hup => hki ?_
    exact Option.some.inj ((hx.latest_of_isUp hm hup).symm.trans (hd.latest hx))

/-- No other session begins. -/
theorem not_allDropped (hd : x.Drained i l) (hx : Solitary x.outline) :
    ¬AllDropped x.journal := by
  intro hnone
  have hg := loop?_outline_of_loop? hd.loop
  obtain ⟨t, hbegan⟩ := began_of_latest (hx.orderly.latest i _ (hd.latest hx) hg)
  exact (hx.lone.fits i _ hg).kept hd.alive (hnone _ t hbegan)

end Drained

/-! ## while a drained session does not show -/

/-- The session has nothing left to run, and does not show. -/
def IsDark (x : Instance) : Prop :=
  ¬x.Shows ∧ ∃ i l, x.Drained i l

/-- Changes each of which finds a drained session that does not show. -/
abbrev DarkChanges : Instance → Instance → Prop :=
  Relation.ReflTransGen fun x y => x.IsDark ∧ Change Call.leavesDisplay x y

theorem journal_built (x : Instance) (i : Nat) (pl : Plan) :
    (x.built i pl).journal = x.journal := by
  unfold built
  split
  · rfl
  · split <;> rfl

/-- Nothing is displayed. -/
theorem Change.dark (h : Change Call.leavesDisplay x y) (hx : Tended s x) (hdark : x.IsDark)
    (halone : Whenever Entry.isBegin AllDropped y.journal) :
    frameTimes y.journal = frameTimes x.journal ∧
      sessionFrames y.journal = sessionFrames x.journal := by
  obtain ⟨hnot, i, l, hd⟩ := hdark
  cases h with
  | move h =>
    rcases h.still (hx.ticking.queues hx.solitary) with hstill | ⟨k, rfl⟩
    · exact ⟨hstill.frameTimes, hstill.sessionFrames⟩
    · by_cases hki : k = i
      · have hnone : (l.tick x.now).1 = 0 := (hd.tick_fst hx.solitary).trans (if_neg hnot)
        obtain ⟨f, hf⟩ := tickLoop_eq_frames hd.loop
        rw [hki, hf]
        simp [hnone]
      · rw [hd.tickLoop_other hx.solitary hki]
        exact ⟨rfl, rfl⟩
  | @ready pl k e _ _ _ =>
    -- the engine of the drained session is still there
    obtain ⟨es, hj, -⟩ := (begin_still (x.built k pl) k e).journal
    have hbegan := halone.of_suffix ⟨es, hj.symm⟩
    exact absurd (journal_built x k pl ▸ hbegan.1 rfl) (hd.not_allDropped hx.solitary)
  | fail _ _ _ =>
    rw [journal_built]
    exact ⟨rfl, rfl⟩

theorem DarkChanges.tended (h : DarkChanges x y) (hrate : s.maxFps.toNat ≤ Nat.pow 10 9)
    (hx : Tended s x) (halone : Whenever Entry.isBegin AllDropped y.journal) :
    Tended s y ∧ frameTimes y.journal = frameTimes x.journal ∧
      sessionFrames y.journal = sessionFrames x.journal := by
  induction h with
  | refl => exact ⟨hx, rfl, rfl⟩
  | tail _ hlast ih =>
    obtain ⟨hdark, hchange⟩ := hlast
    obtain ⟨b, hb⟩ := hchange.extends
    obtain ⟨hy, hframes, hsession⟩ := ih (halone.of_suffix hb.journal)
    have hkept := hchange.dark hy hdark halone
    exact ⟨hchange.tended hrate hy halone, hkept.1.trans hframes, hkept.2.trans hsession⟩

/-- The frames of the session are all that its rate depends on. -/
theorem Tended.fps_eq (hx : Tended s x) (hy : Tended s y) (hrunning : x.status.running)
    (hrunning' : y.status.running) (h : sessionFrames y.journal = sessionFrames x.journal) :
    y.status.fps = x.status.fps := by
  have hframes : y.frames = x.frames := by
    rw [hx.sampled.frames hrunning, hy.sampled.frames hrunning', h]
  have hd : x.dispatcher.isSome = y.dispatcher.isSome := hrunning.trans hrunning'.symm
  simp only [status, fps, hframes, hx.sampled.settings, hy.sampled.settings, hd]

/-! ## while everyone waits -/

/-- Whether nothing happens in a turn but that time passes or ticks are taken. -/
def Turn.waits : Turn → Bool
  | .call (.advance _) | .tick _ => true
  | _ => false

/-- The times at which loop `i`, being as given, takes ticks in turns that begin
at the given time; the latest first. -/
def ticksOver (i : Nat) : Loop → Nat → List Turn → List Nat
  | _, _, [] => []
  | l, now, .call (.advance n) :: us => ticksOver i l (now + n) us
  | l, now, .tick k :: us =>
    if k = i then ticksOver i (l.tick now).2 now us ++ List.replicate (l.ticks now) now
    else ticksOver i l now us
  | l, now, _ :: us => ticksOver i l now us

/-- The turn of a caller who lets time pass. -/
theorem turn_advance (x : Instance) (n : Nat) :
    x.turn (.call (.advance n)) = { x with now := x.now + n } := by
  obtain ⟨answer, hanswer⟩ := call_eq (.advance n) x
  simp only [turn, hanswer]
  rfl

theorem frameTimes_map (ts : List Nat) (j : List Entry) :
    frameTimes (ts.map .frame ++ j) = ts ++ frameTimes j := by
  have hall : (Entry.frame? ∘ Entry.frame) = some := rfl
  simp only [frameTimes, List.filterMap_append, List.filterMap_map, hall, List.filterMap_some]

/-- That frames are displayed is no matter to the beginnings of sessions. -/
theorem whenever_isBegin_frames {P : List Entry → Prop} {j : List Entry}
    (h : Whenever Entry.isBegin P j) (n t : Nat) :
    Whenever Entry.isBegin P (List.replicate n (.frame t) ++ j) := by
  induction n with
  | zero => exact h
  | succ n ih => exact ⟨nofun, ih⟩

/-- A drained session stays so when its loop takes ticks. -/
theorem Drained.tick (hs : s.fpsSampling) (hrate : s.maxFps.toNat ≤ Nat.pow 10 9)
    (hx : Tended s x) (hd : x.Drained i l) :
    Tended s (x.tickLoop i) ∧ (x.tickLoop i).Drained i (l.tick x.now).2 ∧
      ((x.tickLoop i).Shows ↔ x.Shows) ∧ (x.tickLoop i).now = x.now ∧
      (x.tickLoop i).journal =
        List.replicate (if x.Shows then l.ticks x.now else 0) (.frame x.now) ++ x.journal := by
  have hchange : Change Call.leavesDisplay x (x.tickLoop i) := .move (.tick i)
  obtain ⟨f, hf⟩ := hd.tickLoop_eq hx.solitary (hx.ticking.settings ▸ hs)
  rw [hf] at hchange ⊢
  refine ⟨hchange.tended hrate hx (whenever_isBegin_frames hx.alone _ _),
    ⟨hd.dispatcher, ?_, ?_, ?_⟩, .rfl, rfl, rfl⟩
  · exact (loop?_setLoop hd.loop _ i).trans (if_pos rfl)
  · rw [Loop.tick_snd]
    exact hd.alive
  · rw [Loop.tick_snd]
    exact hd.queue

/-- While everyone waits a drained session stays so, and all that happens is that
its ticks display frames, if it is to show. -/
theorem Drained.play_waits (hs : s.fpsSampling) (hrate : s.maxFps.toNat ≤ Nat.pow 10 9)
    {us : List Turn} (hus : ∀ u ∈ us, u.waits) (hx : Tended s x) (hd : x.Drained i l) :
    Tended s (x.play us) ∧ (x.play us).dispatcher = some i ∧
      (x.play us).journal =
        (if x.Shows then ticksOver i l x.now us else []).map .frame ++ x.journal := by
  induction us generalizing x l with
  | nil => exact ⟨hx, hd.dispatcher, by simp [play, ticksOver]⟩
  | cons u us ih =>
    have hrest := fun v hv => hus v (List.mem_cons_of_mem u hv)
    match u, hus u List.mem_cons_self with
    | .call (.advance n), _ =>
      have hy : Tended s { x with now := x.now + n } :=
        ⟨hx.sampled.unseen ⟨rfl, rfl, rfl, rfl⟩,
          hx.ticking.still (.frame [] rfl rfl rfl (by simp)), hx.solitary, hx.alone⟩
      have hdrained : Drained { x with now := x.now + n } i l :=
        ⟨hd.dispatcher, hd.loop, hd.alive, hd.queue⟩
      have hplay : x.play (.call (.advance n) :: us) = play { x with now := x.now + n } us := by
        rw [← turn_advance]
        rfl
      rw [hplay]
      exact ih hrest hy hdrained
    | .tick k, _ =>
      have hplay : x.play (.tick k :: us) = (x.tickLoop k).play us := rfl
      rw [hplay]
      by_cases hki : k = i
      · subst hki
        obtain ⟨hy, hdrained, hshows, hnow, hjournal⟩ := hd.tick hs hrate hx
        obtain ⟨hend, hdispatcher, hj⟩ := ih hrest hy hdrained
        refine ⟨hend, hdispatcher, ?_⟩
        rw [hj, hnow, hjournal]
        by_cases hshow : x.Shows
        · simp [hshows, hshow, ticksOver]
        · simp [hshows, hshow]
      · have hticks : ticksOver i l x.now (.tick k :: us) = ticksOver i l x.now us := if_neg hki
        rw [hd.tickLoop_other hx.solitary hki, hticks]
        exact ih hrest hx hd

end

/-! ## frames -/

/-- In every run with headless engines, sampling and at most a billion frames a
second, in which frames and views come from the engines and the supervisor alone
and a session begins only when the engines of all earlier ones are gone: at every
moment,

* if the session has run no lifecycle task, it has displayed no frame;
* if the session has nothing left to run, then for as long as that is so and it is
  not resumed or is hidden, no frame is displayed, whatever happens, and while it
  is running callers are shown the same rate;
* if it has nothing left to run, then while everyone waits, however time passes,
  each tick of its loop displays exactly one frame if it is resumed and not
  hidden, and none with the rate unchanged if not; nothing else displays any;
* a loop that waits has a ticker of the period of the settings, and takes all the
  ticks that are due. -/
theorem frames_follow_view (s : BrowserSettings) (hs : s.fpsSampling)
    (hrate : s.maxFps.toNat ≤ Nat.pow 10 9) {x : Instance}
    (h : Changes Call.leavesDisplay (ofSettings s) x)
    (halone : Whenever Entry.isBegin AllDropped x.journal) :
    (isDriven x.journal = false → sessionFrames x.journal = []) ∧
      ∀ i l, x.Drained i l →
        (∀ y, DarkChanges x y → Whenever Entry.isBegin AllDropped y.journal →
          frameTimes y.journal = frameTimes x.journal ∧
            (y.status.running → y.status.fps = x.status.fps)) ∧
        (∀ us, (∀ u ∈ us, u.waits) →
          frameTimes (x.play us).journal =
              (if x.Shows then ticksOver i l x.now us else []) ++ frameTimes x.journal ∧
            (¬x.Shows → (x.play us).status.fps = x.status.fps)) ∧
        (l.phase = .idle → ∃ t, l.ticker = some t ∧ t.IsSteady (framePeriod s) ∧
          (t.run x.now).2.isDue x.now = false) := by
  have hx : Tended s x := h.tended hrate halone
  refine ⟨hx.ticking.silent, fun i l hd => ?_⟩
  have hrunning : x.status.running := Option.isSome_iff_exists.2 ⟨i, hd.dispatcher⟩
  refine ⟨fun y hy hyalone => ?_, fun us hus => ?_, fun hidle => ?_⟩
  · obtain ⟨htended, hframes, hsession⟩ := hy.tended hrate hx hyalone
    exact ⟨hframes, fun hrunning' => hx.fps_eq htended hrunning hrunning' hsession⟩
  · obtain ⟨htended, hdispatcher, hj⟩ := hd.play_waits hs hrate hus hx
    have hrunning' : (x.play us).status.running := Option.isSome_iff_exists.2 ⟨i, hdispatcher⟩
    refine ⟨by rw [hj, frameTimes_map], fun hnot => ?_⟩
    -- nothing was added to the journal
    refine hx.fps_eq htended hrunning hrunning' ?_
    simp [hj, hnot]
  · have hup : l.IsUp := by simp [Loop.IsUp, hidle, Phase.isAlive]
    obtain ⟨t, ht, hsteady⟩ := hx.ticking.tickers i l hd.loop hup
    have hpos : 0 < t.period := hsteady.period_eq ▸ framePeriod_pos hrate
    exact ⟨t, ht, hsteady, Ticker.run_isDue hpos hsteady.origin_le⟩

/-- A session that is made, runs its first tasks, and is resumed. -/
def matinee : List Turn :=
  [.call (.start { kind := .headless }), .message 0, .message 0, .tick 0, .call .resume,
    .message 0]

/-- Two seconds, with a tick after each. -/
def interval : List Turn :=
  [.call (.advance (Nat.pow 10 9)), .tick 0, .call (.advance (Nat.pow 10 9)), .tick 0]

/-- The session displays a frame at each of the ticks, and none after it was
hidden. -/
theorem frames_follow_view_matinee :
    let s := ({ fpsSampling := true, maxFps := 50 } : Settings).browser
    let x := (ofSettings s).play matinee
    let y := (ofSettings s).play (matinee ++ interval ++ [.call (.hide true), .message 0])
    x.Shows ∧ frameTimes (x.play interval).journal = [2000000000, 1000000000] ∧
      ¬y.Shows ∧ frameTimes (y.play interval).journal = [2000000000, 1000000000] ∧
      (y.play interval).status.fps = 1 := by
  intro s x y
  let resumed : Loop :=
    { engine := 1, kind := .headless, phase := .idle, view := ⟨true, true⟩,
      ticker := some ⟨20000000, 0, 20000000⟩ }
  let hidden : Loop :=
    { engine := 1, kind := .headless, phase := .idle, view := ⟨false, true⟩,
      ticker := some ⟨20000000, 0, 2020000000⟩ }
  have hresumed : x.Drained 0 resumed := ⟨by decide +kernel, by decide +kernel, rfl, rfl⟩
  have hhidden : y.Drained 0 hidden := ⟨by decide +kernel, by decide +kernel, rfl, rfl⟩
  have hx : Changes Call.leavesDisplay (ofSettings s) x :=
    play_changes (by decide) (obeys_ofSettings _ _)
  have hy : Changes Call.leavesDisplay (ofSettings s) y :=
    play_changes (by decide) (obeys_ofSettings _ _)
  obtain ⟨-, hshown, -⟩ :=
    (frames_follow_view s rfl (by decide) hx (by decide)).2 0 resumed hresumed
  obtain ⟨-, hdark, -⟩ :=
    (frames_follow_view s rfl (by decide) hy (by decide)).2 0 hidden hhidden
  have hshows : x.Shows := by decide
  have hnot : ¬y.Shows := by decide
  obtain ⟨hframes, -⟩ := hshown interval (by decide)
  obtain ⟨hnone, hrate⟩ := hdark interval (by decide)
  rw [if_pos hshows] at hframes
  rw [if_neg hnot] at hnone
  exact ⟨hshows, hframes.trans (by decide), hnot, hnone.trans (by decide),
    (hrate hnot).trans (by decide)⟩

end BrowserHost.Instance
