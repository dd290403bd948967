import BrowserHost.Proofs.Run

/-!
# BrowserHost.Proofs.Sampling

The frame rate of a session.  One counter serves all sessions and goes on
counting between them, while engines are made and while loops are torn down;
yet what callers are shown is the rate of a counter of the session's own.

* `sessionFrames`: the times of the frames since the latest session began, read
  off the journal;
* `Change.sampled`: while a session is running, the counter has been fed those
  and nothing else;
* `fps_of_session_frames`: what callers are shown.
-/

namespace BrowserHost.Instance

open Engine Hub

/-! ## the frames of a session -/

/-- The times of the frames displayed since the latest session began, oldest
first. -/
def sessionFrames : List Entry → List Nat
  | [] => []
  | .began .. :: _ => []
  | .frame t :: j => sessionFrames j ++ [t]
  | _ :: j => sessionFrames j

/-- While a session is running, the counter is a fresh one that was fed the
frames of the session. -/
structure Sampled (s : BrowserSettings) (x : Instance) : Prop where
  settings : x.settings = s
  frames : x.dispatcher.isSome → x.frames = FrameCounter.feed {} (sessionFrames x.journal)

/-- Nothing happens that has to do with displayed frames or with which session is
running. -/
structure Unseen (x y : Instance) : Prop where
  settings : y.settings = x.settings
  dispatcher : y.dispatcher = x.dispatcher
  frames : y.frames = x.frames
  journal : sessionFrames y.journal = sessionFrames x.journal

section

variable {s : BrowserSettings} {x y z : Instance}

theorem Unseen.refl (x : Instance) : Unseen x x :=
  ⟨rfl, rfl, rfl, rfl⟩

theorem Unseen.trans (h : Unseen x y) (h' : Unseen y z) : Unseen x z where
  settings := h'.settings.trans h.settings
  dispatcher := h'.dispatcher.trans h.dispatcher
  frames := h'.frames.trans h.frames
  journal := h'.journal.trans h.journal

theorem Sampled.unseen (hx : Sampled s x) (h : Unseen x y) : Sampled s y where
  settings := h.settings.trans hx.settings
  frames hrunning := by
    rw [h.dispatcher] at hrunning
    rw [h.frames, h.journal, hx.frames hrunning]

/-! ## what has nothing to do with frames -/

theorem submitTo_unseen (x : Instance) (i : Nat) (t : Task) : Unseen x (x.submitTo i t).2 := by
  rw [submitTo_eq]
  split
  · exact .refl x
  · split
    · exact ⟨rfl, rfl, rfl, rfl⟩
    · exact .refl x

theorem submit_unseen (x : Instance) (t : Task) : Unseen x (x.submit t).2 := by
  unfold submit
  split
  · exact .refl x
  · exact submitTo_unseen x _ t

theorem setView_unseen (x : Instance) (i : Nat) (v : View) : Unseen x (x.setView i v) := by
  unfold setView
  split
  · exact .refl x
  · exact ⟨rfl, rfl, rfl, rfl⟩

theorem endLoop_unseen (x : Instance) (i : Nat) (phase : Phase) :
    Unseen x (x.endLoop i phase) := by
  unfold endLoop
  split
  · exact .refl x
  · exact ⟨rfl, rfl, rfl, rfl⟩

theorem arrive_unseen (x : Instance) (i : Nat) (u : String) : Unseen x (x.arrive i u) := by
  unfold arrive
  split
  · exact .refl x
  · next l _ =>
    have hnote : Unseen x (x.note (.loaded l.engine u)) := ⟨rfl, rfl, rfl, rfl⟩
    simp only
    split
    · exact hnote.trans (endLoop_unseen _ i _)
    · exact hnote

theorem settleOn_unseen (x : Instance) (s : State) : Unseen x (x.settleOn s) := by
  unfold settleOn
  simp only
  split <;> exact ⟨rfl, rfl, rfl, rfl⟩

theorem block_unseen (x : Instance) (i : Nat) : Unseen x (x.block i) := by
  unfold block
  split <;> exact ⟨rfl, rfl, rfl, rfl⟩

theorem restLoop_unseen (x : Instance) (i : Nat) : Unseen x (x.restLoop i) := by
  unfold restLoop
  split <;> exact ⟨rfl, rfl, rfl, rfl⟩

theorem stall_unseen (x : Instance) (i : Nat) : Unseen x (x.stall i) := by
  unfold stall
  split
  · exact .refl x
  · split <;> exact ⟨rfl, rfl, rfl, rfl⟩

theorem unblock_unseen (x : Instance) (i : Nat) : Unseen x (x.unblock i) := by
  unfold unblock
  split
  · exact .refl x
  · split <;> exact ⟨rfl, rfl, rfl, rfl⟩

theorem choose_unseen (x : Instance) (name : String) (n : Notice) :
    Unseen x (x.choose name n).2 := by
  unfold choose
  split <;> exact ⟨rfl, rfl, rfl, rfl⟩

theorem mention_unseen (x : Instance) (name : String) (rs : List Reaction) :
    Unseen x (x.mention name rs) := by
  unfold mention
  split <;> exact ⟨rfl, rfl, rfl, rfl⟩

theorem register_unseen (x : Instance) (role : Role) (o : ObserverId) :
    Unseen x (x.register role o).2 := by
  unfold register
  split
  · split <;> exact ⟨rfl, rfl, rfl, rfl⟩
  · exact .refl x

theorem unregister_unseen (x : Instance) (role : Role) (o : ObserverId) :
    Unseen x (x.unregister role o).2 := by
  unfold unregister
  split
  · split <;> exact ⟨rfl, rfl, rfl, rfl⟩
  · exact .refl x

theorem request_unseen (x : Instance) (c : Command) : Unseen x (x.request c).2 := by
  unfold request
  split
  · exact .refl x
  · next t m _ =>
    have hgrant : Unseen x ({ x with machine := m }.note (.requested c t.next)) :=
      ⟨rfl, rfl, rfl, rfl⟩
    simp only
    split
    · exact hgrant.trans (submit_unseen _ _)
    · exact hgrant

theorem setUrl_unseen (x : Instance) (url : String) : Unseen x (x.setUrl url) := by
  have hurl : Unseen x ({ x with url := url }.note (.navigated url)) := ⟨rfl, rfl, rfl, rfl⟩
  exact hurl.trans (submit_unseen _ _)

theorem hide_unseen (x : Instance) (hidden : Bool) : Unseen x (x.hide hidden) := by
  unfold hide
  split
  · exact .refl x
  · have hflip : Unseen x ({ x with hidden := hidden }.note (.flipped hidden)) :=
      ⟨rfl, rfl, rfl, rfl⟩
    exact hflip.trans (submit_unseen _ _)

/-- A plain call displays no frame, and no session begins or ends. -/
theorem plain_unseen {c : Call} (answer : Caller) (hc : c.isPlain) :
    Unseen x (performWith answer c x).2 := by
  cases c with
  | register role name rs => exact (mention_unseen x name rs).trans (register_unseen _ _ _)
  | registerQuiet =>
    have hquiet : Unseen x { x with quiet := x.quiet + 1 } := ⟨rfl, rfl, rfl, rfl⟩
    exact hquiet.trans (register_unseen _ _ _)
  | unregister role name rs => exact (mention_unseen x name rs).trans (unregister_unseen _ _ _)
  | subscribe id =>
    simp only [performWith, subscribe]
    split <;> exact ⟨rfl, rfl, rfl, rfl⟩
  | dropHub | unsubscribe id | receive id n | isClosed k | advance ns | settings | read =>
    exact ⟨rfl, rfl, rfl, rfl⟩
  | suspend | resume | request c => exact request_unseen x _
  | setUrl url => exact setUrl_unseen x url
  | hide h => exact hide_unseen x h
  | dispatch w => exact submit_unseen x _
  | submit k w =>
    simp only [performWith, submitWork]
    split
    · exact .refl x
    · exact submitTo_unseen x _ _
  | release =>
    simp only [performWith, release]
    split
    · exact .refl x
    · have hmark : Unseen x { x with holding := none } := ⟨rfl, rfl, rfl, rfl⟩
      exact hmark.trans (unblock_unseen _ _)
  | notify _ | start _ | shutdown | emit _ _ | hold | «repeat» _ _ => simp [Call.isPlain] at hc

theorem closeLoop_unseen (x : Instance) (i : Nat) : Unseen x (x.closeLoop i) := by
  unfold closeLoop
  split <;> exact ⟨rfl, rfl, rfl, rfl⟩

theorem built_unseen (x : Instance) (i : Nat) (pl : Plan) : Unseen x (x.built i pl) := by
  unfold built
  split
  · exact .refl x
  · split <;> exact ⟨rfl, rfl, rfl, rfl⟩

/-! ## frames -/

/-- What is displayed now is recorded so, if frames are counted. -/
theorem sessionFrames_framesDisplayed (hs : x.settings.fpsSampling) (n : Nat) :
    sessionFrames (framesDisplayed n x).journal =
      sessionFrames x.journal ++ List.replicate n x.now := by
  induction n generalizing x with
  | zero => simp [framesDisplayed]
  | succ n ih =>
    have hfirst : x.frameDisplayed =
        { x with frames := (x.frames.frame x.now).2 }.note (.frame x.now) := by
      rw [frameDisplayed, if_pos hs]
    have hone : sessionFrames x.frameDisplayed.journal = sessionFrames x.journal ++ [x.now] := by
      rw [hfirst]
      rfl
    have hnow : x.frameDisplayed.now = x.now := by
      rw [hfirst]
      rfl
    rw [framesDisplayed, ih (by rw [hfirst]; exact hs), hone, hnow, List.replicate_succ,
      List.append_assoc]
    rfl

/-- To display a frame is to feed the counter. -/
theorem Sampled.frameDisplayed (hx : Sampled s x) : Sampled s x.frameDisplayed := by
  unfold Instance.frameDisplayed
  split
  · refine ⟨hx.settings, fun hrunning => ?_⟩
    have hfed : x.frames = FrameCounter.feed {} (sessionFrames x.journal) := hx.frames hrunning
    simp only [note, sessionFrames, FrameCounter.feed_append, FrameCounter.feed, ← hfed]
  · exact hx

theorem Sampled.framesDisplayed (hx : Sampled s x) (n : Nat) :
    Sampled s (framesDisplayed n x) := by
  induction n generalizing x with
  | zero => exact hx
  | succ n ih => exact ih hx.frameDisplayed

theorem Sampled.raise (hx : Sampled s x) (r : Report) : Sampled s (x.raise r) := by
  cases r with
  | urlChanged u | loadFinished u | closureRequested => exact hx.unseen ⟨rfl, rfl, rfl, rfl⟩
  | frames n => exact hx.framesDisplayed n

theorem Sampled.tickLoop (hx : Sampled s x) (i : Nat) : Sampled s (x.tickLoop i) := by
  unfold Instance.tickLoop
  split
  · exact hx
  · next l _ =>
    have hset : Sampled s (x.setLoop i (l.tick x.now).2) := hx.unseen ⟨rfl, rfl, rfl, rfl⟩
    exact hset.framesDisplayed _

/-- A task displays frames only to report them. -/
theorem Sampled.effect (hx : Sampled s x) (i : Nat) (t : Task) : Sampled s (x.effect i t) := by
  match t with
  | .work (.load u) => exact hx.unseen (arrive_unseen x i u)
  | .work (.view v) => exact hx.unseen (setView_unseen x i v)
  | .lifecycle s => exact hx.unseen ((setView_unseen x i _).trans (settleOn_unseen _ s))
  | .visibility h => exact hx.unseen ((setView_unseen x i _).trans ⟨rfl, rfl, rfl, rfl⟩)
  | .report r => exact hx.raise r
  | .block => exact hx.unseen (block_unseen x i)

/-! ## sessions -/

/-- A session begins with a fresh counter. -/
theorem Sampled.begin (hx : Sampled s x) (i e : Nat) : Sampled s (x.begin i e) := by
  let began : Instance :=
    { x with machine := x.machine.begin.2, frames := {} }.note (.began e x.machine.begin.1)
  let loading := (began.submitTo i (.work (.load x.url))).2
  have hqueued : Unseen began (loading.submitTo i (.lifecycle x.machine.begin.1)).2 :=
    (submitTo_unseen began i _).trans (submitTo_unseen loading i _)
  refine ⟨hqueued.settings.trans hx.settings, fun _ => ?_⟩
  have hnone : sessionFrames (x.begin i e).journal = [] := hqueued.journal
  have hfresh : (x.begin i e).frames = {} := hqueued.frames
  rw [hnone, hfresh]
  rfl

/-- Without a session nothing is claimed. -/
theorem Sampled.giveUp (hx : Sampled s x) (i : Nat) : Sampled s (x.giveUp i) := by
  have hended : Sampled s ({ x with owned := none, dispatcher := none, frames := {} }.note
      (.ended (x.engineOf i))) := ⟨hx.settings, nofun⟩
  exact hended.unseen (closeLoop_unseen _ i)

theorem sampled_ofSettings (s : BrowserSettings) : Sampled s (ofSettings s) :=
  ⟨rfl, nofun⟩

/-! ## every moment -/

variable {p : Call → Bool}

theorem Move.sampled (h : Move p x y) (hx : Sampled s x) : Sampled s y := by
  cases h with
  | plain answer _ hc => exact hx.unseen (plain_unseen answer hc)
  | notify _ | hear _ _ _ | answer _ _ _ | conclude _ _ | reject _ _ | openLoop _ _ | mark _ =>
    exact hx.unseen ⟨rfl, rfl, rfl, rfl⟩
  | choose name n => exact hx.unseen (choose_unseen x name n)
  | prepare _ _ _ => exact hx.unseen ((submitTo_unseen x _ _).trans ⟨rfl, rfl, rfl, rfl⟩)
  | precede _ _ | emit _ | echo _ _ _ => exact hx.raise _
  | post _ _ | hold _ _ => exact hx.unseen (submitTo_unseen x _ _)
  | giveUp _ _ => exact hx.giveUp _
  | stop _ _ _ => exact hx.unseen (endLoop_unseen x _ _)
  | @run i l t rest _ _ _ =>
    have htaken : Sampled s (x.take i l t rest) := hx.unseen ⟨rfl, rfl, rfl, rfl⟩
    exact htaken.effect i t
  | rest i => exact hx.unseen (restLoop_unseen x i)
  | tick i => exact hx.tickLoop i
  | stall i => exact hx.unseen (stall_unseen x i)
  | goOn i => exact hx.unseen (unblock_unseen x i)

theorem Change.sampled (h : Change p x y) (hx : Sampled s x) : Sampled s y := by
  cases h with
  | move h => exact h.sampled hx
  | ready _ _ _ => exact (hx.unseen (built_unseen x _ _)).begin _ _
  | fail _ _ _ => exact hx.unseen (built_unseen x _ _)

theorem Changes.sampled (h : Changes p x y) (hx : Sampled s x) : Sampled s y := by
  induction h with
  | refl => exact hx
  | tail _ hlast ih => exact hlast.sampled ih

end

/-- At every moment of every run callers are shown no frame rate without sampling
and without a session, and else the rate of a fresh counter that was fed the
times of the frames displayed since the session began, and nothing else.  A
frame is one of them as soon as it is displayed, whoever displays it. -/
theorem fps_of_session_frames (s : BrowserSettings) {x : Instance}
    (h : Changes (fun _ => true) (ofSettings s) x) :
    x.status.fps =
        (if s.fpsSampling && x.status.running
          then (FrameCounter.feed {} (sessionFrames x.journal)).fps else 0) ∧
      (s.fpsSampling → ∀ n, sessionFrames (framesDisplayed n x).journal =
        sessionFrames x.journal ++ List.replicate n x.now) := by
  have hx : Sampled s x := h.sampled (sampled_ofSettings s)
  refine ⟨?_, fun hs => sessionFrames_framesDisplayed (hx.settings ▸ hs)⟩
  have hstatus : x.status.fps =
      if x.settings.fpsSampling && x.dispatcher.isSome then x.frames.fps else 0 := rfl
  rw [hstatus, hx.settings]
  have hrunning : x.status.running = x.dispatcher.isSome := rfl
  rw [hrunning]
  cases hd : x.dispatcher.isSome with
  | false => simp
  | true => rw [hx.frames hd]

/-- Frames of a making that fails, of one that succeeds, of a session, of its
engine when its loop is held and left behind, and of the session after it. -/
def spill : List Turn :=
  [.call (.start { preparations := [.report (.frames 3)], outcome := .crashed }),
    .call (.start { preparations := [.report (.frames 2)] }), .call (.emit (.frames 1) none),
    .call .hold, .call .shutdown, .call (.emit (.frames 5) none), .call (.start {}),
    .call (.advance (Nat.pow 10 9)), .call (.emit (.frames 1) none),
    .call (.advance (Nat.pow 10 9)), .call (.emit (.frames 4) (some 0))]

theorem fps_of_session_frames_spill :
    let s := ({ fpsSampling := true } : Settings).browser
    let x := (ofSettings s).play spill
    x.status.running ∧
      sessionFrames x.journal = [1000000000, 2000000000, 2000000000, 2000000000, 2000000000] ∧
      x.status.fps = 1 ∧
      sessionFrames (framesDisplayed 1 x).journal = sessionFrames x.journal ++ [2000000000] := by
  intro s x
  have hmoment : Changes (fun _ => true) (ofSettings s) x :=
    play_changes (fun t _ => Turn.every_true t) (obeys_ofSettings _ _)
  obtain ⟨hfps, hframe⟩ := fps_of_session_frames s hmoment
  exact ⟨by decide, by decide, hfps.trans (by decide), (hframe rfl 1).trans (by decide)⟩

end BrowserHost.Instance
