import BrowserHost.Proofs.Sampling
import BrowserHost.Proofs.Solitude

/-!
# BrowserHost.Proofs.Stillness

What displays frames and what does not.  With headless engines, and callers who
leave frames and views to them, the ticks of a loop are the only thing that
does; everything else leaves the frames, and the tickers of the engines, as they
are.

* `run_isDue`: a ticker takes all the ticks that are due;
* `Loop.tick_fst`: which ticks of a loop display a frame;
* `Still`: nothing is displayed, and no ticker starts or moves;
* `Move.still`: every move but a tick is still.
-/

namespace BrowserHost.Engine

/-! ## ticks -/

namespace Ticker

/-- A ticker of that period whose next tick is not due before it was made. -/
structure IsSteady (period : Nat) (t : Ticker) : Prop where
  period_eq : t.period = period
  origin_le : t.origin ≤ t.due

section

variable {period : Nat} {t : Ticker}

/-- A tick moves the time of the next one and nothing else. -/
theorem tick_eq (t : Ticker) (now : Nat) :
    t.tick now = ⟨t.period, t.origin, (t.tick now).due⟩ := by
  generalize hd : (t.tick now).due = d
  unfold tick at hd ⊢
  rw [← hd]

theorem IsSteady.tick (h : t.IsSteady period) (hp : 0 < period) (now : Nat) :
    (t.tick now).IsSteady period := by
  have hmoved : t.due < (t.tick now).due := due_lt_due_tick (h.period_eq ▸ hp) now
  rw [tick_eq]
  exact ⟨h.period_eq, h.origin_le.trans hmoved.le⟩

theorem IsSteady.takeDue (h : t.IsSteady period) (hp : 0 < period) (now n taken : Nat) :
    (Ticker.takeDue now n (taken, t)).2.IsSteady period := by
  induction n generalizing taken t with
  | zero => exact h
  | succ n ih =>
    unfold Ticker.takeDue
    split
    · exact ih (h.tick hp now) (taken + 1)
    · exact h

theorem IsSteady.run (h : t.IsSteady period) (hp : 0 < period) (now : Nat) :
    (t.run now).2.IsSteady period :=
  h.takeDue hp now _ 0

theorem isSteady_ofRate? {now rate : Nat} (h : rate ≤ Nat.pow 10 9) :
    ∃ t, ofRate? now rate = some t ∧ t.IsSteady (Nat.pow 10 9 / max rate 1) := by
  have hp : Nat.pow 10 9 / max rate 1 ≠ 0 := by
    have hone : 1 ≤ Nat.pow 10 9 := Nat.pow_pos (by decide)
    exact (Nat.div_pos (Nat.max_le.2 ⟨h, hone⟩) (by omega)).ne'
  exact ⟨_, if_neg hp, rfl, Nat.le_refl now⟩

/-- A tick is not taken before its time. -/
theorem isDue_of_lt {now : Nat} (hfirst : t.origin < t.due) (h : now < t.due) :
    t.isDue now = false := by
  unfold isDue millisecond
  rw [decide_eq_false_iff_not, Nat.not_le]
  have hpow : Nat.pow 10 6 = 1000000 := rfl
  rw [hpow]
  omega

/-- A tick that is late goes on after now, and any other a period later. -/
theorem due_tick (hp : 0 < t.period) (now : Nat) :
    now < (t.tick now).due ∨ (t.tick now).due = t.due + t.period := by
  have hmod := Nat.mod_lt (now - t.due) hp
  unfold tick
  split
  · exact .inl (by simp only; omega)
  · exact .inr rfl

/-- With enough left to take, no tick stays due. -/
theorem takeDue_isDue {now n : Nat} (taken : Nat) (hp : 0 < t.period) (hfirst : t.origin < t.due)
    (hn : now < t.due ∨ (now - t.due) / t.period < n) :
    (takeDue now n (taken, t)).2.isDue now = false := by
  induction n generalizing taken t with
  | zero => exact isDue_of_lt hfirst (hn.resolve_right (Nat.not_lt_zero _))
  | succ n ih =>
    unfold takeDue
    split
    · next hdue =>
      have hle : t.due ≤ now := by
        by_contra hlt
        simp [isDue_of_lt hfirst (Nat.not_le.1 hlt)] at hdue
      have hlast : (now - t.due) / t.period < n + 1 := hn.resolve_left (Nat.not_lt.2 hle)
      have hmoved := due_lt_due_tick hp now
      have hnext := due_tick hp now
      rw [tick_eq]
      generalize (t.tick now).due = due at hmoved hnext
      refine ih (taken + 1) hp (hfirst.trans hmoved) (or_iff_not_imp_left.2 fun hlate => ?_)
      -- one period less is left to catch up with
      have hdue : due = t.due + t.period := hnext.resolve_left hlate
      have hstep : now - t.due = (now - due) + t.period := by simp only at hlate; omega
      rw [hstep, Nat.add_div_right _ hp] at hlast
      exact Nat.lt_of_succ_lt_succ hlast
    · next hnot => exact Bool.eq_false_iff.2 hnot

theorem run_isDue {now : Nat} (hp : 0 < t.period) (horigin : t.origin ≤ t.due) :
    (t.run now).2.isDue now = false := by
  unfold run takeDue
  split
  · have hmoved := due_lt_due_tick hp now
    rw [tick_eq]
    generalize (t.tick now).due = due at hmoved
    refine takeDue_isDue _ hp (horigin.trans_lt hmoved) (.inr ?_)
    exact Nat.lt_succ_of_le (Nat.div_le_div_right (Nat.sub_le_sub_left hmoved.le now))
  · next hnot => exact Bool.eq_false_iff.2 hnot

end

end Ticker

/-- How many ticks a loop takes at that time. -/
def Loop.ticks (l : Loop) (now : Nat) : Nat :=
  if l.phase = .idle then (l.ticker.map fun t => (t.run now).1).getD 0 else 0

/-- A tick displays a frame exactly if the engine is visible and in the window. -/
theorem Loop.tick_fst (l : Loop) (now : Nat) :
    (l.tick now).1 = if l.view.visible && l.view.inWindow then l.ticks now else 0 := by
  unfold Loop.tick
  split
  · next t hidle ht =>
    have hticks : l.ticks now = (t.run now).1 := by
      rw [Loop.ticks, if_pos hidle, ht, Option.map_some, Option.getD_some]
    rw [hticks]
  · next hnone =>
    have hticks : l.ticks now = 0 := by
      unfold Loop.ticks
      split
      · next hidle =>
        have hno : l.ticker = none := Option.eq_none_iff_forall_ne_some.2 (hnone · hidle)
        rw [hno, Option.map_none, Option.getD_none]
      · rfl
    rw [hticks, ite_self]

/-- Only a loop that waits takes ticks. -/
theorem Loop.tick_of_not_isUp {l : Loop} (h : ¬l.IsUp) (now : Nat) : l.tick now = (0, l) := by
  have hidle : l.phase ≠ .idle := by
    intro hidle
    exact h (by simp [Loop.IsUp, hidle, Phase.isAlive])
  unfold Loop.tick
  split
  · next hphase _ => exact absurd hphase hidle
  · rfl

/-- Ticks leave a steady ticker steady. -/
theorem Loop.tick_isSteady {l : Loop} {t : Ticker} {period : Nat} (ht : l.ticker = some t)
    (h : t.IsSteady period) (hp : 0 < period) (now : Nat) :
    ∃ t', (l.tick now).2.ticker = some t' ∧ t'.IsSteady period := by
  unfold Loop.tick
  split
  · next u _ hu =>
    obtain rfl := Option.some.inj (ht.symm.trans hu)
    exact ⟨_, rfl, h.run hp now⟩
  · exact ⟨t, ht, h⟩

/-! ## what displays something -/

/-- Whether work sets the view. -/
def Work.isView : Work → Bool
  | .view _ => true
  | .load _ => false

/-- Whether a report is of frames. -/
def Report.isFrames : Report → Bool
  | .frames _ => true
  | _ => false

/-- Whether the maker of an engine sets the view or displays frames. -/
def Preparation.displays : Preparation → Bool
  | .report r => r.isFrames
  | .submit w => w.isView

/-- Whether a task that was submitted sets the view or displays frames. -/
def Task.displays : Task → Bool
  | .work w => w.isView
  | .report r => r.isFrames
  | _ => false

end BrowserHost.Engine

namespace BrowserHost.Instance

open Engine Hub

/-- Whether a call leaves frames and views to the engines, and makes no engines
but headless ones. -/
def Call.leavesDisplay : Call → Bool
  | .start pl => pl.kind == .headless && pl.preparations.all fun q => !q.displays
  | .dispatch w | .submit _ w => !w.isView
  | .emit r _ => !r.isFrames
  | _ => true

/-- Whether an entry neither displays a frame, nor begins a session, nor queues
what might display something besides. -/
def Entry.isStill : Entry → Bool
  | .frame _ | .began .. => false
  | .queued _ t => !t.displays
  | _ => true

/-- The time of the frame that an entry says was displayed. -/
def Entry.frame? : Entry → Option Nat
  | .frame t => some t
  | _ => none

/-- The times of all frames displayed so far, the latest first. -/
def frameTimes (j : List Entry) : List Nat :=
  j.filterMap Entry.frame?

theorem frameTimes_of_still {es : List Entry} (hes : ∀ e ∈ es, e.isStill) (j : List Entry) :
    frameTimes (es ++ j) = frameTimes j := by
  have hnone : es.filterMap Entry.frame? = [] := by
    refine List.filterMap_eq_nil_iff.2 fun e he => ?_
    cases e with
    | frame t => cases hes _ he
    | _ => rfl
  rw [frameTimes, List.filterMap_append, hnone]
  rfl

theorem sessionFrames_of_still {es : List Entry} (hes : ∀ e ∈ es, e.isStill) (j : List Entry) :
    sessionFrames (es ++ j) = sessionFrames j := by
  induction es with
  | nil => rfl
  | cons e es ih =>
    have hrest := ih fun d hd => hes d (List.mem_cons_of_mem e hd)
    have hfirst := hes e List.mem_cons_self
    cases e with
    | frame _ | began _ _ => cases hfirst
    | _ => exact hrest

/-- Nothing is displayed, no session begins, and no ticker starts or moves. -/
structure Still (x y : Instance) : Prop where
  settings : y.settings = x.settings
  journal : ∃ es, y.journal = es ++ x.journal ∧ ∀ e ∈ es, e.isStill
  loop : ∀ i l', y.loop? i = some l' → l'.IsUp →
    ∃ l, x.loop? i = some l ∧ l.IsUp ∧ l'.ticker = l.ticker

namespace Still

variable {x y z : Instance} {i : Nat} {l l' : Loop}

/-- No loop changes. -/
theorem frame (es : List Entry) (hs : y.settings = x.settings) (hl : y.loops = x.loops)
    (hj : y.journal = es ++ x.journal) (hes : ∀ e ∈ es, e.isStill) : Still x y :=
  ⟨hs, ⟨es, hj, hes⟩, fun i l' hl' hup => ⟨l', by rwa [loop?, hl] at hl', hup, rfl⟩⟩

theorem refl (x : Instance) : Still x x :=
  frame [] rfl rfl rfl (by simp)

theorem trans (h : Still x y) (h' : Still y z) : Still x z where
  settings := h'.settings.trans h.settings
  journal := by
    obtain ⟨es, hj, hes⟩ := h.journal
    obtain ⟨fs, hj', hfs⟩ := h'.journal
    refine ⟨fs ++ es, by rw [hj', hj, List.append_assoc], fun e he => ?_⟩
    exact (List.mem_append.1 he).elim (hfs e) (hes e)
  loop i l'' hl'' hup := by
    obtain ⟨l', hl', hup', ht'⟩ := h'.loop i l'' hl'' hup
    obtain ⟨l, hl, hup, ht⟩ := h.loop i l' hl' hup'
    exact ⟨l, hl, hup, ht'.trans ht⟩

theorem note (x : Instance) {e : Entry} (he : e.isStill) : Still x (x.note e) :=
  frame [e] rfl rfl rfl (by simpa using he)

/-- A loop goes on or ends. -/
theorem setLoop (hl : x.loop? i = some l) (h : l'.IsUp → l.IsUp ∧ l'.ticker = l.ticker) :
    Still x (x.setLoop i l') := by
  refine ⟨rfl, ⟨[], rfl, by simp⟩, fun k m hm hup => ?_⟩
  rcases setLoop_cases hl hm with ⟨rfl, rfl⟩ | ⟨-, hm⟩
  · exact ⟨l, hl, h hup⟩
  · exact ⟨m, hm, hup, rfl⟩

theorem frameTimes (h : Still x y) :
    Instance.frameTimes y.journal = Instance.frameTimes x.journal := by
  obtain ⟨es, hj, hes⟩ := h.journal
  rw [hj, frameTimes_of_still hes]

theorem sessionFrames (h : Still x y) :
    Instance.sessionFrames y.journal = Instance.sessionFrames x.journal := by
  obtain ⟨es, hj, hes⟩ := h.journal
  rw [hj, sessionFrames_of_still hes]

end Still

section

variable (x : Instance)

theorem not_isUp_finish (l : Loop) {phase : Phase} (h : phase.isAlive = false) :
    ¬(l.finish phase).IsUp :=
  fun hup => absurd hup.1 (Bool.eq_false_iff.1 h)

theorem isUp_push (l : Loop) (t : Task) (h : (l.push t).IsUp) :
    l.IsUp ∧ (l.push t).ticker = l.ticker := by
  have hkeeps : (l.push t).phase = l.phase ∧ (l.push t).ticker = l.ticker := by
    rw [Loop.push_eq]
    split <;> exact ⟨rfl, rfl⟩
  exact ⟨by rwa [Loop.IsUp, hkeeps.1] at h, hkeeps.2⟩

theorem isUp_close (l : Loop) (h : l.close.IsUp) : l.IsUp ∧ l.close.ticker = l.ticker := by
  have hkeeps : l.close.phase = l.phase ∧ l.close.ticker = l.ticker := by
    rw [Loop.close_eq]
    split <;> exact ⟨rfl, rfl⟩
  exact ⟨by rwa [Loop.IsUp, hkeeps.1] at h, hkeeps.2⟩

theorem submitTo_still (i : Nat) {t : Task} (ht : t.displays = false) :
    Still x (x.submitTo i t).2 := by
  rw [submitTo_eq]
  split
  · exact .refl x
  · next l hl =>
    split
    · have hqueued : (Entry.queued l.engine t).isStill := by simp [Entry.isStill, ht]
      exact (Still.setLoop hl (isUp_push l t)).trans (.note _ hqueued)
    · exact .refl x

theorem submit_still {t : Task} (ht : t.displays = false) : Still x (x.submit t).2 := by
  unfold submit
  split
  · exact .refl x
  · exact submitTo_still x _ ht

theorem announce_still (n : Notice) : Still x (x.announce n) :=
  .frame [.telling x.tellings n] rfl rfl rfl (by simp [Entry.isStill])

theorem raise_still {r : Report} (hr : r.isFrames = false) : Still x (x.raise r) := by
  cases r with
  | frames n => cases hr
  | urlChanged u | loadFinished u | closureRequested =>
    exact .frame [.telling x.tellings _] rfl rfl rfl (by simp [Entry.isStill])

theorem setView_still (i : Nat) (v : View) : Still x (x.setView i v) := by
  unfold setView
  split
  · exact .refl x
  · next l hl =>
    have hset : Still x (x.setLoop i { l with view := v }) := .setLoop hl fun hup => ⟨hup, rfl⟩
    exact hset.trans (.note _ rfl)

theorem endLoop_still (i : Nat) {phase : Phase} (h : phase.isAlive = false) :
    Still x (x.endLoop i phase) := by
  unfold endLoop
  split
  · exact .refl x
  · next l hl =>
    have hset : Still x (x.setLoop i (l.finish phase)) :=
      .setLoop hl fun hup => absurd hup (not_isUp_finish l h)
    exact hset.trans (.note _ rfl)

theorem arrive_still (i : Nat) (u : String) : Still x (x.arrive i u) := by
  unfold arrive
  split
  · exact .refl x
  · next l _ =>
    have hloaded : Still x (x.note (.loaded l.engine u)) := .note x rfl
    simp only
    split
    · exact hloaded.trans (endLoop_still _ i rfl)
    · exact hloaded

theorem settleOn_still (s : State) : Still x (x.settleOn s) := by
  unfold settleOn
  have hconfirm : Still x { x with machine := (x.machine.confirm s).2 } :=
    .frame [] rfl rfl rfl (by simp)
  simp only
  split
  · exact hconfirm.trans (announce_still _ _)
  · exact hconfirm

/-- Only a loop with an engine takes tasks. -/
theorem take_still {x : Instance} {i : Nat} {l : Loop} (t : Task) (rest : List Message)
    (hl : x.loop? i = some l) (hidle : l.phase = .idle) : Still x (x.take i l t rest) := by
  have hup : l.IsUp := by simp [Loop.IsUp, hidle, Phase.isAlive]
  have hset : Still x (x.setLoop i { l with phase := .busy, queue := rest }) :=
    .setLoop hl fun _ => ⟨hup, rfl⟩
  exact hset.trans (.note _ rfl)

theorem block_still {x : Instance} {i : Nat} {l : Loop} (hl : x.loop? i = some l) (hup : l.IsUp) :
    Still x (x.block i) := by
  unfold block
  rw [hl]
  exact .setLoop hl fun _ => ⟨hup, rfl⟩

theorem effect_still {x : Instance} {i : Nat} {l : Loop} {t : Task} (hl : x.loop? i = some l)
    (hup : l.IsUp) (ht : t.displays = false) : Still x (x.effect i t) := by
  match t with
  | .work (.load u) => exact arrive_still x i u
  | .work (.view v) => cases ht
  | .lifecycle s => exact (setView_still x i _).trans (settleOn_still _ s)
  | .visibility h => exact (setView_still x i _).trans (announce_still _ _)
  | .report r => exact raise_still x ht
  | .block => exact block_still hl hup

/-! ## loops between two messages -/

theorem restLoop_still (i : Nat) : Still x (x.restLoop i) := by
  unfold restLoop
  split
  · exact .refl x
  · next l hl =>
    refine .setLoop hl fun hup => ?_
    unfold Loop.rest at hup ⊢
    by_cases hbusy : l.phase = .busy
    · exact ⟨by simp [Loop.IsUp, hbusy, Phase.isAlive], by rw [if_pos hbusy]⟩
    · rw [if_neg hbusy] at hup ⊢
      exact ⟨hup, rfl⟩

theorem stall_still (i : Nat) : Still x (x.stall i) := by
  unfold stall
  split
  · exact .refl x
  · next l hl =>
    split
    · next hidle => exact .setLoop hl fun _ => ⟨by simp [Loop.IsUp, hidle, Phase.isAlive], rfl⟩
    · exact .refl x

theorem unblock_still (i : Nat) : Still x (x.unblock i) := by
  unfold unblock
  split
  · exact .refl x
  · next l hl =>
    split
    · next hheld => exact .setLoop hl fun _ => ⟨by simp [Loop.IsUp, hheld, Phase.isAlive], rfl⟩
    · exact .refl x

theorem closeLoop_still (i : Nat) : Still x (x.closeLoop i) := by
  unfold closeLoop
  split
  · exact .refl x
  · next l hl => exact .setLoop hl (isUp_close l)

/-- A new loop has no engine yet. -/
theorem openLoop_still (k : Kind) : Still x (x.openLoop k) := by
  refine ⟨rfl, ⟨[.created (x.attempts + 1) { x.settings with url := x.url }], rfl,
    by simp [Entry.isStill]⟩, fun i l hl hup => ?_⟩
  rcases openLoop_cases hl with ⟨-, rfl⟩ | hl
  · exact absurd rfl hup.2
  · exact ⟨l, hl, hup, rfl⟩

/-! ## what callers do -/

theorem choose_still (name : String) (n : Notice) : Still x (x.choose name n).2 := by
  unfold choose
  split
  · exact .refl x
  · exact .frame [] rfl rfl rfl (by simp)

theorem mention_still (name : String) (rs : List Reaction) : Still x (x.mention name rs) := by
  unfold mention
  split
  · exact .refl x
  · exact .frame [] rfl rfl rfl (by simp)

theorem register_still (role : Role) (o : ObserverId) : Still x (x.register role o).2 := by
  unfold register
  split
  · split
    · exact .frame [] rfl rfl rfl (by simp)
    · exact .refl x
  · exact .refl x

theorem unregister_still (role : Role) (o : ObserverId) : Still x (x.unregister role o).2 := by
  unfold unregister
  split
  · split
    · exact .frame [] rfl rfl rfl (by simp)
    · exact .refl x
  · exact .refl x

theorem request_still (c : Command) : Still x (x.request c).2 := by
  unfold request
  split
  · exact .refl x
  · next t m _ =>
    have hgrant : Still x ({ x with machine := m }.note (.requested c t.next)) :=
      .frame [.requested c t.next] rfl rfl rfl (by simp [Entry.isStill])
    simp only
    split
    · exact hgrant.trans (submit_still _ rfl)
    · exact hgrant

theorem setUrl_still (url : String) : Still x (x.setUrl url) := by
  have hurl : Still x ({ x with url := url }.note (.navigated url)) :=
    .frame [.navigated url] rfl rfl rfl (by simp [Entry.isStill])
  exact hurl.trans (submit_still _ rfl)

theorem hide_still (hidden : Bool) : Still x (x.hide hidden) := by
  unfold hide
  split
  · exact .refl x
  · have hflip : Still x ({ x with hidden := hidden }.note (.flipped hidden)) :=
      .frame [.flipped hidden] rfl rfl rfl (by simp [Entry.isStill])
    exact hflip.trans (submit_still _ rfl)

theorem plain_still {c : Call} (answer : Caller) (hp : c.every Call.leavesDisplay)
    (hc : c.isPlain) : Still x (performWith answer c x).2 := by
  cases c with
  | register role name rs => exact (mention_still x name rs).trans (register_still _ _ _)
  | registerQuiet =>
    have hquiet : Still x { x with quiet := x.quiet + 1 } := .frame [] rfl rfl rfl (by simp)
    exact hquiet.trans (register_still _ _ _)
  | unregister role name rs => exact (mention_still x name rs).trans (unregister_still _ _ _)
  | subscribe id =>
    simp only [performWith, subscribe]
    split
    · exact .frame [] rfl rfl rfl (by simp)
    · exact .refl x
  | dropHub | unsubscribe id | receive id n | isClosed k | advance ns | settings | read =>
    exact .frame [] rfl rfl rfl (by simp)
  | suspend | resume | request c => exact request_still x _
  | setUrl url => exact setUrl_still x url
  | hide h => exact hide_still x h
  | dispatch w =>
    have hw : w.isView = false := by simpa [Call.every, Call.leavesDisplay] using hp
    exact submit_still x hw
  | submit k w =>
    simp only [performWith, submitWork]
    have hw : w.isView = false := by simpa [Call.every, Call.leavesDisplay] using hp
    split
    · exact .refl x
    · exact submitTo_still x _ hw
  | release =>
    simp only [performWith, release]
    split
    · exact .refl x
    · have hmark : Still x { x with holding := none } := .frame [] rfl rfl rfl (by simp)
      exact hmark.trans (unblock_still _ _)
  | notify _ | start _ | shutdown | emit _ _ | hold | «repeat» _ _ => simp [Call.isPlain] at hc

/-! ## all moves -/

variable {x} {y : Instance}

/-- What the maker of a headless engine does besides displays nothing. -/
theorem Call.not_displays_of_start {pl : Plan} {q : Preparation}
    (hp : Call.leavesDisplay (.start pl)) (hq : q ∈ pl.preparations) : q.displays = false := by
  simp only [leavesDisplay, Bool.and_eq_true, List.all_eq_true] at hp
  simpa using hp.2 q hq

/-- Every move is still but a tick, as long as no queue holds anything to
display. -/
theorem Move.still (h : Move Call.leavesDisplay x y)
    (hqueues : ∀ i l t, x.loop? i = some l → .run t ∈ l.queue → t.displays = false) :
    Still x y ∨ ∃ i, y = x.tickLoop i := by
  cases h with
  | tick i => exact .inr ⟨i, rfl⟩
  | plain answer hp hc => exact .inl (plain_still x answer hp hc)
  | notify _ => exact .inl (announce_still x _)
  | hear _ _ _ | answer _ _ _ => exact .inl (.note x rfl)
  | choose name n => exact .inl (choose_still x name n)
  | conclude k n => exact .inl (.frame [.told k n] rfl rfl rfl (by simp [Entry.isStill]))
  | reject _ _ | mark _ => exact .inl (.frame [] rfl rfl rfl (by simp))
  | openLoop _ _ => exact .inl (openLoop_still x _)
  | @prepare pl w i e hp hw _ =>
    have hsubmit : Still x (x.submitTo i (.work w)).2 :=
      submitTo_still x i (Call.not_displays_of_start hp hw)
    exact .inl (hsubmit.trans (.note _ rfl))
  | precede hp hr => exact .inl (raise_still x (Call.not_displays_of_start hp hr))
  | @emit r _ hp =>
    have hr : r.isFrames = false := by simpa [Call.leavesDisplay] using hp
    exact .inl (raise_still x hr)
  | @post r _ i hp _ =>
    have hr : r.isFrames = false := by simpa [Call.leavesDisplay] using hp
    exact .inl (submitTo_still x i hr)
  | hold _ _ => exact .inl (submitTo_still x _ rfl)
  | @giveUp i _ _ =>
    have hended : Still x ({ x with owned := none, dispatcher := none, frames := {} }.note
        (.ended (x.engineOf i))) :=
      .frame [.ended (x.engineOf i)] rfl rfl rfl (by simp [Entry.isStill])
    exact .inl (hended.trans (closeLoop_still _ i))
  | stop _ _ _ => exact .inl (endLoop_still x _ rfl)
  | @run i l t rest hl hidle hq =>
    have ht := hqueues i l t hl (hq ▸ List.mem_cons_self)
    have hloop : (x.take i l t rest).loop? i = some { l with phase := .busy, queue := rest } := by
      rw [loop?_take hl, if_pos rfl]
    have hbusy : ({ l with phase := .busy, queue := rest } : Loop).IsUp := by
      simp [Loop.IsUp, Phase.isAlive]
    exact .inl ((take_still t rest hl hidle).trans (effect_still hloop hbusy ht))
  | echo _ _ hr =>
    rcases hr with rfl | rfl
    · exact .inl (raise_still x rfl)
    · exact .inl (raise_still x rfl)
  | rest i => exact .inl (restLoop_still x i)
  | stall i => exact .inl (stall_still x i)
  | goOn i => exact .inl (unblock_still x i)

end

end BrowserHost.Instance
