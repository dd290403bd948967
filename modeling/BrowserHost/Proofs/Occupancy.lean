import BrowserHost.Proofs.Beat

/-!
# BrowserHost.Proofs.Occupancy

What it means that an instance is running.  Three things say so: the handle on
which effects are queued, the loop that a shutdown will stop, and that loop
itself.  They agree at every moment of every run, whatever is started, fails to
start, is shut down or given up, but for one case: a loop that ends because a task
failed leaves the other two as they are.

* `Occupied`: the loop of the running session is open, and alive unless it failed;
* `Beat.occupied`: every beat keeps it so;
* `running_iff_accepting`: an instance that is running rejects starts, and accepts
  work unless the loop has failed.
-/

namespace BrowserHost.Engine

/-- Whether a loop in that phase has an engine, or had one until a task failed. -/
def Phase.inService : Phase → Bool
  | .idle | .busy | .held | .crashed => true
  | .building | .refused | .stopped => false

/-- A loop that is closed has an engine, and only a closed one is to stop. -/
def Loop.IsSound (l : Loop) : Prop :=
  (l.phase = .building → l.closed = false) ∧ (.stop ∈ l.queue → l.closed)

/-- A loop that nobody has closed, in service. -/
def Loop.InService (l : Loop) : Prop :=
  l.closed = false ∧ l.phase.inService

section

variable {l : Loop}

theorem Phase.inService_of_rested {a b : Phase} (h : a.rested = b.rested) :
    a.inService = b.inService := by
  cases a <;> cases b <;> first | rfl | cases h

theorem Phase.building_of_rested {a b : Phase} (h : a.rested = b.rested) (ha : a = .building) :
    b = .building := by
  subst ha
  cases b <;> first | rfl | cases h

theorem Loop.accepts_of_inService (h : l.InService) : l.accepts = (l.phase != .crashed) := by
  obtain ⟨hopen, hphase⟩ := h
  cases hl : l.phase <;> simp_all [accepts, Phase.isAlive, Phase.inService]

theorem Loop.IsSound.push (h : l.IsSound) (t : Task) : (l.push t).IsSound := by
  rw [Loop.push_eq]
  split
  · refine ⟨h.1, fun hstop => h.2 ?_⟩
    simpa using hstop
  · exact h

theorem Loop.InService.push (h : l.InService) (t : Task) : (l.push t).InService := by
  rw [Loop.push_eq]
  split <;> exact h

theorem Loop.IsSound.close (h : l.phase ≠ .building) : l.close.IsSound := by
  rw [Loop.close_eq]
  split
  · next hclosed => exact ⟨fun hb => absurd hb h, fun _ => hclosed⟩
  · exact ⟨fun hb => absurd hb h, fun _ => rfl⟩

/-- What has ended has nothing in its queue. -/
theorem Loop.isSound_finish (l : Loop) {phase : Phase} (h : phase ≠ .building) :
    (l.finish phase).IsSound :=
  ⟨fun hb => absurd hb h, nofun⟩

end

end BrowserHost.Engine

namespace BrowserHost.Instance

open Engine Hub

/-! ## the loop of the session -/

/-- What callers are told of the session, the loop that will be stopped and the
loop itself agree. -/
structure Occupied (x : Instance) : Prop where
  tied : x.owned = x.dispatcher
  current : ∀ i, x.dispatcher = some i → ∃ l, x.loop? i = some l ∧ l.InService
  sound : ∀ i l, x.loop? i = some l → l.IsSound

/-- A session is running whose loop has failed. -/
def isStranded (x : Instance) : Bool :=
  (x.dispatcher.bind x.loop?).any (·.phase == .crashed)

namespace Occupied

variable {x y : Instance} {i : Nat} {l l' : Loop}

theorem fresh (s : BrowserSettings) : Occupied (ofSettings s) := by
  constructor <;> simp [ofSettings, loop?]

theorem inService (hx : Occupied x) (hi : x.dispatcher = some i) (hl : x.loop? i = some l) :
    l.InService := by
  obtain ⟨l', hl', hservice⟩ := hx.current i hi
  rw [hl] at hl'
  rwa [Option.some.inj hl']

/-- Neither loops nor sessions change. -/
theorem frame (hx : Occupied x) (ho : y.owned = x.owned) (hd : y.dispatcher = x.dispatcher)
    (hl : y.loops = x.loops) : Occupied y where
  tied := by rw [ho, hd, hx.tied]
  current i hi := by
    rw [loop?, hl]
    exact hx.current i (hd ▸ hi)
  sound i l h := hx.sound i l (by rwa [loop?, hl] at h)

theorem setLoop (hx : Occupied x) (hl : x.loop? i = some l) (hsound : l'.IsSound)
    (hservice : x.dispatcher = some i → l.InService → l'.InService) :
    Occupied (x.setLoop i l') := by
  refine ⟨hx.tied, fun k hk => ?_, fun k m hm => ?_⟩
  · by_cases hik : i = k
    · subst hik
      exact ⟨l', by rw [loop?_setLoop hl, if_pos rfl], hservice hk (hx.inService hk hl)⟩
    · rw [loop?_setLoop hl, if_neg hik]
      exact hx.current k hk
  · rcases setLoop_cases hl hm with ⟨-, rfl⟩ | ⟨-, hm⟩
    · exact hsound
    · exact hx.sound k m hm

theorem submitTo (hx : Occupied x) (i : Nat) (t : Task) : Occupied (x.submitTo i t).2 := by
  rw [submitTo_eq]
  split
  · exact hx
  · next l hl =>
    split
    · exact (hx.setLoop hl ((hx.sound i l hl).push t) fun _ h => h.push t).frame rfl rfl rfl
    · exact hx

/-- A loop takes a task. -/
theorem take (hx : Occupied x) (hl : x.loop? i = some l) {t : Task} {rest : List Message}
    (hq : l.queue = .run t :: rest) (v : View) :
    Occupied (x.setLoop i { l with phase := .busy, queue := rest, view := v }) := by
  refine hx.setLoop hl ⟨nofun, fun hstop => ?_⟩ fun _ h => ⟨h.1, rfl⟩
  exact (hx.sound i l hl).2 (hq ▸ List.mem_cons_of_mem _ hstop)

theorem endLoop (hx : Occupied x) (hl : x.loop? i = some l) {phase : Phase}
    (hphase : phase ≠ .building) (hservice : l.InService → phase.inService) :
    Occupied (x.endLoop i phase) := by
  rw [endLoop_eq hl]
  have hset : Occupied (x.setLoop i (l.finish phase)) :=
    hx.setLoop hl (l.isSound_finish hphase) fun _ h => ⟨h.1, hservice h⟩
  exact hset.frame rfl rfl rfl

theorem openLoop (hx : Occupied x) (kind : Kind) : Occupied (x.openLoop kind) := by
  refine ⟨hx.tied, fun i hi => ?_, fun i m hm => ?_⟩
  · obtain ⟨m, hm, hservice⟩ := hx.current i hi
    have hold : i ≠ x.loops.length := Nat.ne_of_lt (List.getElem?_eq_some_iff.1 hm).1
    exact ⟨m, by rw [loop?_openLoop, if_neg hold, hm], hservice⟩
  · rcases openLoop_cases hm with ⟨-, rfl⟩ | hm
    · exact ⟨fun _ => rfl, nofun⟩
    · exact hx.sound i m hm

/-- A session begins on a loop whose engine is ready. -/
theorem openSession (hx : Occupied x) (hl : x.loop? i = some l) (hb : l.phase = .building)
    (ticker : Option Ticker) : Occupied (x.openSession i l ticker) := by
  have hopen : l.closed = false := (hx.sound i l hl).1 hb
  have hset : (x.setLoop i { l with phase := .idle, ticker := ticker }).loop? i = _ :=
    loop?_setLoop hl _ i
  refine ⟨rfl, fun k hk => ?_, fun k m hm => ?_⟩
  · obtain rfl : i = k := Option.some.inj hk
    exact ⟨_, hset.trans (if_pos rfl), hopen, rfl⟩
  · rcases setLoop_cases hl hm with ⟨-, rfl⟩ | ⟨-, hm⟩
    · exact ⟨nofun, (hx.sound i l hl).2⟩
    · exact hx.sound k m hm

/-- A session is given up, and its loop closed. -/
theorem giveUp (hx : Occupied x) (hi : x.owned = some i) :
    Occupied ((x.endSession i).closeLoop i) := by
  obtain ⟨l, hl, -, hservice⟩ := hx.current i (hx.tied ▸ hi)
  have hb : l.phase ≠ .building := fun hb => by simp [hb, Phase.inService] at hservice
  have hend : Occupied (x.endSession i) := ⟨rfl, nofun, hx.sound⟩
  have hl' : (x.endSession i).loop? i = some l := hl
  simp only [Instance.closeLoop, hl']
  exact hend.setLoop hl' (.close hb) nofun

end Occupied

/-! ## every moment -/

section

variable {p : Call → Bool} {x y : Instance}

theorem Beat.occupied (h : Beat p x y) (hx : Occupied x) : Occupied y := by
  cases h with
  | note _ | tell _ | aside _ _ _ _ _ _ _ _ | attempt | request _ _ _ | confirm _ =>
    exact hx.frame rfl rfl rfl
  | @touch i l hl phase v ticker hphase =>
    refine hx.setLoop hl ⟨fun hb => ?_, (hx.sound i l hl).2⟩ fun _ h => ⟨h.1, ?_⟩
    · exact (hx.sound i l hl).1 (Phase.building_of_rested hphase hb)
    · exact (Phase.inService_of_rested hphase).trans h.2
  | openLoop k => exact hx.openLoop k
  | @refuse i l hl hb =>
    refine hx.setLoop hl (l.isSound_finish (by decide)) fun _ h => ?_
    simp [Loop.InService, hb, Phase.inService] at h
  | begin _ _ hl hb ticker => exact hx.openSession hl hb ticker
  | submit _ => exact hx.submitTo _ _
  | @hide i h _ _ =>
    have hflip : Occupied (x.setFlag h) := hx.frame rfl rfl rfl
    exact hflip.submitTo i _
  | giveUp hi => exact hx.giveUp hi
  | @take i l t rest hl _ hq _ => exact (hx.take hl hq l.view).frame rfl rfl rfl
  | takeFlag hl _ hq v => exact (hx.take hl hq v).frame rfl rfl rfl
  | @stop i l rest hl _ hq =>
    -- only the loop of a session that was given up is to stop
    have hclosed : l.closed := (hx.sound i l hl).2 (hq ▸ List.mem_cons_self)
    refine hx.endLoop hl (by decide) fun h => ?_
    simp [Loop.InService, hclosed] at h
  | @crash i l hl _ => exact hx.endLoop hl (by decide) fun _ => rfl

theorem Changes.occupied (h : Changes p x y) (hx : Occupied x) : Occupied y := by
  have hbeats := h.beats
  clear h
  induction hbeats with
  | refl => exact hx
  | tail _ hlast ih => exact hlast.occupied ih

end

/-! ## what callers find -/

section

variable {x : Instance}

/-- What becomes of a task: it is queued last on the loop of the session, unless
there is none or it has failed. -/
theorem Occupied.submit (hx : Occupied x) (t : Task) :
    if x.status.running && !x.isStranded then
      ∃ i l, x.dispatcher = some i ∧ x.loop? i = some l ∧ l.accepts ∧
        x.submit t = (true, (x.setLoop i (l.push t)).note (.queued l.engine t))
    else x.submit t = (false, x) := by
  unfold status isStranded Instance.submit
  cases hi : x.dispatcher with
  | none => rfl
  | some i =>
    obtain ⟨l, hl, hservice⟩ := hx.current i hi
    have haccepts := Loop.accepts_of_inService hservice
    simp only [Option.isSome_some, Bool.true_and, Option.bind_some, hl, Option.any_some,
      submitTo_eq]
    cases hphase : l.phase == .crashed with
    | true =>
      have hrefuses : l.accepts = false := by rw [haccepts, bne, hphase]; rfl
      simp [hrefuses]
    | false =>
      have htakes : l.accepts = true := by rw [haccepts, bne, hphase]; rfl
      simp [htakes, hl]

/-- A start that is not rejected opens a loop, whatever becomes of it. -/
theorem start_opens {answer : Caller} (ha : Answers (fun _ => true) answer) {pl : Plan}
    (howned : x.owned = none) :
    ((start answer x pl).2.loop? x.loops.length).isSome := by
  have hprepared : Leads (fun _ => true) (x.openLoop pl.kind) (x.prepared answer pl) :=
    preparations_leads ha rfl (List.Subset.refl _) (isBuilding_openLoop x _)
      fun _ _ => Reaction.everyAll_true _
  obtain ⟨l, hl, -⟩ := hprepared.building _ _ (isBuilding_openLoop x pl.kind)
  have hbuilt := built_extends (p := fun _ => true) (x.prepared answer pl) x.loops.length pl
  obtain ⟨l', hl', -⟩ := hbuilt.loop _ l hl
  have hfree : ¬x.owned.isSome := by simp [howned]
  simp only [start, spawn_eq, if_neg hfree]
  cases pl.outcome.fault? with
  | some e => exact Option.isSome_of_eq_some hl'
  | none =>
    obtain ⟨l'', hl'', -⟩ := (begin_extends (p := fun _ => true) _ _ _).loop _ l' hl'
    exact Option.isSome_of_eq_some hl''

/-- A start is rejected at once exactly if a session is running. -/
theorem Occupied.rejects_iff (hx : Occupied x) (depth : Nat) (pl : Plan) :
    perform (depth + 1) (.start pl) x =
        (.fault (.engineLoop "engine loop is already running"),
          { x with attempts := x.attempts + 1 }) ↔ x.status.running := by
  have hrunning : x.status.running = x.owned.isSome := by rw [hx.tied]; rfl
  have hstart : perform (depth + 1) (.start pl) x = start (perform depth) x pl := rfl
  rw [hrunning, hstart]
  cases howned : x.owned with
  | some i => simp [start, howned]
  | none =>
    refine iff_of_false (fun hrejected => ?_) (by simp)
    have hopened : ((start (perform depth) x pl).2.loop? x.loops.length).isSome :=
      start_opens (perform_leads _ depth) howned
    rw [hrejected] at hopened
    simp [loop?] at hopened

end

/-- At every moment of every run an instance that is running rejects a start without
making an engine, and one that is not does not.  A task that is dispatched is
accepted exactly if a session is running whose loop has not failed; then it is
queued on that loop, and else nothing happens.  So an instance is running exactly
if it accepts work, unless a task of the session has failed: then it still rejects
starts but accepts nothing. -/
theorem running_iff_accepting (s : BrowserSettings) {x : Instance}
    (h : Changes (fun _ => true) (ofSettings s) x) (depth : Nat) :
    (∀ pl, perform (depth + 1) (.start pl) x =
        (.fault (.engineLoop "engine loop is already running"),
          { x with attempts := x.attempts + 1 }) ↔ x.status.running) ∧
      (∀ w, let accepted := x.status.running && !x.isStranded
        (perform (depth + 1) (.dispatch w) x).1 = .flag accepted ∧
          if accepted then
            ∃ i l, x.dispatcher = some i ∧ x.loop? i = some l ∧ l.accepts ∧
              (perform (depth + 1) (.dispatch w) x).2 =
                (x.setLoop i (l.push (.work w))).note (.queued l.engine (.work w))
          else (perform (depth + 1) (.dispatch w) x).2 = x) ∧
      (x.isStranded → x.status.running) ∧
      ∀ w, ((perform (depth + 1) (.dispatch w) x).1 = .flag true ↔ x.status.running) ↔
        x.isStranded = false := by
  have hx : Occupied x := h.occupied (.fresh s)
  have hstranded : x.isStranded → x.status.running := by
    unfold isStranded status
    cases x.dispatcher <;> simp
  have hdispatch (w : Work) : (perform (depth + 1) (.dispatch w) x).1 =
      .flag (x.status.running && !x.isStranded) := by
    have hsubmit := hx.submit (.work w)
    simp only [perform, performWith]
    split at hsubmit
    · next haccepted =>
      obtain ⟨i, l, -, -, -, heq⟩ := hsubmit
      rw [heq, haccepted]
    · next hrefused => rw [hsubmit, eq_false_of_ne_true hrefused]
  refine ⟨hx.rejects_iff depth, fun w => ⟨hdispatch w, ?_⟩, hstranded, fun w => ?_⟩
  · have hsubmit := hx.submit (.work w)
    simp only [perform, performWith]
    split at hsubmit
    · next haccepted =>
      obtain ⟨i, l, hi, hl, ha, heq⟩ := hsubmit
      rw [if_pos haccepted]
      exact ⟨i, l, hi, hl, ha, by rw [heq]⟩
    · next hrefused => rw [if_neg hrefused, hsubmit]
  · rw [hdispatch]
    cases hr : x.status.running <;> cases hs : x.isStranded <;> simp_all

/-- A task of the session fails. -/
def mishap : List Turn :=
  [.call (.start {}), .message 0, .message 0, .call (.dispatch (.load "panic:")), .message 0]

theorem running_iff_accepting_mishap :
    let x := (ofSettings ({} : Settings).browser).play (mishap.take 3)
    let y := (ofSettings ({} : Settings).browser).play mishap
    x.status.running ∧ (perform 1 (.dispatch (.load "a")) x).1 = .flag true ∧
      y.status.running ∧ (perform 1 (.dispatch (.load "a")) y).1 = .flag false := by
  intro x y
  have hmoment (ts : List Turn) : Changes (fun _ => true) (ofSettings ({} : Settings).browser)
      ((ofSettings ({} : Settings).browser).play ts) :=
    play_changes (fun t _ => Turn.every_true t) (obeys_ofSettings _ _)
  obtain ⟨-, hbefore, -⟩ := running_iff_accepting _ (hmoment (mishap.take 3)) 0
  obtain ⟨-, hafter, -⟩ := running_iff_accepting _ (hmoment mishap) 0
  exact ⟨by decide, (hbefore _).1.trans (by decide), by decide, (hafter _).1.trans (by decide)⟩

/-- A running instance that accepts nothing, and no start either. -/
theorem not_accepting_mishap :
    ¬∀ (s : BrowserSettings) (ts : List Turn) (w : Work),
      let x := (ofSettings s).play ts
      (x.status.running ↔ (call (.dispatch w) x).1 = .flag true) ∧
        (x.status.running ↔ (call (.start {}) x).1 =
          .fault (.engineLoop "engine loop is already running")) := by
  intro hall
  obtain ⟨hdispatch, -⟩ := hall ({} : Settings).browser mishap (.load "a")
  exact absurd (hdispatch.1 (by decide)) (by decide)

end BrowserHost.Instance
