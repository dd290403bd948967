import BrowserHost.Proofs.Run

/-!
# BrowserHost.Proofs.Errand

What happens between two points at which observers can call in, with all that
has been begun there and not been ended.  A loop in the midst of a load still
has to report that the load is finished, whatever observers do in the meantime,
and a start still has to begin its session; so a moment is an instance and a
stack of such errands.  Where URLs come from navigating alone, few things have
anything to do with them.

* `Neutral`: nothing happens that has to do with URLs, loads or sessions;
* `Errand`: everything that can happen, and what it does to the stack;
* `play_errands`: every schedule is made of errands, and leaves none open.
-/

namespace BrowserHost

/-- The URL that a notice is about. -/
def Notice.url? : Notice → Option String
  | .urlChanged u | .loadFinished u => some u
  | _ => none

end BrowserHost

namespace BrowserHost.Engine

/-- The URL that work loads. -/
def Work.url? : Work → Option String
  | .load u => some u
  | .view _ => none

/-- The URL that a report is about. -/
def Report.url? : Report → Option String
  | .urlChanged u | .loadFinished u => some u
  | _ => none

/-- The URL that the maker of an engine reports or loads. -/
def Preparation.url? : Preparation → Option String
  | .report r => r.url?
  | .submit w => w.url?

/-- The URL that a task loads or reports. -/
def Task.url? : Task → Option String
  | .work w => w.url?
  | .report r => r.url?
  | _ => none

end BrowserHost.Engine

namespace BrowserHost.Instance

open Engine Hub

/-! ## what has to do with URLs -/

/-- Whether no URL comes from the call but by navigating: it loads nothing by
itself and makes up no reports and no notices of URLs. -/
def Call.navigatesOnly : Call → Bool
  | .notify n => n.url?.isNone
  | .dispatch w | .submit _ w => w.url?.isNone
  | .emit r _ => r.url?.isNone
  | .start pl => pl.preparations.all (·.url?.isNone)
  | _ => true

/-- Whether an entry has nothing to do with URLs, loads or sessions. -/
def Entry.isNeutral : Entry → Bool
  | .began .. | .ended _ | .navigated _ | .loaded .. | .dropped _ => false
  | .queued _ t | .ran _ t => t.url?.isNone
  | .telling _ n => n.url?.isNone
  | _ => true

/-- The loop of that index is in the midst of a task, with the engine of that
number. -/
def IsBusy (x : Instance) (i engine : Nat) : Prop :=
  ∃ l, x.loop? i = some l ∧ l.phase = .busy ∧ l.engine = engine

/-- Loops in the midst of a task stay so; the loop `own`, if any, does what it
likes. -/
def StaysBusy (own : Option Nat) (x y : Instance) : Prop :=
  ∀ i e, own ≠ some i → x.IsBusy i e → y.IsBusy i e

/-- Nothing happens that has to do with URLs, loads or sessions, and no loop is
interrupted. -/
structure Neutral (own : Option Nat) (x y : Instance) : Prop where
  url : y.url = x.url
  journal : ∃ es, y.journal = es ++ x.journal ∧ ∀ e ∈ es, e.isNeutral
  busy : StaysBusy own x y

namespace StaysBusy

variable {own : Option Nat} {x y z : Instance} {i : Nat} {l l' : Loop}

theorem of_loops (h : y.loops = x.loops) : StaysBusy own x y := by
  intro i e _ hi
  unfold IsBusy loop?
  rw [h]
  exact hi

theorem trans (h : StaysBusy own x y) (h' : StaysBusy own y z) : StaysBusy own x z :=
  fun i e hi hb => h' i e hi (h i e hi hb)

theorem setLoop (hl : x.loop? i = some l) (he : l'.engine = l.engine)
    (h : own = some i ∨ (l.phase = .busy → l'.phase = .busy)) :
    StaysBusy own x (x.setLoop i l') := by
  rintro k e hk ⟨m, hm, hbusy, rfl⟩
  by_cases hik : i = k
  · subst hik
    rw [hl] at hm
    obtain rfl := Option.some.inj hm
    exact ⟨l', by rw [loop?_setLoop hl, if_pos rfl], h.resolve_left hk hbusy, he⟩
  · exact ⟨m, by rw [loop?_setLoop hl, if_neg hik, hm], hbusy, rfl⟩

theorem submitTo (x : Instance) (i : Nat) (t : Task) : StaysBusy own x (x.submitTo i t).2 := by
  rw [submitTo_eq]
  split
  · exact of_loops rfl
  · next l hl =>
    split
    · have hpush : StaysBusy own x (x.setLoop i (l.push t)) := by
        refine setLoop hl ?_ (.inr fun hb => ?_) <;> simp [Loop.push_eq, *]
      exact hpush.trans (of_loops rfl)
    · exact of_loops rfl

theorem submit (x : Instance) (t : Task) : StaysBusy own x (x.submit t).2 := by
  unfold Instance.submit
  split
  · exact of_loops rfl
  · exact submitTo x _ t

theorem closeLoop (x : Instance) (i : Nat) : StaysBusy own x (x.closeLoop i) := by
  unfold Instance.closeLoop
  split
  · exact of_loops rfl
  · next l hl =>
    refine setLoop hl ?_ (.inr fun hb => ?_) <;> rw [Loop.close_eq] <;> split <;> simp [*]

theorem openLoop (x : Instance) (kind : Kind) : StaysBusy own x (x.openLoop kind) := by
  rintro i e - ⟨l, hl, hb, he⟩
  have hlt : i < x.loops.length := (List.getElem?_eq_some_iff.1 hl).1
  exact ⟨l, by rw [loop?_openLoop, if_neg (by omega), hl], hb, he⟩

end StaysBusy

namespace Neutral

variable {own : Option Nat} {x y z : Instance}

/-- No loop changes. -/
theorem frame (es : List Entry) (hu : y.url = x.url) (hl : y.loops = x.loops)
    (hj : y.journal = es ++ x.journal) (hes : ∀ e ∈ es, e.isNeutral) : Neutral own x y :=
  ⟨hu, ⟨es, hj, hes⟩, .of_loops hl⟩

theorem refl (x : Instance) : Neutral own x x :=
  frame [] rfl rfl rfl (by simp)

theorem trans (h : Neutral own x y) (h' : Neutral own y z) : Neutral own x z where
  url := h'.url.trans h.url
  journal := by
    obtain ⟨es, hj, hes⟩ := h.journal
    obtain ⟨fs, hj', hfs⟩ := h'.journal
    refine ⟨fs ++ es, by rw [hj', hj, List.append_assoc], fun e he => ?_⟩
    exact (List.mem_append.1 he).elim (hfs e) (hes e)
  busy := h.busy.trans h'.busy

theorem note (x : Instance) {e : Entry} (he : e.isNeutral) : Neutral own x (x.note e) :=
  frame [e] rfl rfl rfl (by simpa using he)

theorem setLoop {i : Nat} {l l' : Loop} (hl : x.loop? i = some l) (he : l'.engine = l.engine)
    (h : own = some i ∨ (l.phase = .busy → l'.phase = .busy)) :
    Neutral own x (x.setLoop i l') :=
  ⟨rfl, ⟨[], rfl, by simp⟩, .setLoop hl he h⟩

end Neutral

section

variable {own : Option Nat} (x : Instance)

theorem submitTo_neutral (i : Nat) {t : Task} (ht : t.url? = none) :
    Neutral own x (x.submitTo i t).2 := by
  refine ⟨?_, ?_, .submitTo x i t⟩ <;> rw [submitTo_eq] <;> split
  · rfl
  · split <;> rfl
  · exact ⟨[], rfl, by simp⟩
  · next l hl =>
    split
    · exact ⟨[.queued l.engine t], rfl, by simp [Entry.isNeutral, ht]⟩
    · exact ⟨[], rfl, by simp⟩

theorem submit_neutral {t : Task} (ht : t.url? = none) : Neutral own x (x.submit t).2 := by
  unfold submit
  split
  · exact .refl x
  · exact submitTo_neutral x _ ht

theorem announce_neutral {n : Notice} (hn : n.url? = none) : Neutral own x (x.announce n) :=
  .frame [.telling x.tellings n] rfl rfl rfl (by simp [Entry.isNeutral, hn])

theorem framesDisplayed_neutral (n : Nat) : Neutral own x (framesDisplayed n x) := by
  induction n generalizing x with
  | zero => exact .refl x
  | succ n ih =>
    have hfirst : Neutral own x x.frameDisplayed := by
      unfold frameDisplayed
      split
      · exact .frame [.frame x.now] rfl rfl rfl (by simp [Entry.isNeutral])
      · exact .refl x
    exact hfirst.trans (ih _)

theorem raise_neutral {r : Report} (hr : r.url? = none) : Neutral own x (x.raise r) := by
  cases r with
  | urlChanged u | loadFinished u => simp [Report.url?] at hr
  | closureRequested => exact announce_neutral x rfl
  | frames n => exact framesDisplayed_neutral x n

theorem setView_neutral (i : Nat) (v : View) : Neutral own x (x.setView i v) := by
  unfold setView
  split
  · exact .refl x
  · next l hl =>
    have hset : Neutral own x (x.setLoop i { l with view := v }) := .setLoop hl rfl (.inr id)
    exact hset.trans (.note _ rfl)

theorem settleOn_neutral (s : State) : Neutral own x (x.settleOn s) := by
  unfold settleOn
  have hconfirm : Neutral own x { x with machine := (x.machine.confirm s).2 } :=
    .frame [] rfl rfl rfl (by simp)
  simp only
  split
  · exact hconfirm.trans (announce_neutral _ rfl)
  · exact hconfirm

theorem restLoop_neutral (i : Nat) : Neutral (some i) x (x.restLoop i) := by
  unfold restLoop
  split
  · exact .refl x
  · next l hl =>
    refine .setLoop hl ?_ (.inl rfl)
    unfold Loop.rest
    split <;> rfl

theorem tickLoop_neutral (i : Nat) : Neutral own x (x.tickLoop i) := by
  cases hl : x.loop? i with
  | none => simpa only [tickLoop, hl] using .refl x
  | some l =>
    rw [tickLoop_eq hl]
    have hset : Neutral own x (x.setLoop i { l with ticker := (l.tick x.now).2.ticker }) :=
      .setLoop hl rfl (.inr id)
    exact hset.trans (framesDisplayed_neutral _ _)

theorem stall_neutral (i : Nat) : Neutral own x (x.stall i) := by
  unfold stall
  split
  · exact .refl x
  · next l hl =>
    split
    · next hidle => exact .setLoop hl rfl (.inr fun hb => by simp [hidle] at hb)
    · exact .refl x

theorem unblock_neutral (i : Nat) : Neutral own x (x.unblock i) := by
  unfold unblock
  split
  · exact .refl x
  · next l hl =>
    split
    · next hheld => exact .setLoop hl rfl (.inr fun hb => by simp [hheld] at hb)
    · exact .refl x

theorem choose_neutral (name : String) (n : Notice) : Neutral own x (x.choose name n).2 := by
  unfold choose
  split
  · exact .refl x
  · exact .frame [] rfl rfl rfl (by simp)

theorem block_neutral (i : Nat) : Neutral (some i) x (x.block i) := by
  unfold block
  split
  · exact .refl x
  · next l hl => exact .setLoop hl rfl (.inl rfl)

/-- A task that loads and reports no URL. -/
theorem effect_neutral {x : Instance} {i : Nat} {l : Loop} {t : Task} (rest : List Message)
    (hl : x.loop? i = some l) (ht : t.url? = none) :
    Neutral (some i) x ((x.take i l t rest).effect i t) := by
  have hset : Neutral (some i) x (x.setLoop i { l with phase := .busy, queue := rest }) :=
    .setLoop hl rfl (.inl rfl)
  have htake : Neutral (some i) x (x.take i l t rest) :=
    hset.trans (.note _ (by simp [Entry.isNeutral, ht]))
  match t with
  | .work (.load u) => simp [Task.url?, Work.url?] at ht
  | .work (.view v) => exact htake.trans (setView_neutral _ i v)
  | .lifecycle s => exact htake.trans ((setView_neutral _ i _).trans (settleOn_neutral _ s))
  | .visibility h => exact htake.trans ((setView_neutral _ i _).trans (announce_neutral _ rfl))
  | .report r => exact htake.trans (raise_neutral _ ht)
  | .block => exact htake.trans (block_neutral _ i)

/-! ## what callers do -/

theorem mention_neutral (name : String) (rs : List Reaction) :
    Neutral own x (x.mention name rs) := by
  unfold mention
  split
  · exact .refl x
  · exact .frame [] rfl rfl rfl (by simp)

theorem register_neutral (role : Role) (o : ObserverId) :
    Neutral own x (x.register role o).2 := by
  unfold register
  split
  · split
    · exact .frame [] rfl rfl rfl (by simp)
    · exact .refl x
  · exact .refl x

theorem unregister_neutral (role : Role) (o : ObserverId) :
    Neutral own x (x.unregister role o).2 := by
  unfold unregister
  split
  · split
    · exact .frame [] rfl rfl rfl (by simp)
    · exact .refl x
  · exact .refl x

theorem request_neutral (c : Command) : Neutral own x (x.request c).2 := by
  unfold request
  split
  · exact .refl x
  · next t m _ =>
    have hgrant : Neutral own x ({ x with machine := m }.note (.requested c t.next)) :=
      .frame [.requested c t.next] rfl rfl rfl (by simp [Entry.isNeutral])
    simp only
    split
    · exact hgrant.trans (submit_neutral _ rfl)
    · exact hgrant

theorem hide_neutral (hidden : Bool) : Neutral own x (x.hide hidden) := by
  unfold hide
  split
  · exact .refl x
  · have hflip : Neutral own x ({ x with hidden := hidden }.note (.flipped hidden)) :=
      .frame [.flipped hidden] rfl rfl rfl (by simp [Entry.isNeutral])
    exact hflip.trans (submit_neutral _ rfl)

theorem release_neutral : Neutral own x x.release.2 := by
  unfold release
  split
  · exact .refl x
  · have hmark : Neutral own x { x with holding := none } := .frame [] rfl rfl rfl (by simp)
    exact hmark.trans (unblock_neutral _ _)

theorem submitWork_neutral (session : Nat) {w : Work} (hw : w.url? = none) :
    Neutral own x (x.submitWork session w).2 := by
  unfold submitWork
  split
  · exact .refl x
  · exact submitTo_neutral x _ hw

/-- A plain call navigates, or has nothing to do with URLs. -/
theorem plain_neutral {c : Call} (answer : Caller) (hp : c.every Call.navigatesOnly)
    (hc : c.isPlain) (hne : ∀ url, c ≠ .setUrl url) :
    Neutral own x (performWith answer c x).2 := by
  cases c with
  | register role name rs => exact (mention_neutral x name rs).trans (register_neutral _ _ _)
  | registerQuiet =>
    have hquiet : Neutral own x { x with quiet := x.quiet + 1 } :=
      .frame [] rfl rfl rfl (by simp)
    exact hquiet.trans (register_neutral _ _ _)
  | unregister role name rs =>
    exact (mention_neutral x name rs).trans (unregister_neutral _ _ _)
  | subscribe id =>
    simp only [performWith, subscribe]
    split
    · exact .frame [] rfl rfl rfl (by simp)
    · exact .refl x
  | dropHub | unsubscribe id | receive id n | isClosed k | advance ns | settings | read =>
    exact .frame [] rfl rfl rfl (by simp)
  | suspend | resume | request c => exact request_neutral x _
  | setUrl url => exact absurd rfl (hne url)
  | hide h => exact hide_neutral x h
  | dispatch w => exact submit_neutral x (Option.isNone_iff_eq_none.1 hp)
  | submit k w => exact submitWork_neutral x k (Option.isNone_iff_eq_none.1 hp)
  | release => exact release_neutral x
  | notify _ | start _ | shutdown | emit _ _ | hold | «repeat» _ _ => simp [Call.isPlain] at hc

end

/-! ## errands -/

/-- Something that was begun and has not been ended. -/
inductive Frame
  /-- A loop runs a task, and will then wait for the next message. -/
  | task (loop : Nat)
  /-- A loop loads a URL, and will report it as loaded. -/
  | due (loop engine : Nat) (url : String)
  /-- A session is being started. -/
  | start

/-- An instance, and what has been begun there and not been ended, the latest
first. -/
structure Scene where
  stack : List Frame
  host : Instance

/-- Everything that can happen to an instance whose URLs come from navigating. -/
inductive Errand : Scene → Scene → Prop
  | move {h : List Frame} {x y : Instance} (hm : Move Call.navigatesOnly x y)
    (hn : Neutral none x y) : Errand ⟨h, x⟩ ⟨h, y⟩
  | navigate {h : List Frame} {x : Instance} (url : String) : Errand ⟨h, x⟩ ⟨h, x.setUrl url⟩
  | giveUp {h : List Frame} {x : Instance} {i : Nat} (hi : x.owned = some i) :
    Errand ⟨h, x⟩ ⟨h, x.giveUp i⟩
  | stop {h : List Frame} {x : Instance} {i : Nat} {l : Loop} {rest : List Message}
    (hl : x.loop? i = some l) (hidle : l.phase = .idle) (hq : l.queue = .stop :: rest) :
    Errand ⟨h, x⟩ ⟨h, x.endLoop i .stopped⟩
  | openLoop {h : List Frame} {x : Instance} {pl : Plan} (hp : Call.navigatesOnly (.start pl))
    (hx : x.owned = none) : Errand ⟨h, x⟩ ⟨.start :: h, x.openLoop pl.kind⟩
  | begin {h : List Frame} {x : Instance} {pl : Plan} {i e : Nat}
    (hp : Call.navigatesOnly (.start pl)) (hi : x.IsBuilding i e) (ho : pl.outcome = .ready) :
    Errand ⟨.start :: h, x⟩ ⟨h, (x.built i pl).begin i e⟩
  | fail {h : List Frame} {x : Instance} {pl : Plan} {i e : Nat}
    (hp : Call.navigatesOnly (.start pl)) (hi : x.IsBuilding i e) (ho : pl.outcome ≠ .ready) :
    Errand ⟨.start :: h, x⟩ ⟨h, x.built i pl⟩
  /-- A loop runs a task, but for a load that it reports. -/
  | run {h : List Frame} {x : Instance} {i : Nat} {l : Loop} {t : Task} {rest : List Message}
    (hl : x.loop? i = some l) (hidle : l.phase = .idle) (hq : l.queue = .run t :: rest)
    (ht : ∀ u, t = .work (.load u) → l.kind.failsOn u ∨ l.kind.reports = false) :
    Errand ⟨h, x⟩ ⟨.task i :: h, (x.take i l t rest).effect i t⟩
  | load {h : List Frame} {x : Instance} {i : Nat} {l : Loop} {u : String} {rest : List Message}
    (hl : x.loop? i = some l) (hidle : l.phase = .idle)
    (hq : l.queue = .run (.work (.load u)) :: rest) (hk : l.kind.reports)
    (hs : l.kind.failsOn u = false) :
    Errand ⟨h, x⟩ ⟨.due i l.engine u :: h,
      ((x.take i l (.work (.load u)) rest).note (.loaded l.engine u)).raise (.urlChanged u)⟩
  /-- A load is reported as finished. -/
  | finish {h : List Frame} {x : Instance} {i e : Nat} {l : Loop} {u : String}
    (hl : x.loop? i = some l) (hk : l.kind.reports) :
    Errand ⟨.due i e u :: h, x⟩ ⟨.task i :: h, x.raise (.loadFinished u)⟩
  | rest {h : List Frame} {x : Instance} {i : Nat} : Errand ⟨.task i :: h, x⟩ ⟨h, x.restLoop i⟩

/-- Any number of errands. -/
abbrev Errands : Scene → Scene → Prop :=
  Relation.ReflTransGen Errand

theorem arrive_of_sound {x : Instance} {i : Nat} {l : Loop} {u : String}
    (hl : x.loop? i = some l) (hs : l.kind.failsOn u = false) :
    x.arrive i u = x.note (.loaded l.engine u) := by
  simp only [arrive, hl, hs, Bool.false_eq_true, if_false]

theorem Errand.changes {s t : Scene} (h : Errand s t) :
    Changes Call.navigatesOnly s.host t.host := by
  cases h with
  | move hm _ => exact .single (.move hm)
  | @navigate _ x url =>
    have hmove : Move Call.navigatesOnly x (x.setUrl url) :=
      .plain (c := .setUrl url) (fun _ x => (.done, x)) rfl rfl
    exact .single (.move hmove)
  | giveUp hi => exact .single (.move (.giveUp rfl hi))
  | stop hl hidle hq => exact .single (.move (.stop hl hidle hq))
  | openLoop hp hx => exact .single (.move (.openLoop hp hx))
  | begin hp hi ho => exact .single (.ready hp hi ho)
  | fail hp hi ho => exact .single (.fail hp hi ho)
  | run hl hidle hq _ => exact .single (.move (.run hl hidle hq))
  | @load _ x i l u rest hl hidle hq hk hs =>
    have hloop : (x.take i l (.work (.load u)) rest).loop? i =
        some { l with phase := .busy, queue := rest } := by
      rw [loop?_take hl, if_pos rfl]
    have hrun : Move Call.navigatesOnly x
        ((x.take i l (.work (.load u)) rest).note (.loaded l.engine u)) := by
      have hmove : Move Call.navigatesOnly x
        ((x.take i l (.work (.load u)) rest).effect i (.work (.load u))) := .run hl hidle hq
      rwa [effect, arrive_of_sound hloop hs] at hmove
    have hnoted : ((x.take i l (.work (.load u)) rest).note (.loaded l.engine u)).loop? i =
        some { l with phase := .busy, queue := rest } := hloop
    exact (Relation.ReflTransGen.single (.move hrun)).tail (.move (.echo hnoted hk (.inl rfl)))
  | finish hl hk => exact .single (.move (.echo hl hk (.inr rfl)))
  | rest => exact .single (.move (.rest _))

theorem Errands.changes {s t : Scene} (h : Errands s t) :
    Changes Call.navigatesOnly s.host t.host := by
  induction h with
  | refl => exact .refl
  | tail _ hlast ih => exact ih.trans hlast.changes

/-! ## what leaves the stack as it was -/

/-- From `x` to `y` by errands, and what was begun on the way was ended. -/
def Balanced (x y : Instance) : Prop :=
  ∀ h, Errands ⟨h, x⟩ ⟨h, y⟩

/-- What calls do is made of errands. -/
def Completes (answer : Caller) : Prop :=
  ∀ c x, c.every Call.navigatesOnly → x.Obeys Call.navigatesOnly → Balanced x (answer c x).2

namespace Balanced

variable {x y z : Instance}

theorem refl (x : Instance) : Balanced x x :=
  fun _ => .refl

theorem trans (h : Balanced x y) (h' : Balanced y z) : Balanced x z :=
  fun s => (h s).trans (h' s)

theorem ofMove (hm : Move Call.navigatesOnly x y) (hn : Neutral none x y) : Balanced x y :=
  fun _ => .single (.move hm hn)

theorem obeys (h : Balanced x y) (hx : x.Obeys Call.navigatesOnly) :
    y.Obeys Call.navigatesOnly :=
  (h []).changes.obeys hx

end Balanced

/-! ## tellings -/

section

variable {answer : Caller}

theorem react_balanced (ha : Completes answer) (name : String) {cs : List Call} {x : Instance}
    (hcs : Call.everyAll Call.navigatesOnly cs) (hx : x.Obeys Call.navigatesOnly) :
    Balanced x (react answer name x cs) := by
  induction cs generalizing x with
  | nil => exact .refl x
  | cons c cs ih =>
    simp only [Call.everyAll, Bool.and_eq_true] at hcs
    have hnote : Balanced x ((answer c x).2.note (.answered name c (answer c x).1)) :=
      (ha c x hcs.1 hx).trans (.ofMove (.answer name c _) (.note _ rfl))
    exact hnote.trans (ih hcs.2 (hnote.obeys hx))

theorem deliver_balanced (ha : Completes answer) (k : Nat) (n : Notice) {x : Instance}
    (o : ObserverId) (hx : x.Obeys Call.navigatesOnly) : Balanced x (deliver answer k n x o) := by
  have hheard : Balanced x (x.note (.heard k o n)) := .ofMove (.hear k o n) (.note _ rfl)
  cases o with
  | quiet i => exact hheard
  | named name =>
    have hobeys := hheard.obeys hx
    have hchoose := hheard.trans (.ofMove (.choose name n) (choose_neutral _ _ _))
    exact hchoose.trans
      (react_balanced ha name (choose_everyAll hobeys name n) (hchoose.obeys hx))

theorem deliverAll_balanced (ha : Completes answer) (k : Nat) (n : Notice) {x : Instance}
    (os : List ObserverId) (hx : x.Obeys Call.navigatesOnly) :
    Balanced x (deliverAll answer k n x os) := by
  induction os generalizing x with
  | nil => exact .refl x
  | cons o os ih =>
    have hfirst := deliver_balanced ha k n o hx
    exact hfirst.trans (ih (hfirst.obeys hx))

/-- What follows on the beginning of a telling. -/
theorem tell_balanced (ha : Completes answer) (n : Notice) {x : Instance}
    (hx : x.Obeys Call.navigatesOnly) : Balanced (x.announce n) (tell answer n x) := by
  have hbegun : (x.announce n).Obeys Call.navigatesOnly := hx
  refine (deliverAll_balanced ha x.tellings n (x.hub.audience n) hbegun).trans
    (.ofMove (.conclude x.tellings n) ?_)
  exact .frame [.told x.tellings n] rfl rfl rfl (by simp [Entry.isNeutral])

/-- What follows on what a report changes by itself. -/
theorem raise_balanced (ha : Completes answer) {x : Instance} (r : Report)
    (hx : x.Obeys Call.navigatesOnly) : Balanced (x.raise r) (report answer x r) := by
  cases r with
  | urlChanged u =>
    exact tell_balanced ha _ (show Obeys Call.navigatesOnly { x with url := u } from hx)
  | loadFinished u =>
    exact tell_balanced ha _ (show Obeys Call.navigatesOnly { x with url := u } from hx)
  | closureRequested => exact tell_balanced ha _ hx
  | frames n => exact .refl _

/-- A report that is not about a URL. -/
theorem report_balanced (ha : Completes answer) {x : Instance} {r : Report}
    (hm : Move Call.navigatesOnly x (x.raise r)) (hr : r.url? = none)
    (hx : x.Obeys Call.navigatesOnly) : Balanced x (report answer x r) :=
  (Balanced.ofMove hm (raise_neutral x hr)).trans (raise_balanced ha r hx)

/-! ## tasks -/

theorem load_of_reports {x : Instance} {i : Nat} {l : Loop} {u : String}
    (hl : x.loop? i = some l) (hk : l.kind.reports) (hs : l.kind.failsOn u = false) :
    load answer x i u = report answer
      (report answer (x.note (.loaded l.engine u)) (.urlChanged u)) (.loadFinished u) := by
  simp only [load, hl, hs, hk, Bool.false_eq_true, if_false, if_true]

/-- A load is reported in two steps; observers hear of the first before the
second is made. -/
theorem load_errands (ha : Completes answer) {x : Instance} {i : Nat} {l : Loop} {u : String}
    (hl : x.loop? i = some l) (hk : l.kind.reports) (hs : l.kind.failsOn u = false)
    (hx : x.Obeys Call.navigatesOnly) (h : List Frame) :
    Errands ⟨.due i l.engine u :: h, (x.note (.loaded l.engine u)).raise (.urlChanged u)⟩
      ⟨.task i :: h, load answer x i u⟩ := by
  rw [load_of_reports hl hk hs]
  have hnoted : (x.note (.loaded l.engine u)).Obeys Call.navigatesOnly := hx
  have hfirst := raise_balanced ha (.urlChanged u) hnoted
  have hraised : ((x.note (.loaded l.engine u)).raise (.urlChanged u)).loop? i = some l := hl
  obtain ⟨l', hl', -, hk'⟩ := (hfirst []).changes.loop hraised
  have hobeys : (report answer (x.note (.loaded l.engine u)) (.urlChanged u)).Obeys
      Call.navigatesOnly := hfirst.obeys hnoted
  exact ((hfirst _).tail (.finish hl' (hk'.symm ▸ hk))).trans
    (raise_balanced ha (.loadFinished u) hobeys _)

theorem confirm_balanced (ha : Completes answer) {x : Instance} (s : State)
    (hx : x.Obeys Call.navigatesOnly) : Balanced (x.settleOn s) (confirm answer x s) := by
  unfold settleOn confirm
  simp only
  split
  · exact tell_balanced ha _ hx
  · exact .refl _

/-- What follows on the effect of a task, but for a load that is reported. -/
theorem runTask_balanced (ha : Completes answer) {x : Instance} {i : Nat} {l : Loop} {t : Task}
    (hl : x.loop? i = some l)
    (ht : ∀ u, t = .work (.load u) → l.kind.failsOn u ∨ l.kind.reports = false)
    (hx : x.Obeys Call.navigatesOnly) : Balanced (x.effect i t) (runTask answer x i t) := by
  have hview (v : View) : (x.setView i v).Obeys Call.navigatesOnly :=
    (setView_extends x i v).obeys hx
  match t with
  | .work (.load u) =>
    have hsame : load answer x i u = x.arrive i u := by
      simp only [load, arrive, hl]
      rcases ht u rfl with hfail | hk
      · simp only [hfail, if_true]
      · simp only [hk, Bool.false_eq_true, if_false]
    simp only [effect, runTask, hsame]
    exact .refl _
  | .work (.view v) => exact .refl _
  | .lifecycle s => exact confirm_balanced ha s (hview _)
  | .visibility h => exact tell_balanced ha _ (hview _)
  | .report r => exact raise_balanced ha r hx
  | .block => exact .refl _

/-! ## loops -/

theorem stepLoop_balanced (ha : Completes answer) {x y : Instance} {i : Nat}
    (hstep : stepLoop answer x i = some y) (hx : x.Obeys Call.navigatesOnly) : Balanced x y := by
  unfold stepLoop at hstep
  cases hl : x.loop? i with
  | none => simp [hl] at hstep
  | some l =>
    simp only [hl] at hstep
    split at hstep
    · next hidle hq =>
      obtain rfl := Option.some.inj hstep
      exact fun _ => .single (.stop hl hidle hq)
    · next t rest hidle hq =>
      obtain rfl := Option.some.inj hstep
      intro h
      have htake : (x.take i l t rest).Obeys Call.navigatesOnly := hx
      have hloop : (x.take i l t rest).loop? i =
          some { l with phase := .busy, queue := rest } := by
        rw [loop?_take hl, if_pos rfl]
      -- a load that is reported, or some other task
      by_cases ht : ∀ u, t = .work (.load u) → l.kind.failsOn u ∨ l.kind.reports = false
      · have hrun : Errands ⟨h, x⟩ ⟨.task i :: h, (x.take i l t rest).effect i t⟩ :=
          .single (.run hl hidle hq ht)
        exact (hrun.trans (runTask_balanced ha hloop ht htake _)).tail .rest
      · simp only [not_forall, not_or, Bool.not_eq_true, Bool.not_eq_false] at ht
        obtain ⟨u, rfl, hs, hk⟩ := ht
        have hload := Relation.ReflTransGen.single (Errand.load (h := h) hl hidle hq hk hs)
        exact (hload.trans (load_errands ha hloop hk hs htake h)).tail .rest
    · simp at hstep

theorem drainLoop_balanced (ha : Completes answer) (i n : Nat) {x : Instance}
    (hx : x.Obeys Call.navigatesOnly) : Balanced x (drainLoop answer i n x) := by
  induction n generalizing x with
  | zero => exact .refl x
  | succ n ih =>
    unfold drainLoop
    cases hstep : stepLoop answer x i with
    | none => exact .refl x
    | some y =>
      have hfirst := stepLoop_balanced ha hstep hx
      exact hfirst.trans (ih (hfirst.obeys hx))

theorem drain_balanced (ha : Completes answer) (i : Nat) {x : Instance}
    (hx : x.Obeys Call.navigatesOnly) : Balanced x (drain answer i x) :=
  drainLoop_balanced ha i _ hx

/-! ## starts -/

theorem prepare_balanced (ha : Completes answer) {x : Instance} {pl : Plan} {i e : Nat}
    {q : Preparation} (hp : Call.navigatesOnly (.start pl)) (hq : q ∈ pl.preparations)
    (hi : x.IsBuilding i e) (hx : x.Obeys Call.navigatesOnly) :
    Balanced x (prepare answer i e x q) := by
  have hurl : q.url? = none := by
    have hall := List.all_eq_true.1 hp q hq
    exact Option.isNone_iff_eq_none.1 hall
  cases q with
  | report r => exact report_balanced ha (.precede hp hq) hurl hx
  | submit w =>
    have hsubmit : Neutral none x (x.submitTo i (.work w)).2 := submitTo_neutral x i hurl
    exact .ofMove (.prepare hp hq hi) (hsubmit.trans (.note _ rfl))

theorem preparations_balanced (ha : Completes answer) {pl : Plan} {i e : Nat}
    (hp : Call.navigatesOnly (.start pl)) {qs : List Preparation} (hqs : qs ⊆ pl.preparations)
    (hanswers : Answers Call.navigatesOnly answer) {x : Instance} (hi : x.IsBuilding i e)
    (hx : x.Obeys Call.navigatesOnly) : Balanced x (qs.foldl (prepare answer i e) x) := by
  induction qs generalizing x with
  | nil => exact .refl x
  | cons q qs ih =>
    have hmem : q ∈ pl.preparations := hqs List.mem_cons_self
    have hfirst := prepare_balanced ha hp hmem hi hx
    have hbuilding := (prepare_leads hanswers hp hmem hi hx).building i e hi
    exact hfirst.trans (ih (List.subset_of_cons_subset hqs) hbuilding (hfirst.obeys hx))

theorem start_balanced (ha : Completes answer) (hanswers : Answers Call.navigatesOnly answer)
    {x : Instance} {pl : Plan} (hp : Call.navigatesOnly (.start pl))
    (hx : x.Obeys Call.navigatesOnly) : Balanced x (start answer x pl).2 := by
  unfold start
  simp only [spawn_eq]
  split
  · next howned =>
    exact .ofMove (.reject hp howned) (.frame [] rfl rfl rfl (by simp))
  · next howned =>
    intro h
    have hopen : Errands ⟨h, x⟩ ⟨.start :: h, x.openLoop pl.kind⟩ :=
      .single (.openLoop hp (by simpa using howned))
    have hbuilding := isBuilding_openLoop x pl.kind
    have hopened : (x.openLoop pl.kind).Obeys Call.navigatesOnly := hx
    have hprep : Balanced (x.openLoop pl.kind) (x.prepared answer pl) :=
      preparations_balanced ha hp (List.Subset.refl _) hanswers hbuilding hopened
    have hleads : Leads Call.navigatesOnly (x.openLoop pl.kind) (x.prepared answer pl) :=
      preparations_leads hanswers hp (List.Subset.refl _) hbuilding hopened
    have hnew := hleads.building _ _ hbuilding
    have hready := hopen.trans (hprep (.start :: h))
    cases ho : pl.outcome with
    | ready => exact hready.tail (.begin hp hnew ho)
    | refused reason => exact hready.tail (.fail hp hnew (by simp [ho]))
    | crashed => exact hready.tail (.fail hp hnew (by simp [ho]))

/-! ## calls -/

theorem shutdown_balanced (ha : Completes answer) {x : Instance}
    (hx : x.Obeys Call.navigatesOnly) : Balanced x (shutdown answer x).2 := by
  unfold shutdown
  split
  · exact .refl x
  · next i hi =>
    have hgive : Balanced x (x.giveUp i) := fun _ => .single (.giveUp hi)
    simp only [stopLoop_snd]
    exact hgive.trans (drain_balanced ha i (hgive.obeys hx))

theorem emit_balanced (ha : Completes answer) {x : Instance} {r : Report} {k : Option Nat}
    (hp : Call.navigatesOnly (.emit r k)) (hx : x.Obeys Call.navigatesOnly) :
    Balanced x (emit answer x r k).2 := by
  have hr : r.url? = none := Option.isNone_iff_eq_none.1 hp
  have hnow : Balanced x (report answer x r) := report_balanced ha (.emit hp) hr hx
  unfold emit
  split
  · exact .refl x
  · split
    · exact hnow
    · next i hi =>
      split
      · have hpost : Balanced x (x.submitTo i (.report r)).2 :=
          .ofMove (.post hp hi) (submitTo_neutral x i hr)
        exact hpost.trans (drain_balanced ha i (hpost.obeys hx))
      · exact hnow

theorem hold_balanced (ha : Completes answer) {x : Instance}
    (hx : x.Obeys Call.navigatesOnly) : Balanced x (hold answer x).2 := by
  unfold hold
  split
  · exact .refl x
  · exact .refl x
  · next i _ hi =>
    have hpost : Balanced x (x.submitTo i .block).2 :=
      .ofMove (.hold rfl hi) (submitTo_neutral x i rfl)
    split
    · next y hy => simpa [hy] using hpost
    · next y hy =>
      rw [hy] at hpost
      exact (hpost.trans (drain_balanced ha i (hpost.obeys hx))).trans
        (.ofMove (.mark _) (.frame [] rfl rfl rfl (by simp)))

theorem callAll_balanced (ha : Completes answer) {cs : List Call}
    (hcs : Call.everyAll Call.navigatesOnly cs) {x : Instance}
    (hx : x.Obeys Call.navigatesOnly) : Balanced x (callAll answer x cs) := by
  induction cs generalizing x with
  | nil => exact .refl x
  | cons c cs ih =>
    simp only [Call.everyAll, Bool.and_eq_true] at hcs
    have hcall := ha c x hcs.1 hx
    exact hcall.trans (ih hcs.2 (hcall.obeys hx))

theorem plain_balanced (answer : Caller) {c : Call} {x : Instance}
    (hc : c.every Call.navigatesOnly) (hplain : c.isPlain) :
    Balanced x (performWith answer c x).2 := by
  by_cases hurl : ∃ url, c = .setUrl url
  · obtain ⟨url, rfl⟩ := hurl
    exact fun _ => .single (.navigate url)
  · exact .ofMove (.plain answer hc hplain)
      (plain_neutral x answer hc hplain fun url h => hurl ⟨url, h⟩)

theorem performWith_completes (ha : Completes answer)
    (hanswers : Answers Call.navigatesOnly answer) : Completes (performWith answer) := by
  intro c x hc hx
  cases hplain : c.isPlain with
  | true => exact plain_balanced answer hc hplain
  | false =>
    cases c with
    | notify n =>
      simp only [performWith]
      split
      · have hn : n.url? = none := Option.isNone_iff_eq_none.1 hc
        exact (Balanced.ofMove (.notify hc) (announce_neutral x hn)).trans
          (tell_balanced ha n hx)
      · exact .refl x
    | start pl => exact start_balanced ha hanswers hc hx
    | shutdown => exact shutdown_balanced ha hx
    | emit r k => exact emit_balanced ha hc hx
    | hold => exact hold_balanced ha hx
    | «repeat» n cs => exact callAll_balanced ha (Call.everyAll_flatten _ hc) hx
    | _ => simp [Call.isPlain] at hplain

end

theorem perform_completes (depth : Nat) : Completes (perform depth) := by
  induction depth with
  | zero => exact fun _ x _ _ => .refl x
  | succ depth ih => exact performWith_completes ih (perform_leads _ depth)

/-- A call leaves nothing open that it began. -/
theorem call_completes : Completes call :=
  fun c x => perform_completes _ c x

/-! ## schedules -/

theorem turn_balanced {x : Instance} {t : Turn} (ht : t.every Call.navigatesOnly)
    (hx : x.Obeys Call.navigatesOnly) : Balanced x (x.turn t) := by
  cases t with
  | call c => exact call_completes c x ht hx
  | message i =>
    simp only [turn]
    cases hstep : stepLoop call x i with
    | none => exact .refl x
    | some y => exact stepLoop_balanced call_completes hstep hx
  | tick i => exact .ofMove (.tick i) (tickLoop_neutral x i)
  | stall i => exact .ofMove (.stall i) (stall_neutral x i)
  | goOn i => exact .ofMove (.goOn i) (unblock_neutral x i)

/-- A schedule is made of errands, and leaves nothing open. -/
theorem play_errands {x : Instance} {ts : List Turn}
    (hts : ∀ t ∈ ts, t.every Call.navigatesOnly) (hx : x.Obeys Call.navigatesOnly) :
    Errands ⟨[], x⟩ ⟨[], x.play ts⟩ := by
  induction ts generalizing x with
  | nil => exact .refl
  | cons t ts ih =>
    have hturn := turn_balanced (hts t List.mem_cons_self) hx
    exact (hturn []).trans
      (ih (fun u hu => hts u (List.mem_cons_of_mem t hu)) (hturn.obeys hx))

end BrowserHost.Instance
