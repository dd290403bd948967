import BrowserHost.Proofs.Alike
import BrowserHost.Proofs.Errand
import BrowserHost.Proofs.Lockstep
import BrowserHost.Proofs.Order
import Mathlib.Data.List.Nodup

/-!
# BrowserHost.Proofs.FalseStart

A start that comes to nothing.  While a session is running a start is rejected
before an engine is made.  Else a loop is opened, and the maker of the engine may
report things and queue work before it fails; what it reports is told, and what
it queues is lost.  All that is left of it are numbers that later loops, engines
and tellings skip.

* `start_fails`: what the maker of an engine that fails leaves behind;
* `Settled`: what later runs need to know of the run before;
* `false_start`: a start that fails is as if it had not been made.
-/

namespace BrowserHost.Engine

/-! ## what makers tell -/

/-- The notice that a report is told as. -/
def Report.notice? : Report → Option Notice
  | .urlChanged u => some (.urlChanged u)
  | .loadFinished u => some (.loadFinished u)
  | .closureRequested => some .closureRequested
  | .frames _ => none

/-- The notice that the maker of an engine has told, if it reports something. -/
def Preparation.notice? : Preparation → Option Notice
  | .report r => r.notice?
  | .submit _ => none

/-- All that the maker of an engine has told, in order. -/
def Plan.notices (pl : Plan) : List Notice :=
  pl.preparations.filterMap Preparation.notice?

end BrowserHost.Engine

namespace BrowserHost.Instance

open Engine Hub

/-- The URL that is tracked after some notices: the last one told. -/
def lastUrl (url : String) (ns : List Notice) : String :=
  ((ns.filterMap Notice.url?).getLast?).getD url

theorem lastUrl_append (url : String) (ns : List Notice) (n : Notice) :
    lastUrl url (ns ++ [n]) = n.url?.getD (lastUrl url ns) := by
  unfold lastUrl
  rw [List.filterMap_append]
  cases hn : n.url? with
  | none => simp [hn]
  | some u => simp [hn]

/-- The maker of an engine tells of URLs and closures only. -/
theorem mem_notices {pl : Plan} {n : Notice} (h : n ∈ pl.notices) :
    (∀ s, n ≠ .stateChanged s) ∧ ∀ b, n ≠ .hidden b := by
  obtain ⟨q, -, hq⟩ := List.mem_filterMap.1 h
  match q with
  | .report (.urlChanged u) | .report (.loadFinished u) | .report .closureRequested =>
    obtain rfl := Option.some.inj hq
    exact ⟨nofun, nofun⟩
  | .report (.frames _) | .submit _ => cases hq

/-! ## observers that make no calls -/

/-- No observer makes a call on hearing one of the notices. -/
def Ignores (x : Instance) (ns : List Notice) : Prop :=
  ∀ n ∈ ns, ∀ o ∈ x.observers, (Reaction.choose n o.reactions).1 = []

instance (x : Instance) (ns : List Notice) : Decidable (x.Ignores ns) :=
  inferInstanceAs (Decidable (∀ n ∈ ns, ∀ o ∈ x.observers, _))

theorem choose_of_nil {n : Notice} {rs : List Reaction} (h : (Reaction.choose n rs).1 = []) :
    (Reaction.choose n rs).2 = rs := by
  induction rs with
  | nil => rfl
  | cons r rs ih =>
    obtain ⟨on, call, times⟩ := r
    unfold Reaction.choose at h ⊢
    simp only at h ⊢
    split at h
    · cases h
    · next hskip =>
      rw [if_neg hskip]
      exact congrArg (_ :: ·) (ih h)

section

variable {x : Instance} {n : Notice} {answer : Caller}

/-- An observer that makes no call keeps its reactions. -/
theorem choose_ignored (hnames : (x.observers.map (·.name)).Nodup)
    (hn : ∀ o ∈ x.observers, (Reaction.choose n o.reactions).1 = []) (name : String) :
    x.choose name n = ([], x) := by
  unfold choose
  cases hr : x.reactions? name with
  | none => rfl
  | some rs =>
    obtain ⟨o, ho, rfl⟩ := Option.map_eq_some_iff.1 hr
    have hmem := List.mem_of_find?_eq_some ho
    have hname : o.name = name := by simpa using List.find?_some ho
    have hkept : (x.observers.map fun o' =>
        if o'.name = name then { o' with reactions := o.reactions } else o') = x.observers := by
      refine (List.map_congr_left fun o' ho' => ?_).trans (List.map_id x.observers)
      by_cases hsame : o'.name = name
      · obtain rfl := List.inj_on_of_nodup_map hnames ho' hmem (hsame.trans hname.symm)
        exact if_pos hsame
      · exact if_neg hsame
    simp only [hn o hmem, choose_of_nil (hn o hmem), setReactions, hkept]

theorem deliverAll_ignored (hnames : (x.observers.map (·.name)).Nodup)
    (hn : ∀ o ∈ x.observers, (Reaction.choose n o.reactions).1 = []) (k : Nat)
    (os : List ObserverId) :
    deliverAll answer k n x os =
      { x with journal := (os.reverse.map fun o => .heard k o n) ++ x.journal } := by
  induction os generalizing x with
  | nil => rfl
  | cons o os ih =>
    have hdeliver : deliver answer k n x o = x.note (.heard k o n) := by
      cases o with
      | quiet _ => rfl
      | named name =>
        have hchoose := choose_ignored (x := x.note (.heard k (.named name) n)) hnames hn name
        simp only [deliver, hchoose, react]
    rw [deliverAll_cons, hdeliver, ih (x := x.note (.heard k o n)) hnames hn]
    simp only [note, List.reverse_cons, List.map_append, List.map_cons, List.map_nil,
      List.append_assoc, List.cons_append, List.nil_append]

/-- A notice that is ignored is heard and sent, and that is all. -/
theorem tell_ignored (hnames : (x.observers.map (·.name)).Nodup)
    (hn : ∀ o ∈ x.observers, (Reaction.choose n o.reactions).1 = []) :
    tell answer n x =
      { x with
        tellings := x.tellings + 1
        hub := x.hub.publish n
        journal := .told x.tellings n ::
          (((x.hub.audience n).reverse.map fun o => .heard x.tellings o n) ++
            .telling x.tellings n :: x.journal) } := by
  unfold tell
  rw [deliverAll_ignored (x := x.announce n) hnames hn]
  rfl

end

/-! ## making an engine -/

/-- The instance when the maker of an engine has told the given notices.  A new loop
stands behind the others, and the journal has gone on. -/
def making (x : Instance) (ns : List Notice) (l : Loop) (f : FrameCounter) (es : List Entry) :
    Instance :=
  { x with
    attempts := x.attempts + 1
    url := lastUrl x.url ns
    hub := ns.foldl Hub.publish x.hub
    tellings := x.tellings + ns.length
    loops := x.loops ++ [l]
    frames := f
    journal := es ++ x.journal }

/-- Whether a task has run. -/
def Entry.isRun : Entry → Bool
  | .ran .. => true
  | _ => false

/-- Nothing but the notices was told, and no task has run. -/
structure Untouched (ns : List Notice) (es : List Entry) : Prop where
  notices : notices es = ns.reverse
  idle : ∀ e ∈ es, e.isRun = false

theorem Untouched.cons {ns : List Notice} {es : List Entry} (h : Untouched ns es) {e : Entry}
    (hn : e.notice? = none) (he : e.isRun = false) : Untouched ns (e :: es) where
  notices := by
    rw [← h.notices, Instance.notices, List.filterMap_cons, hn]
    rfl
  idle := List.forall_mem_cons.2 ⟨he, h.idle⟩

theorem Untouched.told {ns : List Notice} {es : List Entry} (h : Untouched ns es) (k : Nat)
    (n : Notice) (os : List ObserverId) :
    Untouched (ns ++ [n])
      (.told k n :: ((os.map fun o => .heard k o n) ++ .telling k n :: es)) := by
  have hbegun : Untouched (ns ++ [n]) (.telling k n :: es) := by
    refine ⟨?_, List.forall_mem_cons.2 ⟨rfl, h.idle⟩⟩
    rw [List.reverse_append, ← h.notices]
    rfl
  refine .cons ?_ rfl rfl
  induction os with
  | nil => exact hbegun
  | cons o os ih => exact ih.cons rfl rfl

section

variable {x : Instance} (answer : Caller) {ns : List Notice} {l : Loop} {f : FrameCounter}
  {es : List Entry}

theorem loop?_making (x : Instance) (ns : List Notice) (l : Loop) (f : FrameCounter)
    (es : List Entry) : (x.making ns l f es).loop? x.loops.length = some l := by
  unfold loop? making
  rw [List.getElem?_append_right (Nat.le_refl _), Nat.sub_self]
  rfl

theorem setLoop_making (l' : Loop) :
    (x.making ns l f es).setLoop x.loops.length l' = x.making ns l' f es := by
  unfold setLoop making
  simp only [List.set_append_right _ _ (Nat.le_refl _), Nat.sub_self, List.set_cons_zero]

theorem framesDisplayed_making (h : Untouched ns es) (n : Nat) :
    ∃ f' es', framesDisplayed n (x.making ns l f es) = x.making ns l f' es' ∧
      Untouched ns es' := by
  induction n generalizing f es with
  | zero => exact ⟨f, es, rfl, h⟩
  | succ n ih =>
    unfold framesDisplayed frameDisplayed
    split
    · exact ih (h.cons (e := .frame x.now) rfl rfl)
    · exact ih h

theorem tell_making (hnames : (x.observers.map (·.name)).Nodup) (h : Untouched ns es) {n : Notice}
    (hn : ∀ o ∈ x.observers, (Reaction.choose n o.reactions).1 = []) :
    ∃ es', tell answer n
        { x.making ns l f es with url := lastUrl x.url (ns ++ [n]) } =
          x.making (ns ++ [n]) l f es' ∧ Untouched (ns ++ [n]) es' := by
  have htold := h.told (x.tellings + ns.length) n
    ((ns.foldl Hub.publish x.hub).audience n).reverse
  rw [tell_ignored (x := { x.making ns l f es with url := lastUrl x.url (ns ++ [n]) }) hnames hn]
  refine ⟨_, ?_, htold⟩
  simp only [making, List.foldl_append, List.foldl_cons, List.foldl_nil, List.length_append,
    List.length_cons, List.length_nil, List.cons_append, List.append_assoc]
  rfl

theorem report_making (hnames : (x.observers.map (·.name)).Nodup) (h : Untouched ns es) (r : Report)
    (hr : x.Ignores r.notice?.toList) :
    ∃ f' es', report answer (x.making ns l f es) r =
        x.making (ns ++ r.notice?.toList) l f' es' ∧ Untouched (ns ++ r.notice?.toList) es' := by
  have htell {n : Notice} (hn : x.Ignores [n]) :=
    tell_making answer (l := l) (f := f) hnames h (hn n List.mem_cons_self)
  cases r with
  | urlChanged u =>
    obtain ⟨es', heq, hes'⟩ := htell hr
    rw [lastUrl_append] at heq
    exact ⟨f, es', heq, hes'⟩
  | loadFinished u =>
    obtain ⟨es', heq, hes'⟩ := htell hr
    rw [lastUrl_append] at heq
    exact ⟨f, es', heq, hes'⟩
  | closureRequested =>
    obtain ⟨es', heq, hes'⟩ := htell hr
    rw [lastUrl_append] at heq
    exact ⟨f, es', heq, hes'⟩
  | frames n =>
    obtain ⟨f', es', heq, hes'⟩ := framesDisplayed_making (x := x) (l := l) (f := f) h n
    exact ⟨f', es', by rwa [Report.notice?, Option.toList_none, List.append_nil],
      by rwa [Report.notice?, Option.toList_none, List.append_nil]⟩

/-- The maker of an engine queues work on the new loop, or reports something. -/
theorem prepare_making (hnames : (x.observers.map (·.name)).Nodup) (h : Untouched ns es) (e : Nat)
    (q : Preparation) (hq : x.Ignores q.notice?.toList) :
    ∃ l' f' es', prepare answer x.loops.length e (x.making ns l f es) q =
        x.making (ns ++ q.notice?.toList) l' f' es' ∧ Untouched (ns ++ q.notice?.toList) es' := by
  cases q with
  | report r =>
    obtain ⟨f', es', heq, hes'⟩ := report_making answer (l := l) (f := f) hnames h r hq
    exact ⟨l, f', es', heq, hes'⟩
  | submit w =>
    have hsubmit : ∃ b l' es', (x.making ns l f es).submitTo x.loops.length (.work w) =
        (b, x.making ns l' f es') ∧ Untouched ns es' := by
      rw [submitTo_eq, loop?_making]
      simp only
      split
      · rw [setLoop_making]
        exact ⟨true, _, .queued l.engine (.work w) :: es, rfl, h.cons rfl rfl⟩
      · exact ⟨false, l, es, rfl, h⟩
    obtain ⟨b, l', es', hsubmit, hes'⟩ := hsubmit
    simp only [prepare, hsubmit, Preparation.notice?, Option.toList_none, List.append_nil]
    exact ⟨l', f, .submitted e b :: es', rfl, hes'.cons rfl rfl⟩

theorem prepared_making (hnames : (x.observers.map (·.name)).Nodup) (pl : Plan)
    (hpl : x.Ignores pl.notices) :
    ∃ l f es, x.prepared answer pl = x.making pl.notices l f es ∧ Untouched pl.notices es := by
  have hrun (qs : List Preparation) (hqs : x.Ignores (qs.filterMap Preparation.notice?))
      {ns : List Notice} {l : Loop} {f : FrameCounter} {es : List Entry} (h : Untouched ns es) :
      ∃ l' f' es', qs.foldl (prepare answer x.loops.length (x.attempts + 1)) (x.making ns l f es) =
          x.making (ns ++ qs.filterMap Preparation.notice?) l' f' es' ∧
        Untouched (ns ++ qs.filterMap Preparation.notice?) es' := by
    induction qs generalizing ns l f es with
    | nil => exact ⟨l, f, es, by rw [List.filterMap_nil, List.append_nil]; rfl, by simpa using h⟩
    | cons q qs ih =>
      have hsplit : (q :: qs).filterMap Preparation.notice? =
          q.notice?.toList ++ qs.filterMap Preparation.notice? := by
        rw [List.filterMap_cons]
        cases q.notice? <;> rfl
      rw [hsplit] at hqs ⊢
      obtain ⟨l', f', es', hfirst, hes'⟩ := prepare_making answer (l := l) (f := f)
        hnames h (x.attempts + 1) q fun n hn => hqs n (List.mem_append_left _ hn)
      have hrest := ih (fun n hn => hqs n (List.mem_append_right _ hn)) (l := l') (f := f') hes'
      rw [List.foldl_cons, hfirst, ← List.append_assoc]
      exact hrest
  have hopened : Untouched [] [.created (x.attempts + 1) { x.settings with url := x.url }] :=
    ⟨rfl, fun _ hmem => List.mem_singleton.1 hmem ▸ rfl⟩
  exact hrun pl.preparations hpl hopened

theorem start_fault (howned : x.owned = none) {pl : Plan} {e : Fault}
    (he : pl.outcome.fault? = some e) : (start answer x pl).1 = .fault e := by
  have hfree : ¬x.owned.isSome := by simp [howned]
  simp only [start, spawn_eq, if_neg hfree, he]

/-- What the maker of an engine that fails leaves behind: the notices that it has told,
and a loop that never had an engine. -/
theorem start_fails (hnames : (x.observers.map (·.name)).Nodup) (howned : x.owned = none)
    {pl : Plan} {e : Fault} (he : pl.outcome.fault? = some e) (hpl : x.Ignores pl.notices) :
    ∃ l f es, start answer x pl = (.fault e, x.making pl.notices l f es) ∧ l.phase = .refused ∧
      Untouched pl.notices es := by
  obtain ⟨l, f, es, hprepared, hes⟩ := prepared_making answer hnames pl hpl
  have hbuilt : (x.making pl.notices l f es).built x.loops.length pl =
      x.making pl.notices (l.finish .refused) f es := by
    unfold built
    rw [loop?_making]
    cases ho : pl.outcome with
    | ready => simp [ho, Outcome.fault?] at he
    | refused reason => exact setLoop_making _
    | crashed => exact setLoop_making _
  have hfree : ¬x.owned.isSome := by simp [howned]
  refine ⟨l.finish .refused, f, es, ?_, rfl, hes⟩
  simp only [start, spawn_eq, if_neg hfree, he]
  rw [hprepared, hbuilt]

end

/-! ## between runs -/

/-- What later runs need to know of the run before: all that is referred to exists,
observers have names of their own, and engines are numbered. -/
structure Settled (x : Instance) : Prop where
  bounded : ∀ i l, x.loop? i = some l → l.engine ≤ x.attempts
  sessions : ∀ i ∈ x.sessions, i < x.loops.length
  live : ∀ i, x.dispatcher = some i → i < x.loops.length
  held : ∀ i, x.holding = some i → i < x.loops.length
  names : (x.observers.map (·.name)).Nodup
  tied : x.owned = x.dispatcher

/-- The gap that leaves nothing out. -/
def Gap.none : Gap where
  loop := 0
  loops := 0
  engine := 1
  engines := 0
  tellings := 0
  deaf := false
  here := []
  there := []
  pos := Nat.one_pos

theorem shifted_ofSettings (s : BrowserSettings) :
    Shifted .none (ofSettings s) (ofSettings s) := by
  constructor <;> simp [ofSettings, loop?, Gap.none, SameHub.refl]

theorem Gap.turns_none (ts : List Turn) : ts.filterMap Gap.none.turn? = ts := by
  have hindex (i : Nat) : Gap.none.index? i = some i := by
    simp [Gap.index?, Gap.none]
  have hturn : Gap.none.turn? = some := by
    funext t
    cases t <;> simp [Gap.turn?, hindex]
  rw [hturn, List.filterMap_some]

/-- Every run comes to such a point. -/
theorem settled_play (s : BrowserSettings) (ts : List Turn) : Settled ((ofSettings s).play ts) := by
  have hself := play_shifted (shifted_ofSettings s) ts
  rw [Gap.turns_none] at hself
  have horderly := @play_orderly s ts
  generalize (ofSettings s).play ts = x at hself horderly
  have hstrand {i : Nat} {l : Loop} (hl : x.loop? i = some l) :
      x.outline.loop? i = some (strand l) := by
    unfold loop? at hl
    simp only [Outline.loop?, outline, List.getElem?_map, hl, Option.map_some]
  refine ⟨fun i l hl => ?_, fun i hi => ?_, hself.live, hself.held, hself.names,
    horderly.owned⟩
  · exact horderly.bounded i _ (hstrand hl)
  · obtain ⟨g, hg⟩ := horderly.present i hi
    have hlt := (List.getElem?_eq_some_iff.1 hg).1
    simpa [outline] using hlt

/-- The gap that a start leaves which opened so many loops and told so much. -/
def gapAfter (x : Instance) (loops tellings : Nat) (deaf : Bool) (here : List Entry) : Gap where
  loop := x.loops.length
  loops := loops
  engine := x.attempts + 1
  engines := 1
  tellings := tellings
  deaf := deaf
  here := here
  there := x.journal
  pos := Nat.succ_pos _

section

variable {x : Instance} (k : Nat) (deaf : Bool) (j : List Entry) (n : Nat)

theorem index_gapAfter {i : Nat} (hi : i < x.loops.length) : (x.gapAfter k n deaf j).index i = i :=
  if_pos hi

theorem map_index_gapAfter {o : Option Nat} (ho : ∀ i, o = some i → i < x.loops.length) :
    o = o.map (x.gapAfter k n deaf j).index := by
  cases o with
  | none => rfl
  | some i => rw [Option.map_some, index_gapAfter k deaf j n (ho i rfl)]

/-- Loops that are there already keep their numbers. -/
theorem Settled.loop_gapAfter (hx : Settled x) (ls : List Loop) (i : Nat) :
    (x.loops ++ ls)[(x.gapAfter ls.length n deaf j).index i]? =
      (x.loops[i]?).map (x.gapAfter ls.length n deaf j).renumber := by
  by_cases hi : i < x.loops.length
  · have hbounded := hx.bounded i _ (List.getElem?_eq_getElem hi)
    have hnumber : (x.gapAfter ls.length n deaf j).number x.loops[i].engine = x.loops[i].engine :=
      if_pos (Nat.lt_succ_of_le hbounded)
    rw [index_gapAfter _ _ _ _ hi, List.getElem?_append_left hi, List.getElem?_eq_getElem hi,
      Option.map_some, Gap.renumber, hnumber]
  · have hindex : (x.gapAfter ls.length n deaf j).index i = i + ls.length := if_neg hi
    rw [hindex, List.getElem?_eq_none (by rw [List.length_append]; omega),
      List.getElem?_eq_none (Nat.le_of_not_lt hi), Option.map_none]

end

/-- A start that leaves only loops that never had an engine leaves a gap. -/
theorem Settled.shifted {x : Instance} (hx : Settled x) {ls : List Loop}
    (hls : ∀ l ∈ ls, l.phase = .refused) {deaf : Bool} {hub hub' : Hub}
    (hhub : SameHub deaf hub hub') {f : FrameCounter} (hf : x.dispatcher.isSome → f = x.frames)
    (n : Nat) (u : String) (j : List Entry) :
    Shifted (x.gapAfter ls.length n deaf j)
      { x with
        attempts := x.attempts + 1
        url := u
        hub := hub
        tellings := x.tellings + n
        loops := x.loops ++ ls
        frames := f
        journal := j }
      { x with url := u, hub := hub' } where
  settings := rfl
  machine := rfl
  url := rfl
  hidden := rfl
  observers := rfl
  quiet := rfl
  now := rfl
  hub := hhub
  frames := hf
  dispatcher := map_index_gapAfter _ _ _ _ hx.live
  owned := map_index_gapAfter _ _ _ _ (hx.tied ▸ hx.live)
  sessions := by
    refine (List.map_id x.sessions).symm.trans (List.map_congr_left fun i hi => ?_)
    exact (index_gapAfter _ _ _ _ (hx.sessions i hi)).symm
  holding := map_index_gapAfter _ _ _ _ hx.held
  loop := hx.loop_gapAfter deaf j n ls
  count := List.length_append
  past := Nat.le_refl _
  gap i hi hi' := by
    have hlt : i - x.loops.length < ls.length := by
      simp only [gapAfter] at hi hi'
      omega
    refine ⟨ls[i - x.loops.length], ?_, hls _ (List.getElem_mem hlt)⟩
    unfold loop?
    rw [List.getElem?_append_right hi, List.getElem?_eq_getElem hlt]
  attempts := rfl
  numbered := Nat.le_refl _
  tellings := rfl
  journal := ⟨[], [], rfl, rfl, rfl⟩
  names := hx.names
  live := hx.live
  held := hx.held

/-! ## what comes after -/

/-- Whatever happens from then on, the two are the same but for the gap, and every call
gets the same reply. -/
def Gap.Hides (g : Gap) (x y : Instance) : Prop :=
  ∀ (ts : List Turn) (c : Call), Shifted g (x.play ts) (y.play (ts.filterMap g.turn?)) ∧
    g.reply (call c (x.play ts)).1 = g.reply (call c (y.play (ts.filterMap g.turn?))).1

theorem Shifted.hides {g : Gap} {x y : Instance} (h : Shifted g x y) : g.Hides x y := by
  intro ts c
  have hplayed := play_shifted h ts
  exact ⟨hplayed, ((call_inStep g).agrees c _ _ hplayed).reply⟩

/-- No engine in the gap gets a task to run. -/
theorem Shifted.idle {g : Gap} {x y : Instance} (h : Shifted g x y) {e : Nat}
    (he : g.engine ≤ e) (he' : e < g.engine + g.engines) :
    ∃ es, x.journal = es ++ g.here ∧ ∀ t, .ran e t ∉ es := by
  obtain ⟨es, es', hx, -, hes⟩ := h.journal
  refine ⟨es, hx, fun t hmem => ?_⟩
  have hknown : .ran e t ∈ es'.map g.entry := hes ▸ List.mem_map_of_mem (f := g.known) hmem
  obtain ⟨d, -, hd⟩ := List.mem_map.1 hknown
  cases d with
  | ran d t' =>
    obtain ⟨hnumber, -⟩ := Entry.ran.inj hd
    unfold Gap.number at hnumber
    split at hnumber <;> omega
  | _ => cases hd

/-- A start that failed has left nothing of `x` changed but the URL, which is the last one
told, and what was sent over the channel: just what the maker of the engine told.  None
of the tasks that it queued has run. -/
structure Aborted (pl : Plan) (x z : Instance) : Prop where
  machine : z.machine = x.machine
  status : z.status = { x.status with url := lastUrl x.url pl.notices }
  registries : ∀ role, z.hub.registry role = x.hub.registry role
  hub : z.hub = pl.notices.foldl Hub.publish x.hub
  told : ∃ es, z.journal = es ++ x.journal ∧ notices es = pl.notices.reverse ∧
    (∀ s, .stateChanged s ∉ notices es) ∧ (∀ b, .hidden b ∉ notices es) ∧ ∀ e t, .ran e t ∉ es

theorem registry_publishAll (h : Hub) (ns : List Notice) (role : Role) :
    (ns.foldl Hub.publish h).registry role = h.registry role := by
  induction ns generalizing h with
  | nil => rfl
  | cons n ns ih => rw [List.foldl_cons, ih, registry_publish]

theorem aborted_making {x : Instance} (hidle : x.dispatcher = none) {pl : Plan} {l : Loop}
    {f : FrameCounter} {es : List Entry} (hes : Untouched pl.notices es) :
    Aborted pl x (x.making pl.notices l f es) where
  machine := rfl
  status := by
    have hcount (role : Role) := registry_publishAll x.hub pl.notices role
    have hstate := hcount .state
    have hlifecycle := hcount .lifecycle
    unfold Hub.registry at hstate hlifecycle
    simp [Instance.status, Instance.fps, making, hidle, hstate, hlifecycle]
  registries := registry_publishAll _ _
  hub := rfl
  told := by
    have htold {n : Notice} (hn : n ∈ notices es) : n ∈ pl.notices := by
      rw [hes.notices] at hn
      exact List.mem_reverse.1 hn
    exact ⟨es, rfl, hes.notices, fun s hs => (mem_notices (htold hs)).1 s rfl,
      fun b hb => (mem_notices (htold hb)).2 b rfl,
      fun e t hmem => Bool.noConfusion (hes.idle (.ran e t) hmem)⟩

theorem sameHub_publishAll (h : Hub) (ns : List Notice) (deaf : Bool) :
    SameHub deaf (ns.foldl Hub.publish h) (if deaf then h else ns.foldl Hub.publish h) := by
  cases deaf with
  | false => exact .refl _ _
  | true =>
    have hpublish (h' : Hub) (hh : SameHub true h' h) :
        SameHub true (ns.foldl Hub.publish h') h := by
      induction ns generalizing h' with
      | nil => exact hh
      | cons n ns ih => exact ih _ (hh.publish_left n)
    exact hpublish h (.refl _ _)

section

variable {x : Instance} {pl : Plan}

theorem exists_call_start (x : Instance) (pl : Plan) :
    ∃ answer, call (.start pl) x = start answer x pl :=
  call_eq (.start pl) x

/-- A start that is rejected is only counted. -/
theorem Settled.start_rejected (hx : Settled x) (hrunning : x.status.running) (pl : Plan) :
    let z := (call (.start pl) x).2
    call (.start pl) x = (.fault (.engineLoop "engine loop is already running"),
        { x with attempts := x.attempts + 1 }) ∧
      (x.gapAfter 0 0 false x.journal).Hides z x := by
  obtain ⟨answer, hcall⟩ := exists_call_start x pl
  have howned : x.owned.isSome := by
    rw [hx.tied]
    exact hrunning
  have hrejected : call (.start pl) x = (.fault (.engineLoop "engine loop is already running"),
      { x with attempts := x.attempts + 1 }) := by
    rw [hcall]
    exact if_pos howned
  have hshifted := hx.shifted (fun l hl => absurd hl List.not_mem_nil) (.refl false x.hub)
    (fun _ => rfl) 0 x.url x.journal
  rw [List.append_nil] at hshifted
  rw [hrejected]
  exact ⟨rfl, hshifted.hides⟩

/-- A start that fails leaves a gap, and what its maker told. -/
theorem Settled.start_aborted (hx : Settled x) (hidle : x.dispatcher = none)
    (hready : pl.outcome ≠ .ready) (hignores : x.Ignores pl.notices) :
    let z := (call (.start pl) x).2
    Aborted pl x z ∧
      (∀ deaf, (x.gapAfter 1 pl.notices.length deaf z.journal).Hides z
        { x with
          url := lastUrl x.url pl.notices
          hub := if deaf then x.hub else z.hub }) ∧
      ∀ us, ∃ es, (z.play us).journal = es ++ z.journal ∧
        ∀ t, .ran (x.attempts + 1) t ∉ es := by
  obtain ⟨answer, hcall⟩ := exists_call_start x pl
  obtain ⟨e, he⟩ : ∃ e, pl.outcome.fault? = some e := by
    cases ho : pl.outcome with
    | ready => exact absurd ho hready
    | refused reason => exact ⟨_, rfl⟩
    | crashed => exact ⟨_, rfl⟩
  obtain ⟨l, f, es, hstart, hrefused, hes⟩ :=
    start_fails answer hx.names (hx.tied.trans hidle) he hignores
  have hshifted (deaf : Bool) := hx.shifted
    (fun l' hl' => List.mem_singleton.1 hl' ▸ hrefused)
    (sameHub_publishAll x.hub pl.notices deaf) (f := f) (by simp [hidle])
    pl.notices.length (lastUrl x.url pl.notices) (es ++ x.journal)
  rw [hcall, hstart]
  refine ⟨aborted_making hidle hes, fun deaf => (hshifted deaf).hides, fun us => ?_⟩
  exact (play_shifted (hshifted true) us).idle (Nat.le_refl _) (Nat.lt_succ_self _)

end

/-- Starts that fail are as if they had not been made.  While a session is running a
start is rejected, and only counted.  Else a start whose engine is refused fails for that
reason, and one whose maker crashes fails too.  If observers make no calls on what the maker
of the engine reports, this leaves only the URL, which is the last one reported; and
whatever happens from then on happens as it would have happened with that URL and
without the start, but that subscribers read what was reported. -/
theorem false_start (s : BrowserSettings) (ts : List Turn) (pl : Plan) :
    let x := (ofSettings s).play ts
    let z := (call (.start pl) x).2
    (x.status.running →
        call (.start pl) x = (.fault (.engineLoop "engine loop is already running"),
            { x with attempts := x.attempts + 1 }) ∧
          (x.gapAfter 0 0 false x.journal).Hides z x) ∧
      (x.status.running = false →
        (∀ reason, pl.outcome = .refused reason → (call (.start pl) x).1 = .fault reason) ∧
        (pl.outcome = .crashed → (call (.start pl) x).1 =
          .fault (.engineLoop "engine thread exited during start-up")) ∧
        (pl.outcome ≠ .ready → x.Ignores pl.notices →
          Aborted pl x z ∧
          (∀ deaf, (x.gapAfter 1 pl.notices.length deaf z.journal).Hides z
            { x with
              url := lastUrl x.url pl.notices
              hub := if deaf then x.hub else z.hub }) ∧
          ∀ us, ∃ es, (z.play us).journal = es ++ z.journal ∧
            ∀ t, .ran (x.attempts + 1) t ∉ es)) := by
  intro x
  have hx : Settled x := settled_play s ts
  clear_value x
  obtain ⟨answer, hcall⟩ := exists_call_start x pl
  refine ⟨fun hrunning => hx.start_rejected hrunning pl, fun hrunning => ?_⟩
  have hidle : x.dispatcher = none := by simpa [status] using hrunning
  have hfault {e : Fault} (he : pl.outcome.fault? = some e) :
      (call (.start pl) x).1 = .fault e := by
    rw [hcall]
    exact start_fault answer (hx.tied.trans hidle) he
  refine ⟨fun reason ho => hfault ?_, fun ho => hfault ?_, hx.start_aborted hidle⟩
  · rw [ho]
    rfl
  · rw [ho]
    rfl

/-- The maker of an engine reports a load, queues work and gives up. -/
def surrender : Plan where
  preparations := [.report (.loadFinished "b"), .submit (.load "c")]
  outcome := .refused (.engineLoop "no display")

/-- An observer that ends the session when it is asked to, and a subscriber. -/
def lobby : List Turn :=
  [.call (.register .lifecycle "o" [⟨.closureRequested, .shutdown, 1⟩]), .call (.subscribe "s")]

theorem false_start_surrender :
    let x := (ofSettings ({} : Settings).browser).play lobby
    let y := (ofSettings ({} : Settings).browser).play (lobby ++ [.call (.start {})])
    let z := (call (.start surrender) x).2
    x.status.running = false ∧ x.Ignores surrender.notices ∧ y.status.running ∧
      (call (.start surrender) y).1 = .fault (.engineLoop "engine loop is already running") ∧
      (call (.start surrender) x).1 = .fault (.engineLoop "no display") ∧
      z.status = { x.status with url := "b" } ∧
      (z.play [.call (.start {}), .message 1]).status =
        ({ x with url := "b" }.play [.call (.start {}), .message 0]).status := by
  intro x y z
  have hrunning : y.status.running := by decide
  have hstopped : x.status.running = false := by decide
  have hignores : x.Ignores surrender.notices := by decide
  obtain ⟨hrejected, -⟩ := false_start ({} : Settings).browser (lobby ++ [.call (.start {})])
    surrender
  obtain ⟨-, hfailed⟩ := false_start ({} : Settings).browser lobby surrender
  obtain ⟨hrefused, -, haborted⟩ := hfailed hstopped
  obtain ⟨hleft, hhides, -⟩ := haborted nofun hignores
  have hlater := hhides true [.call (.start {}), .message 1] .read
  exact ⟨hstopped, hignores, hrunning, congrArg Prod.fst (hrejected hrunning).1, hrefused _ rfl,
    hleft.status, hlater.1.status⟩

end BrowserHost.Instance
