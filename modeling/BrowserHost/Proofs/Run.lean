import BrowserHost.Proofs.Move

/-!
# BrowserHost.Proofs.Run

Every call, every message and every schedule is made of changes.  The proofs
follow the definitions from the inside out: what an observer does, a telling, a
task, a loop, a call, a turn.

* `perform_leads`: a call is made of changes, however deep calls nest;
* `play_changes`: a schedule is made of changes;
* `play_induction`: what every change keeps holds after every schedule.
-/

namespace BrowserHost.Instance

open Engine Hub

/-! ## from one point to a later one -/

/-- The instance gets from `x` to `y` by changes, and builds none of the loops
that are being built in `x`. -/
structure Leads (p : Call → Bool) (x y : Instance) : Prop where
  changes : Changes p x y
  building : ∀ i e, x.IsBuilding i e → y.IsBuilding i e

/-- What calls do is made of changes. -/
def Answers (p : Call → Bool) (answer : Caller) : Prop :=
  ∀ c x, c.every p → x.Obeys p → Leads p x (answer c x).2

namespace Changes

variable {p : Call → Bool} {x y : Instance}

theorem obeys (h : Changes p x y) (hx : x.Obeys p) : y.Obeys p := by
  induction h with
  | refl => exact hx
  | tail _ hstep ih =>
    obtain ⟨b, hb⟩ := hstep.extends
    exact hb.obeys ih

/-- A loop stays, with its engine. -/
theorem loop (h : Changes p x y) {i : Nat} {l : Loop} (hl : x.loop? i = some l) :
    ∃ l', y.loop? i = some l' ∧ l'.engine = l.engine ∧ l'.kind = l.kind := by
  induction h with
  | refl => exact ⟨l, hl, rfl, rfl⟩
  | tail _ hstep ih =>
    obtain ⟨m, hm, he, hk⟩ := ih
    obtain ⟨b, hb⟩ := hstep.extends
    obtain ⟨l', hl', he', hk', -⟩ := hb.loop i m hm
    exact ⟨l', hl', he'.trans he, hk'.trans hk⟩

theorem journal (h : Changes p x y) : x.journal <:+ y.journal := by
  induction h with
  | refl => exact List.suffix_rfl
  | tail _ hstep ih =>
    obtain ⟨b, hb⟩ := hstep.extends
    exact ih.trans hb.journal

end Changes

namespace Leads

variable {p : Call → Bool} {x y z : Instance}

theorem refl (x : Instance) : Leads p x x :=
  ⟨.refl, fun _ _ h => h⟩

theorem trans (h : Leads p x y) (h' : Leads p y z) : Leads p x z :=
  ⟨h.changes.trans h'.changes, fun i e hi => h'.building i e (h.building i e hi)⟩

theorem ofMove (h : Move p x y) : Leads p x y :=
  ⟨.single (.move h), fun _ _ hi => h.extends.isBuilding hi⟩

theorem obeys (h : Leads p x y) (hx : x.Obeys p) : y.Obeys p :=
  h.changes.obeys hx

end Leads

/-! ## tellings -/

section

variable {p : Call → Bool} {answer : Caller}

theorem react_leads (ha : Answers p answer) (name : String) {cs : List Call} {x : Instance}
    (hcs : Call.everyAll p cs) (hx : x.Obeys p) : Leads p x (react answer name x cs) := by
  induction cs generalizing x with
  | nil => exact .refl x
  | cons c cs ih =>
    simp only [Call.everyAll, Bool.and_eq_true] at hcs
    have hcall := ha c x hcs.1 hx
    have hnote : Leads p x ((answer c x).2.note (.answered name c (answer c x).1)) :=
      hcall.trans (.ofMove (.answer name c _))
    exact hnote.trans (ih hcs.2 (hnote.obeys hx))

theorem deliver_leads (ha : Answers p answer) (k : Nat) (n : Notice) {x : Instance}
    (o : ObserverId) (hx : x.Obeys p) : Leads p x (deliver answer k n x o) := by
  have hheard : Leads p x (x.note (.heard k o n)) := .ofMove (.hear k o n)
  cases o with
  | quiet i => exact hheard
  | named name =>
    have hobeys := hheard.obeys hx
    have hchoose := hheard.trans (.ofMove (.choose name n))
    exact hchoose.trans
      (react_leads ha name (choose_everyAll hobeys name n) (hchoose.obeys hx))

theorem deliverAll_leads (ha : Answers p answer) (k : Nat) (n : Notice) {x : Instance}
    (os : List ObserverId) (hx : x.Obeys p) : Leads p x (deliverAll answer k n x os) := by
  induction os generalizing x with
  | nil => exact .refl x
  | cons o os ih =>
    have hfirst := deliver_leads ha k n o hx
    exact hfirst.trans (ih (hfirst.obeys hx))

/-- What follows on the beginning of a telling. -/
theorem tell_leads (ha : Answers p answer) (n : Notice) {x : Instance} (hx : x.Obeys p) :
    Leads p (x.announce n) (tell answer n x) :=
  have hbegun : (x.announce n).Obeys p := hx
  (deliverAll_leads ha x.tellings n (x.hub.audience n) hbegun).trans
    (.ofMove (.conclude x.tellings n))

/-- What follows on what a report changes by itself. -/
theorem raise_leads (ha : Answers p answer) {x : Instance} (r : Report) (hx : x.Obeys p) :
    Leads p (x.raise r) (report answer x r) := by
  cases r with
  | urlChanged u => exact tell_leads ha _ (show Obeys p { x with url := u } from hx)
  | loadFinished u => exact tell_leads ha _ (show Obeys p { x with url := u } from hx)
  | closureRequested => exact tell_leads ha _ hx
  | frames n => exact .refl _

theorem report_leads (ha : Answers p answer) {x : Instance} {r : Report}
    (hmove : Move p x (x.raise r)) (hx : x.Obeys p) : Leads p x (report answer x r) :=
  (Leads.ofMove hmove).trans (raise_leads ha r hx)

/-! ## tasks -/

/-- An engine that reports its loads does so after each. -/
theorem load_leads (ha : Answers p answer) {x : Instance} (i : Nat) (u : String)
    (hx : x.Obeys p) : Leads p (x.arrive i u) (load answer x i u) := by
  unfold arrive load
  cases hl : x.loop? i with
  | none => exact .refl x
  | some l =>
    simp only
    by_cases hfail : l.kind.failsOn u
    · simpa only [hfail, if_true] using .refl _
    · simp only [hfail, if_false, Bool.false_eq_true]
      by_cases hk : l.kind.reports
      · simp only [hk, if_true]
        have hy : (x.note (.loaded l.engine u)).Obeys p := hx
        have hfirst : Leads p (x.note (.loaded l.engine u))
            (report answer (x.note (.loaded l.engine u)) (.urlChanged u)) :=
          report_leads ha (.echo hl hk (.inl rfl)) hy
        obtain ⟨l', hl', -, hk'⟩ := hfirst.changes.loop hl
        exact hfirst.trans
          (report_leads ha (.echo hl' (hk'.symm ▸ hk) (.inr rfl)) (hfirst.obeys hy))
      · simpa only [hk, if_false] using .refl _

theorem confirm_leads (ha : Answers p answer) {x : Instance} (s : State) (hx : x.Obeys p) :
    Leads p (x.settleOn s) (confirm answer x s) := by
  unfold settleOn confirm
  simp only
  split
  · exact tell_leads ha _ hx
  · exact .refl _

/-- What follows on the effect of a task. -/
theorem runTask_leads (ha : Answers p answer) {x : Instance} (i : Nat) (t : Task)
    (hx : x.Obeys p) : Leads p (x.effect i t) (runTask answer x i t) := by
  have hview (v : View) : (x.setView i v).Obeys p := (setView_extends x i v).obeys hx
  match t with
  | .work (.load u) => exact load_leads ha i u hx
  | .work (.view v) => exact .refl _
  | .lifecycle s => exact confirm_leads ha s (hview _)
  | .visibility h => exact tell_leads ha _ (hview _)
  | .report r => exact raise_leads ha r hx
  | .block => exact .refl _

/-! ## loops -/

theorem stepLoop_leads (ha : Answers p answer) {x y : Instance} {i : Nat}
    (hstep : stepLoop answer x i = some y) (hx : x.Obeys p) : Leads p x y := by
  unfold stepLoop at hstep
  cases hl : x.loop? i with
  | none => simp [hl] at hstep
  | some l =>
    simp only [hl] at hstep
    split at hstep
    · next hidle hq =>
      obtain rfl := Option.some.inj hstep
      exact .ofMove (.stop hl hidle hq)
    · next t rest hidle hq =>
      obtain rfl := Option.some.inj hstep
      have hrun : Leads p x ((x.take i l t rest).effect i t) := .ofMove (.run hl hidle hq)
      have htake : (x.take i l t rest).Obeys p := hx
      exact (hrun.trans (runTask_leads ha i t htake)).trans (.ofMove (.rest i))
    · simp at hstep

theorem drainLoop_leads (ha : Answers p answer) (i n : Nat) {x : Instance} (hx : x.Obeys p) :
    Leads p x (drainLoop answer i n x) := by
  induction n generalizing x with
  | zero => exact .refl x
  | succ n ih =>
    unfold drainLoop
    cases hstep : stepLoop answer x i with
    | none => exact .refl x
    | some y =>
      have hfirst := stepLoop_leads ha hstep hx
      exact hfirst.trans (ih (hfirst.obeys hx))

theorem drain_leads (ha : Answers p answer) (i : Nat) {x : Instance} (hx : x.Obeys p) :
    Leads p x (drain answer i x) :=
  drainLoop_leads ha i _ hx

/-! ## starts -/

theorem prepare_leads (ha : Answers p answer) {x : Instance} {pl : Plan} {i e : Nat}
    {q : Preparation} (hp : p (.start pl)) (hq : q ∈ pl.preparations) (hi : x.IsBuilding i e)
    (hx : x.Obeys p) : Leads p x (prepare answer i e x q) := by
  cases q with
  | report r => exact report_leads ha (.precede hp hq) hx
  | submit w => exact .ofMove (.prepare hp hq hi)

theorem preparations_leads (ha : Answers p answer) {pl : Plan} {i e : Nat} (hp : p (.start pl))
    {qs : List Preparation} (hqs : qs ⊆ pl.preparations) {x : Instance} (hi : x.IsBuilding i e)
    (hx : x.Obeys p) : Leads p x (qs.foldl (prepare answer i e) x) := by
  induction qs generalizing x with
  | nil => exact .refl x
  | cons q qs ih =>
    have hfirst := prepare_leads ha hp (hqs List.mem_cons_self) hi hx
    exact hfirst.trans (ih (List.subset_of_cons_subset hqs) (hfirst.building i e hi)
      (hfirst.obeys hx))

/-- A new loop is being built. -/
theorem isBuilding_openLoop (x : Instance) (k : Kind) :
    (x.openLoop k).IsBuilding x.loops.length (x.attempts + 1) :=
  ⟨_, by rw [loop?_openLoop, if_pos rfl], rfl, rfl⟩

theorem isBuilding_built {x : Instance} {i j e : Nat} (h : x.IsBuilding i e) (hij : i ≠ j)
    (pl : Plan) : (x.built j pl).IsBuilding i e := by
  obtain ⟨l, hl, hb, he⟩ := h
  unfold built
  split
  · exact ⟨l, hl, hb, he⟩
  · next m hm => split <;> exact ⟨l, by simpa [loop?_setLoop hm, hij.symm] using hl, hb, he⟩

/-- The loop that a start opens, when the maker of its engine has done all
else. -/
def prepared (answer : Caller) (x : Instance) (pl : Plan) : Instance :=
  pl.preparations.foldl (prepare answer x.loops.length (x.attempts + 1)) (x.openLoop pl.kind)

theorem spawn_eq (x : Instance) (pl : Plan) :
    spawn answer (x.attempts + 1) pl { x with attempts := x.attempts + 1 } =
      match pl.outcome.fault? with
      | none => (.ok x.loops.length, (x.prepared answer pl).built x.loops.length pl)
      | some e => (.error e, (x.prepared answer pl).built x.loops.length pl) := rfl

theorem start_leads (ha : Answers p answer) {x : Instance} {pl : Plan} (hp : p (.start pl))
    (hx : x.Obeys p) : Leads p x (start answer x pl).2 := by
  unfold start
  simp only [spawn_eq]
  split
  · next howned => exact .ofMove (.reject hp howned)
  · next howned =>
    have hopen : Leads p x (x.openLoop pl.kind) := .ofMove (.openLoop hp (by simpa using howned))
    have hprep : Leads p (x.openLoop pl.kind) (x.prepared answer pl) :=
      preparations_leads ha hp (List.Subset.refl _) (isBuilding_openLoop x _) (hopen.obeys hx)
    have hnew := hprep.building _ _ (isBuilding_openLoop x pl.kind)
    have hy := hopen.trans hprep
    -- loops that were being built before are others than the new one
    have hold (i e : Nat) (hi : x.IsBuilding i e) :
        ((x.prepared answer pl).built x.loops.length pl).IsBuilding i e := by
      refine isBuilding_built (hy.building i e hi) ?_ pl
      obtain ⟨l, hl, -⟩ := hi
      exact Nat.ne_of_lt (List.getElem?_eq_some_iff.1 hl).1
    cases ho : pl.outcome with
    | ready =>
      refine ⟨hy.changes.tail (.ready hp hnew ho), fun i e hi => ?_⟩
      exact (begin_extends (p := p) _ _ _).isBuilding (hold i e hi)
    | refused reason => exact ⟨hy.changes.tail (.fail hp hnew (by simp [ho])), hold⟩
    | crashed => exact ⟨hy.changes.tail (.fail hp hnew (by simp [ho])), hold⟩

/-! ## calls -/

/-- A loop that is not there has nothing to stop. -/
theorem stopLoop_snd (answer : Caller) (i : Nat) (x : Instance) :
    (stopLoop answer i x).2 = drain answer i (x.closeLoop i) := by
  unfold stopLoop closeLoop
  cases hl : x.loop? i with
  | some l => rfl
  | none =>
    have hstep : stepLoop answer x i = none := by simp only [stepLoop, hl]
    simp only [drain]
    cases x.backlog i + x.reach with
    | zero => rfl
    | succ n => simp only [drainLoop, hstep]

theorem shutdown_leads (ha : Answers p answer) {x : Instance} (hp : p .shutdown)
    (hx : x.Obeys p) : Leads p x (shutdown answer x).2 := by
  unfold shutdown
  split
  · exact .refl x
  · next i hi =>
    have hgive : Leads p x (x.giveUp i) := .ofMove (.giveUp hp hi)
    simp only [stopLoop_snd]
    exact hgive.trans (drain_leads ha i (hgive.obeys hx))

theorem emit_leads (ha : Answers p answer) {x : Instance} {r : Report} {k : Option Nat}
    (hp : p (.emit r k)) (hx : x.Obeys p) : Leads p x (emit answer x r k).2 := by
  have hnow : Leads p x (report answer x r) := report_leads ha (.emit hp) hx
  unfold emit
  split
  · exact .refl x
  · split
    · exact hnow
    · next i hi =>
      split
      · have hpost : Leads p x (x.submitTo i (.report r)).2 := .ofMove (.post hp hi)
        exact hpost.trans (drain_leads ha i (hpost.obeys hx))
      · exact hnow

theorem hold_leads (ha : Answers p answer) {x : Instance} (hp : p .hold) (hx : x.Obeys p) :
    Leads p x (hold answer x).2 := by
  unfold hold
  split
  · exact .refl x
  · exact .refl x
  · next i _ hi =>
    have hpost : Leads p x (x.submitTo i .block).2 := .ofMove (.hold hp hi)
    split
    · next y hy => simpa [hy] using hpost
    · next y hy =>
      rw [hy] at hpost
      exact (hpost.trans (drain_leads ha i (hpost.obeys hx))).trans (.ofMove (.mark _))

theorem callAll_leads (ha : Answers p answer) {cs : List Call} (hcs : Call.everyAll p cs)
    {x : Instance} (hx : x.Obeys p) : Leads p x (callAll answer x cs) := by
  induction cs generalizing x with
  | nil => exact .refl x
  | cons c cs ih =>
    simp only [Call.everyAll, Bool.and_eq_true] at hcs
    have hcall := ha c x hcs.1 hx
    exact hcall.trans (ih hcs.2 (hcall.obeys hx))

theorem performWith_leads (ha : Answers p answer) : Answers p (performWith answer) := by
  intro c x hc hx
  cases hplain : c.isPlain with
  | true => exact .ofMove (.plain answer hc hplain)
  | false =>
    cases c with
    | notify n =>
      simp only [performWith]
      split
      · have hp : p (.notify n) := hc
        exact (Leads.ofMove (.notify hp)).trans (tell_leads ha n hx)
      · exact .refl x
    | start pl => exact start_leads ha hc hx
    | shutdown => exact shutdown_leads ha hc hx
    | emit r k => exact emit_leads ha hc hx
    | hold => exact hold_leads ha hc hx
    | «repeat» n cs => exact callAll_leads ha (Call.everyAll_flatten _ hc) hx
    | _ => simp [Call.isPlain] at hplain

end

/-- A call is made of changes, however deep calls nest. -/
theorem perform_leads (p : Call → Bool) (depth : Nat) : Answers p (perform depth) := by
  induction depth with
  | zero => exact fun _ x _ _ => .refl x
  | succ depth ih => exact performWith_leads ih

/-- Every call has calls left that it can lead to. -/
theorem call_eq (c : Call) (x : Instance) : ∃ answer, call c x = performWith answer c x := by
  obtain ⟨depth, hdepth⟩ : ∃ depth, c.weight + x.reach = depth + 1 :=
    Nat.exists_eq_succ_of_ne_zero (by have := weight_pos c; omega)
  refine ⟨perform depth, ?_⟩
  unfold call
  rw [hdepth]
  rfl

theorem call_leads (p : Call → Bool) : Answers p call :=
  fun c x => perform_leads p _ c x

/-! ## schedules -/

variable {p : Call → Bool} {x : Instance}

theorem turn_leads {t : Turn} (ht : t.every p) (hx : x.Obeys p) : Leads p x (x.turn t) := by
  cases t with
  | call c => exact call_leads p c x ht hx
  | message i =>
    simp only [turn]
    cases hstep : stepLoop call x i with
    | none => exact .refl x
    | some y => exact stepLoop_leads (call_leads p) hstep hx
  | tick i => exact .ofMove (.tick i)
  | stall i => exact .ofMove (.stall i)
  | goOn i => exact .ofMove (.goOn i)

/-- A schedule is made of changes. -/
theorem play_changes {ts : List Turn} (hts : ∀ t ∈ ts, t.every p) (hx : x.Obeys p) :
    Changes p x (x.play ts) := by
  induction ts generalizing x with
  | nil => exact .refl
  | cons t ts ih =>
    have hturn := turn_leads (hts t List.mem_cons_self) hx
    exact hturn.changes.trans (ih (fun u hu => hts u (List.mem_cons_of_mem t hu)) (hturn.obeys hx))

/-- Nobody has been mentioned to a fresh instance. -/
theorem obeys_ofSettings (p : Call → Bool) (s : BrowserSettings) : (ofSettings s).Obeys p := by
  simp [Obeys, ofSettings]

/-- What holds of a fresh instance and is kept by every change holds after every
schedule. -/
theorem play_induction {P : Instance → Prop} {s : BrowserSettings} (hfresh : P (ofSettings s))
    (hchange : ∀ x y, Change p x y → P x → P y) {ts : List Turn} (hts : ∀ t ∈ ts, t.every p) :
    P ((ofSettings s).play ts) := by
  have h := play_changes hts (obeys_ofSettings p s)
  generalize (ofSettings s).play ts = x at h
  induction h with
  | refl => exact hfresh
  | tail _ hstep ih => exact hchange _ _ hstep ih

end BrowserHost.Instance
