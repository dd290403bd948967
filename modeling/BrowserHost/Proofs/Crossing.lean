import BrowserHost.Instance.Traffic
import BrowserHost.Proofs.Ledger
import Mathlib.Data.List.Perm.Subperm

/-!
# BrowserHost.Proofs.Crossing

Submissions and closings that cross.  Anybody may submit tasks to a loop and
close it, in a session or with the loop in its owner's own hands, and loops take
their messages at any time.  A submission reads the flag and then sends its task,
a closing raises the flag and then sends the stop, and any strokes of others come
in between.

* `Stroke.kept`, `Strokes.kept`: every stroke keeps the books, and a closed loop;
* `deed_strokes`: whatever is done in one go is done in strokes;
* `loops_serve_up_to_the_stop`: a loop runs what was sent before its stop, in
  order and once, then stops and drops its engine; the tasks sent behind the stop
  are those of submissions that read the flag before it was raised;
* `not_all_served_straggler`: such a task is accepted, and never run.
-/

namespace BrowserHost.Traffic

open Engine Instance

/-! ## tasks of one loop -/

section

variable {i k : Nat} {t : Task} {ps : List (Nat × Task)}

theorem tasksAt_cons (p : Nat × Task) :
    tasksAt i (p :: ps) = if p.1 = i then p.2 :: tasksAt i ps else tasksAt i ps := by
  unfold tasksAt
  rw [List.filter_cons]
  by_cases hp : p.1 = i <;> simp [hp]

theorem tasksAt_append_self : tasksAt i (ps ++ [(i, t)]) = tasksAt i ps ++ [t] := by
  simp [tasksAt]

theorem tasksAt_append_of_ne (h : k ≠ i) : tasksAt k (ps ++ [(i, t)]) = tasksAt k ps := by
  simp [tasksAt, Ne.symm h]

/-- The task of a submission that ends is no longer to be sent. -/
theorem perm_tasksAt_erase (h : (i, t) ∈ ps) :
    (t :: tasksAt i (ps.erase (i, t))).Perm (tasksAt i ps) := by
  have hperm := ((List.perm_cons_erase h).filter (·.1 == i)).map (·.2)
  simpa [tasksAt] using hperm.symm

theorem tasksAt_erase_of_ne (h : k ≠ i) : tasksAt k (ps.erase (i, t)) = tasksAt k ps := by
  induction ps with
  | nil => rfl
  | cons p ps ih =>
    rw [List.erase_cons]
    split
    · next hp =>
      obtain rfl : p = (i, t) := by simpa using hp
      rw [tasksAt_cons, if_neg (Ne.symm h)]
    · rw [tasksAt_cons, tasksAt_cons, ih]

end

/-! ## what becomes of a closed loop -/

/-- What a loop takes in once its flag is raised: tasks of submissions that had
read it before, and no others.  Some of them may be late. -/
def Settles (i e : Nat) (w v : Traffic) : Prop :=
  ∃ more behind, accepted e v.host.journal = accepted e w.host.journal ++ more ∧
    v.lateAt i = w.lateAt i ++ behind ∧ behind.Sublist more ∧
    (more ++ v.passedAt i).Subperm (w.passedAt i)

/-- Every loop of `w` has gone on in `v`, and what is left of those that were
closed has settled. -/
def Follows (w v : Traffic) : Prop :=
  ∀ i l, w.host.loop? i = some l → ∃ l', v.host.loop? i = some l' ∧ Onward l l' ∧
    (l.closed → Settles i l.engine w v)

section

variable {w v : Traffic} {i e : Nat}

theorem Settles.of_eq (hj : accepted e v.host.journal = accepted e w.host.journal)
    (hlate : v.lateAt i = w.lateAt i) (hpassed : v.passedAt i = w.passedAt i) :
    Settles i e w v :=
  ⟨[], [], by rw [hj, List.append_nil], by rw [hlate, List.append_nil], .slnil,
    by rw [hpassed, List.nil_append]⟩

theorem Settles.trans {u : Traffic} (h : Settles i e w v) (h' : Settles i e v u) :
    Settles i e w u := by
  obtain ⟨more, behind, ha, hl, hsub, hperm⟩ := h
  obtain ⟨more', behind', ha', hl', hsub', hperm'⟩ := h'
  refine ⟨more ++ more', behind ++ behind', ?_, ?_, hsub.append hsub', ?_⟩
  · rw [ha', ha, List.append_assoc]
  · rw [hl', hl, List.append_assoc]
  · rw [List.append_assoc]
    exact ((List.subperm_append_left more).2 hperm').trans hperm

theorem Follows.refl (w : Traffic) : Follows w w :=
  fun _ l hl => ⟨l, hl, .refl l, fun _ => .of_eq rfl rfl rfl⟩

theorem Follows.trans {u : Traffic} (h : Follows w v) (h' : Follows v u) : Follows w u := by
  intro i l hl
  obtain ⟨m, hm, hgo, hsettles⟩ := h i l hl
  obtain ⟨n, hn, hgo', hsettles'⟩ := h' i m hm
  refine ⟨n, hn, hgo.trans hgo', fun hc => ?_⟩
  have hlater := hsettles' (hgo.flag hc)
  rw [hgo.engine] at hlater
  exact (hsettles hc).trans hlater

/-- The host goes on, and no submission that is under way gets any further. -/
theorem Follows.of_continues (h : Continues w.host v.host) (hpassed : v.passed = w.passed)
    (hlate : v.late = w.late) : Follows w v := by
  intro i l hl
  obtain ⟨l', hl', hgo, ha⟩ := h i l hl
  refine ⟨l', hl', hgo, fun hc => .of_eq (ha ?_) ?_ ?_⟩
  · simp [Loop.isClosed, Loop.accepts, hc]
  · rw [lateAt, hlate, lateAt]
  · rw [passedAt, hpassed, passedAt]

end

/-! ## strokes -/

/-- The books of the host are in order, with regard to what is under way. -/
abbrev IsKept (w : Traffic) : Prop :=
  Kept w.host w.raised w.lateAt

/-- Something that happens at once: a beat of the host, an engine gets ready
without a session, one of the two steps in which an instance hides or gives its
session up, or a step of a submission or a closing, by anyone. -/
inductive Stroke : Traffic → Traffic → Prop
  | beat {w : Traffic} {y : Instance} (h : Beat (fun _ => true) w.host y) : Stroke w (w.on y)
  | ready {w : Traffic} {i : Nat} {l : Loop} (hl : w.host.loop? i = some l)
    (hb : l.phase = .building) (ticker : Option Ticker) :
    Stroke w (w.on (w.host.setLoop i { l with phase := .idle, ticker := ticker }))
  /-- The flag of the instance flips, and the task to show it is still to be
  submitted. -/
  | flip {w : Traffic} (h : Bool) : Stroke w (w.on (w.host.setFlag h))
  /-- The session ends, and its loop is still to be closed. -/
  | leave {w : Traffic} (i : Nat) : Stroke w (w.on (w.host.endSession i))
  | read {w : Traffic} (i : Nat) (t : Task) : Stroke w (w.read i t).2
  | send {w : Traffic} {i : Nat} {t : Task} (h : (i, t) ∈ w.passed) : Stroke w (w.send i t).2
  | sink {w : Traffic} {i : Nat} {t : Task} {l : Loop} (h : (i, t) ∈ w.passed)
    (hl : w.host.loop? i = some l) (hs : l.phase = .stopped) : Stroke w (w.sink i t)
  | shut {w : Traffic} (i : Nat) : Stroke w (w.shut i)
  | halt {w : Traffic} {i : Nat} (h : i ∈ w.raised) : Stroke w (w.halt i)

section

variable {w v : Traffic}

theorem kept_read (hw : w.IsKept) (i : Nat) (t : Task) :
    (w.read i t).2.IsKept ∧ Follows w (w.read i t).2 := by
  unfold read
  split
  · exact ⟨hw, .refl w⟩
  · next hopen =>
    refine ⟨hw, fun k l hl => ⟨l, hl, .refl l, fun hc => .of_eq rfl rfl ?_⟩⟩
    -- a flag that is raised was not the one that was read
    have hik : i ≠ k := by
      rintro rfl
      rw [isShut_eq hl] at hopen
      exact hopen hc
    simp only [passedAt, tasksAt_cons, if_neg hik]

/-- A submission ends: a task is taken in by a loop, in front of its stop or
behind it. -/
theorem kept_taken {i : Nat} {t : Task} {l l' : Loop} {y : Instance} {late : List (Nat × Task)}
    (hw : w.IsKept) (hl : w.host.loop? i = some l) (hgo : Onward l l')
    (hclosed : l'.closed = l.closed) (hpassed : (i, t) ∈ w.passed)
    (hy : y.loops = w.host.loops.set i l') (ha : y.attempts = w.host.attempts)
    (hj : y.journal = .queued l.engine t :: w.host.journal)
    (hlate : late = if w.isHalted i then w.late ++ [(i, t)] else w.late)
    (hbook : Book y.journal l' (w.isHalted i)
      (if w.isHalted i then w.lateAt i ++ [t] else w.lateAt i)) :
    let v : Traffic := { w with host := y, passed := w.passed.erase (i, t), late := late }
    v.IsKept ∧ Follows w v := by
  intro v
  have hhalted : w.isHalted i = (!w.raised.contains i && l.closed) := by
    rw [isHalted, isShut_eq hl]
  have hself : v.lateAt i = if w.isHalted i then w.lateAt i ++ [t] else w.lateAt i := by
    simp only [v, lateAt, hlate]
    split
    · exact tasksAt_append_self
    · rfl
  have hother (k : Nat) (hk : k ≠ i) : v.lateAt k = w.lateAt k := by
    simp only [v, lateAt, hlate]
    split
    · exact tasksAt_append_of_ne hk
    · rfl
  have haccount : ∀ d ∈ [Entry.queued l.engine t], ∀ e, d.account? = some e → e = l.engine := by
    simp [Entry.account?]
  constructor
  · refine hw.replace [.queued l.engine t] hl hgo hy ha hj haccount hw.single ?_
      (fun k hk => ⟨rfl, hother k hk⟩) ?_
    · intro hi
      rw [hclosed, ← isShut_eq hl]
      exact hw.flagged i hi
    · rw [hclosed, ← hhalted, hself]
      exact hbook
  · intro k m hm
    have hcases := hw.beside [.queued l.engine t] hl hy hj haccount hm
    split at hcases
    · next hik =>
      subst hik
      obtain ⟨rfl, hm'⟩ := hcases
      refine ⟨l', hm', hgo, fun _ => ⟨[t], if w.isHalted i then [t] else [], ?_, ?_, ?_, ?_⟩⟩
      · simp only [v, hj, accepted_queued]
      · rw [hself]
        split <;> simp
      · split
        · exact .refl _
        · exact List.nil_sublist _
      · exact (perm_tasksAt_erase hpassed).subperm
    · next hik =>
      refine ⟨m, hcases.1, .refl m, fun _ => .of_eq hcases.2 (hother k (Ne.symm hik)) ?_⟩
      exact tasksAt_erase_of_ne (Ne.symm hik)

/-- A submission ends, and its task is lost. -/
theorem kept_lost (hw : w.IsKept) {i : Nat} {t : Task} (h : (i, t) ∈ w.passed) :
    let v : Traffic := { w with passed := w.passed.erase (i, t) }
    v.IsKept ∧ Follows w v := by
  intro v
  refine ⟨hw, fun k l hl => ⟨l, hl, .refl l, fun _ => ?_⟩⟩
  by_cases hk : k = i
  · subst hk
    have hperm : (v.passedAt k).Subperm (w.passedAt k) :=
      (List.sublist_cons_self t _).subperm.trans (perm_tasksAt_erase h).subperm
    exact ⟨[], [], (List.append_nil _).symm, (List.append_nil _).symm, .slnil, hperm⟩
  · exact .of_eq rfl rfl (tasksAt_erase_of_ne hk)

theorem kept_send (hw : w.IsKept) {i : Nat} {t : Task} (h : (i, t) ∈ w.passed) :
    (w.send i t).2.IsKept ∧ Follows w (w.send i t).2 := by
  unfold send sendTo
  cases hl : w.host.loop? i with
  | none => exact kept_lost hw h
  | some l =>
    by_cases ha : l.phase.isAlive
    · simp only [ha, if_true, Bool.true_and]
      have hsend : l.send (.run t) = { l with queue := l.queue ++ [.run t] } := if_pos ha
      have hbook := (hw.book i l hl).send ha t
      rw [← isShut_eq hl] at hbook
      exact kept_taken hw hl (.send l _) (by rw [hsend]) h rfl rfl rfl rfl hbook
    · simp only [ha, if_false, Bool.false_and, Bool.false_eq_true]
      exact kept_lost hw h

theorem kept_sink (hw : w.IsKept) {i : Nat} {t : Task} {l : Loop} (h : (i, t) ∈ w.passed)
    (hl : w.host.loop? i = some l) (hs : l.phase = .stopped) :
    (w.sink i t).IsKept ∧ Follows w (w.sink i t) := by
  have hbook := (hw.book i l hl).sink hs t
  rw [← isShut_eq hl] at hbook
  have hhalted : w.isHalted i = true := (hbook.stopped hs).1
  have hengine : w.host.engineOf i = l.engine := by simp [engineOf, hl]
  have hsame : w.host.loops = w.host.loops.set i l := (congrArg loops (setLoop_self hl)).symm
  unfold sink
  rw [hengine]
  refine kept_taken hw hl (.refl l) rfl h hsame rfl rfl ?_ ?_
  · rw [if_pos hhalted]
  · rw [if_pos hhalted]
    exact hbook

/-- A flag is raised. -/
theorem kept_shut (hw : w.IsKept) (i : Nat) : (w.shut i).IsKept ∧ Follows w (w.shut i) := by
  unfold shut
  cases hl : w.host.loop? i with
  | none => exact ⟨hw, .refl w⟩
  | some l =>
    simp only
    split
    · exact ⟨hw, .refl w⟩
    · next hopen =>
      have hopen' : l.closed = false := by simpa using hopen
      have hnot : i ∉ w.raised := fun hi => hopen ((isShut_eq hl).symm.trans (hw.flagged i hi))
      have hsingle : (i :: w.raised).Nodup := List.nodup_cons.2 ⟨hnot, hw.single⟩
      refine ⟨hw.replace [] hl (.shut l) rfl rfl rfl (by simp) hsingle (fun _ => rfl)
        (fun k hk => ⟨by simp [hk], rfl⟩) ?_, .of_continues ?_ rfl rfl⟩
      · have hbook := hw.book i l hl
        rw [hopen', Bool.and_false] at hbook
        have hraised : (i :: w.raised).contains i = true := by simp
        rw [hraised]
        exact hbook.shut
      · exact hw.continues [] hl (.shut l) rfl rfl (by simp) fun _ => rfl

/-- A stop is sent. -/
theorem kept_halt (hw : w.IsKept) {i : Nat} (h : i ∈ w.raised) :
    (w.halt i).IsKept ∧ Follows w (w.halt i) := by
  obtain ⟨l, hl, hclosed⟩ : ∃ l, w.host.loop? i = some l ∧ l.closed := by
    simpa [isShut, Option.any_eq_true] using hw.flagged i h
  have hsend : (l.send .stop).closed := (Onward.send l .stop).flag hclosed
  have hgone : (w.raised.erase i).contains i = false := by simpa using hw.single.not_mem_erase
  unfold halt
  simp only [hl]
  refine ⟨hw.replace [] hl (.send l _) rfl rfl rfl (by simp) (hw.single.erase i) (fun _ => hsend)
    (fun k hk => ⟨?_, rfl⟩) ?_, .of_continues ?_ rfl rfl⟩
  · rw [Bool.eq_iff_iff, List.contains_iff_mem, List.contains_iff_mem]
    exact List.mem_erase_of_ne hk
  · have hbook := hw.book i l hl
    rw [List.contains_iff_mem.2 h, Bool.not_true, Bool.false_and] at hbook
    rw [hgone, hsend]
    exact hbook.halt
  · exact hw.continues [] hl (.send l _) rfl rfl (by simp) fun _ => rfl

/-- Every stroke keeps the books, and what is closed stays so. -/
theorem Stroke.kept (h : Stroke w v) (hw : w.IsKept) : v.IsKept ∧ Follows w v := by
  have hhost {y : Instance} (hy : Kept y w.raised w.lateAt ∧ Continues w.host y) :
      (w.on y).IsKept ∧ Follows w (w.on y) :=
    ⟨hy.1, .of_continues hy.2 rfl rfl⟩
  cases h with
  | beat h => exact hhost (h.kept hw)
  | @ready i l hl hb ticker =>
    exact hhost (hw.setLoop [] hl (.busy (by rw [hb]; rfl) rfl l.queue l.view ticker) rfl rfl rfl
      (by simp) ((hw.book i l hl).ready hb ticker) fun _ => rfl)
  | flip h =>
    exact hhost (hw.frame [.flipped h] rfl (Nat.le_refl _) rfl (by simp [Entry.account?]))
  | leave i =>
    exact hhost (hw.frame [.ended (w.host.engineOf i)] rfl (Nat.le_refl _) rfl
      (by simp [Entry.account?]))
  | read i t => exact kept_read hw i t
  | send h => exact kept_send hw h
  | sink h hl hs => exact kept_sink hw h hl hs
  | shut i => exact kept_shut hw i
  | halt h => exact kept_halt hw h

/-- Any number of strokes. -/
abbrev Strokes : Traffic → Traffic → Prop :=
  Relation.ReflTransGen Stroke

theorem Strokes.kept (h : Strokes w v) (hw : w.IsKept) : v.IsKept ∧ Follows w v := by
  induction h with
  | refl => exact ⟨hw, .refl w⟩
  | tail _ hlast ih =>
    obtain ⟨hv, hfollows⟩ := hlast.kept ih.1
    exact ⟨hv, ih.2.trans hfollows⟩

end

/-! ## deeds -/

/-- Something that is done in one go: a turn of the instance, the start of a
loop in its owner's hands, a submission to a loop by anyone who can reach it, the
closing of a loop, anything else that its owner can do, or one step of a
submission or a closing. -/
inductive Deed
  | turn (t : Turn)
  | spawn (p : Plan)
  | submit (loop : Nat) (t : Task)
  | close (loop : Nat)
  | own (loop : Nat) (a : LoneLoop.Act)
  | read (loop : Nat) (t : Task)
  | send (loop : Nat) (t : Task)
  | shut (loop : Nat)
  | halt (loop : Nat)

/-- Do something. -/
def deed (w : Traffic) : Deed → Traffic
  | .turn t => w.on (w.host.turn t)
  | .spawn p =>
    w.on (LoneLoop.start (w.host.attempts + 1) p { w.host with attempts := w.host.attempts + 1 }).2
  | .submit i t => w.on (w.host.submitTo i t).2
  | .close i => w.on (w.host.closeLoop i)
  | .own i a => w.on (LoneLoop.act ⟨w.host, i, true⟩ a).2.host
  | .read i t => (w.read i t).2
  | .send i t => if (i, t) ∈ w.passed then (w.send i t).2 else w
  | .shut i => w.shut i
  | .halt i => if i ∈ w.raised then w.halt i else w

/-- Do one thing after the other. -/
def enact (w : Traffic) (ds : List Deed) : Traffic :=
  ds.foldl deed w

section

variable {w : Traffic} {x : Instance}

theorem obeys_true (x : Instance) : x.Obeys fun _ => true :=
  fun _ _ => Reaction.everyAll_true _

theorem strokes_of_beats {y : Instance} (w : Traffic) (h : Beats (fun _ => true) x y) :
    Strokes (w.on x) (w.on y) := by
  induction h with
  | refl => exact .refl
  | tail _ hlast ih => exact ih.tail (.beat (w := w.on _) hlast)

/-- A submission in one go is made of its two steps. -/
theorem submitTo_strokes (w : Traffic) (i : Nat) (t : Task) :
    Strokes w (w.on (w.host.submitTo i t).2) := by
  cases hshut : w.host.isShut i with
  | true =>
    have hrefused : (w.host.submitTo i t).2 = w.host := by simp [submitTo, hshut]
    rw [hrefused]
    exact .refl
  | false =>
    have hread : (w.read i t).2.passed = (i, t) :: w.passed := by simp [read, hshut]
    have hsend : Stroke (w.read i t).2 ((w.read i t).2.send i t).2 :=
      .send (by rw [hread]; exact List.mem_cons_self)
    rw [read_send w hshut t] at hsend
    exact .tail (.single (.read i t)) hsend

/-- So is a closing. -/
theorem closeLoop_strokes (w : Traffic) (i : Nat) : Strokes w (w.on (w.host.closeLoop i)) := by
  unfold closeLoop
  cases hl : w.host.loop? i with
  | none => exact .refl
  | some l =>
    simp only
    cases hopen : l.closed with
    | true =>
      rw [Loop.close_of_closed hopen, setLoop_self hl]
      exact .refl
    | false =>
      have hraised : (w.shut i).raised = i :: w.raised := by simp [shut, hl, hopen]
      have hhalt : Stroke (w.shut i) ((w.shut i).halt i) :=
        .halt (by rw [hraised]; exact List.mem_cons_self)
      rw [shut_halt w hl hopen] at hhalt
      exact .tail (.single (.shut i)) hhalt

theorem stop_strokes (w : Traffic) (i : Nat) : Strokes w (w.on (stopLoop call i w.host).2) := by
  rw [stopLoop_snd]
  have hdrain := drain_leads (call_leads _) i (obeys_true (w.host.closeLoop i))
  exact (closeLoop_strokes w i).trans (strokes_of_beats w hdrain.changes.beats)

theorem act_strokes (w : Traffic) (i : Nat) (owned : Bool) (a : LoneLoop.Act) :
    Strokes w (w.on (LoneLoop.act ⟨w.host, i, owned⟩ a).2.host) := by
  cases a with
  | submit work => exact submitTo_strokes w i _
  | hold =>
    simp only [LoneLoop.act]
    split
    · exact .refl
    · exact submitTo_strokes w i _
  | release => exact strokes_of_beats w (unblock_beats w.host i)
  | isClosed => exact .refl
  | shutdown timeout =>
    simp only [LoneLoop.act]
    split
    · exact stop_strokes w i
    · exact .refl
  | drop =>
    simp only [LoneLoop.act]
    split
    · exact stop_strokes w i
    · exact .refl

theorem spawn_strokes (w : Traffic) (pl : Plan) : Strokes w (w.deed (.spawn pl)) := by
  have hhost : w.deed (.spawn pl) =
      w.on ((w.host.prepared call pl).built w.host.loops.length pl) := by
    simp only [deed, LoneLoop.start, spawn_eq]
    split <;> rfl
  have hopen : Strokes w (w.on (w.host.openLoop pl.kind)) := .single (.beat (.openLoop _))
  have hprepare : Leads (fun _ => true) (w.host.openLoop pl.kind) (w.host.prepared call pl) :=
    preparations_leads (call_leads _) rfl (List.Subset.refl _) (isBuilding_openLoop w.host _)
      (obeys_true _)
  have hnew := hprepare.building _ _ (isBuilding_openLoop w.host pl.kind)
  rw [hhost]
  refine (hopen.trans (strokes_of_beats w hprepare.changes.beats)).trans ?_
  by_cases ho : pl.outcome = .ready
  · obtain ⟨l, hl, hb, -⟩ := hnew
    unfold built
    simp only [hl, ho]
    exact .single (.ready (w := w.on _) hl hb _)
  · exact strokes_of_beats w (fail_beats hnew ho)

/-- Whatever is done is done in strokes. -/
theorem deed_strokes (w : Traffic) (d : Deed) : Strokes w (w.deed d) := by
  cases d with
  | turn t =>
    exact strokes_of_beats w (turn_leads (Turn.every_true t) (obeys_true w.host)).changes.beats
  | spawn p => exact spawn_strokes w p
  | submit i t => exact submitTo_strokes w i t
  | close i => exact closeLoop_strokes w i
  | own i a => exact act_strokes w i true a
  | read i t => exact .single (.read i t)
  | send i t =>
    simp only [deed]
    split
    · next h => exact .single (.send h)
    · exact .refl
  | shut i => exact .single (.shut i)
  | halt i =>
    simp only [deed]
    split
    · next h => exact .single (.halt h)
    · exact .refl

theorem enact_strokes (w : Traffic) (ds : List Deed) : Strokes w (w.enact ds) := by
  induction ds generalizing w with
  | nil => exact .refl
  | cons d ds ih => exact (deed_strokes w d).trans (ih _)

end

/-! ## what a loop serves -/

/-- What a loop whose engine was made and did not fail does with the tasks that
are submitted to it, at one moment and ever after. -/
structure Serves (w : Traffic) (i : Nat) (l : Loop) : Prop where
  /-- The tasks run so far are the first of those accepted, in order. -/
  order : executed l.engine w.host.journal <+: accepted l.engine w.host.journal
  /-- The others wait.  A stop stands behind those sent before it, and in front of
  the late ones; there is no other. -/
  queue : l.phase.isAlive → ∃ ts,
    accepted l.engine w.host.journal = executed l.engine w.host.journal ++ ts ++ w.lateAt i ∧
      l.queue = ts.map .run ++ if w.isHalted i then .stop :: (w.lateAt i).map .run else []
  punctual : w.isHalted i = false → w.lateAt i = []
  /-- A submission that begins is refused without a trace, or may send its task. -/
  reading : ∀ t, w.read i t =
    if l.closed then (false, w) else (true, { w with passed := (i, t) :: w.passed })
  /-- A submission that ends has its task accepted, and entered last, if the loop
  is there to take it. -/
  sending : ∀ t, (w.send i t).1 = l.phase.isAlive ∧
    accepted l.engine (w.send i t).2.host.journal =
      accepted l.engine w.host.journal ++ if l.phase.isAlive then [t] else []
  /-- Closing a loop raises its flag, and closing it again does nothing. -/
  closing : (w.shut i).host.isShut i ∧ (l.closed → w.shut i = w)
  /-- A loop that is closing or gone never accepts tasks again. -/
  closed : l.isClosed → ∀ v, Strokes w v → (v.host.loop? i).any (·.isClosed)
  /-- Once the flag is raised it stays raised, and only the tasks of submissions
  that had read it before are still taken in. -/
  settled : l.closed → ∀ v, Strokes w v → v.host.isShut i ∧ Settles i l.engine w v
  /-- If no submission is between its steps when the flag is raised, no task is
  ever late. -/
  undisturbed : l.closed = false → w.passedAt i = [] →
    ∀ v, Strokes (w.shut i) v → v.lateAt i = []
  /-- A loop that was stopped has run everything but what was late before its
  engine was dropped, and it stays stopped. -/
  stopped : l.phase = .stopped →
    accepted l.engine w.host.journal = executed l.engine w.host.journal ++ w.lateAt i ∧
      Retires l.engine w.host.journal ∧
        ∀ v, Strokes w v → (v.host.loop? i).any (·.phase == .stopped)

section

variable {w : Traffic} {i : Nat} {l : Loop}

theorem read_eq (hl : w.host.loop? i = some l) (t : Task) :
    w.read i t =
      if l.closed then (false, w) else (true, { w with passed := (i, t) :: w.passed }) := by
  rw [read, isShut_eq hl]

theorem send_eq (hl : w.host.loop? i = some l) (t : Task) :
    (w.send i t).1 = l.phase.isAlive ∧
      accepted l.engine (w.send i t).2.host.journal =
        accepted l.engine w.host.journal ++ if l.phase.isAlive then [t] else [] := by
  unfold send sendTo
  cases ha : l.phase.isAlive <;> simp [hl, ha, note, setLoop]

theorem isShut_shut (hl : w.host.loop? i = some l) : (w.shut i).host.isShut i := by
  unfold shut
  simp only [hl]
  split
  · next hclosed => exact (isShut_eq hl).trans hclosed
  · have hset := loop?_setLoop hl l.shut i
    rw [if_pos rfl] at hset
    exact isShut_eq hset

theorem shut_of_closed (hl : w.host.loop? i = some l) (hc : l.closed) : w.shut i = w := by
  simp only [shut, hl, hc, if_true]

/-- A flag is raised while no submission is between its steps. -/
theorem lateAt_of_undisturbed (hw : w.IsKept) (hl : w.host.loop? i = some l)
    (hopen : l.closed = false) (hnone : w.passedAt i = []) {v : Traffic}
    (hv : Strokes (w.shut i) v) : v.lateAt i = [] := by
  have hshut : w.shut i = { w with host := w.host.setLoop i l.shut, raised := i :: w.raised } := by
    simp only [shut, hl, hopen, Bool.false_eq_true, if_false]
  have hl' : (w.shut i).host.loop? i = some l.shut := by
    rw [hshut]
    exact (loop?_setLoop hl l.shut i).trans (if_pos rfl)
  have hkept := (kept_shut hw i).1
  obtain ⟨-, -, -, hsettles⟩ := (hv.kept hkept).2 i l.shut hl'
  obtain ⟨more, behind, -, hlate, hsub, hperm⟩ := hsettles rfl
  have hpassed : (w.shut i).passedAt i = [] := by rw [hshut]; exact hnone
  rw [hpassed] at hperm
  have hmore : more = [] := (List.append_eq_nil_iff.1 (List.subperm_nil.1 hperm)).1
  rw [hmore] at hsub
  have hpunctual : w.lateAt i = [] :=
    (hw.book i l hl).punctual (by rw [hopen, Bool.and_false])
  have hsame : (w.shut i).lateAt i = w.lateAt i := by rw [hshut]; rfl
  rw [hlate, List.sublist_nil.1 hsub, List.append_nil, hsame, hpunctual]

theorem IsKept.serves (hw : w.IsKept) (hl : w.host.loop? i = some l) (hmade : l.phase ≠ .refused)
    (hsound : l.phase ≠ .crashed) : Serves w i l := by
  have hbook := hw.book i l hl
  rw [← isShut_eq hl] at hbook
  have hends : l.phase.isAlive ∨ l.phase = .stopped := by
    cases hphase : l.phase <;> simp_all [Phase.isAlive]
  refine ⟨?_, hbook.waiting, hbook.punctual, read_eq hl, send_eq hl,
    ⟨isShut_shut hl, shut_of_closed hl⟩, ?_, ?_, fun hopen hnone v hv =>
      lateAt_of_undisturbed hw hl hopen hnone hv, ?_⟩
  · rcases hends with halive | hstopped
    · obtain ⟨ts, hts, -⟩ := hbook.waiting halive
      rw [hts, List.append_assoc]
      exact List.prefix_append _ _
    · rw [(hbook.stopped hstopped).2.1]
      exact List.prefix_append _ _
  · intro hc v hv
    obtain ⟨l', hl', hgo, -⟩ := (hv.kept hw).2 i l hl
    rw [hl', Option.any_some]
    exact hgo.closed hc
  · intro hc v hv
    obtain ⟨l', hl', hgo, hsettles⟩ := (hv.kept hw).2 i l hl
    exact ⟨(isShut_eq hl').trans (hgo.flag hc), hsettles hc⟩
  · intro hstopped
    obtain ⟨-, hall, hretires⟩ := hbook.stopped hstopped
    refine ⟨hall, hretires, fun v hv => ?_⟩
    obtain ⟨l', hl', hgo, -⟩ := (hv.kept hw).2 i l hl
    rw [hl', Option.any_some, hgo.ended (by rw [hstopped]; rfl), hstopped]
    rfl

end

theorem isKept_ofSettings (s : BrowserSettings) : (ofSettings s).IsKept :=
  kept_ofSettings s

/-- A loop runs the tasks that were sent before its stop, and only those, in
order and once each; then it stops, for good.  What is sent behind the stop is
accepted and lost. -/
theorem loops_serve_up_to_the_stop (s : BrowserSettings) {w : Traffic}
    (hw : Strokes (ofSettings s) w) {i : Nat} {l : Loop} (hl : w.host.loop? i = some l)
    (hmade : l.phase ≠ .refused) (hsound : l.phase ≠ .crashed) : Serves w i l :=
  (hw.kept (isKept_ofSettings s)).1.serves hl hmade hsound

/-- The maker of the engine, a caller and a task submit work while the loop is
open.  Two more callers read the flag before the owner shuts the loop down; one
sends its task in front of the stop and one behind it.  Then a task and a caller
come too late. -/
def lastOrders : List Deed :=
  [.turn (.call (.register .lifecycle "o" [⟨.urlChanged "a", .submit 0 (.load "c"), 1⟩,
      ⟨.urlChanged "b", .submit 0 (.load "d"), 1⟩])),
    .turn (.call (.start { kind := .echo, preparations := [.submit (.load "a")] })),
    .submit 0 (.work (.load "b")), .turn (.message 0), .read 0 (.work (.load "f")),
    .read 0 (.work (.load "g")), .shut 0, .send 0 (.work (.load "f")), .halt 0,
    .send 0 (.work (.load "g")), .close 0, .own 0 (.shutdown 0), .turn (.message 0),
    .turn (.message 0), .turn (.message 0), .turn (.message 0), .turn (.message 0),
    .turn (.message 0), .submit 0 (.work (.load "e"))]

theorem loops_serve_up_to_the_stop_lastOrders :
    let w := (ofSettings ({} : Settings).browser).enact lastOrders
    executed 1 w.host.journal = [.work (.load "a"), .work (.load w.host.settings.url),
        .lifecycle .suspended, .work (.load "b"), .work (.load "c"), .work (.load "f")] ∧
      accepted 1 w.host.journal = executed 1 w.host.journal ++ [.work (.load "g")] ∧
      Retires 1 w.host.journal := by
  intro w
  have hl : w.host.loop? 0 = some
      { engine := 1, kind := .echo, phase := .stopped, closed := true,
        view := View.of .suspended false } := by
    decide
  have hserves := loops_serve_up_to_the_stop _ (enact_strokes _ lastOrders) hl (by decide)
    (by decide)
  obtain ⟨hall, hretires, -⟩ := hserves.stopped rfl
  have hlate : w.lateAt 0 = [.work (.load "g")] := by decide
  exact ⟨by decide, hlate ▸ hall, hretires⟩

/-- A caller reads the flag before the loop is closed, and sends the task behind
the stop. -/
def straggler : List Deed :=
  [.turn (.call (.start {})), .read 0 (.work (.load "late")), .shut 0, .halt 0,
    .send 0 (.work (.load "late")), .turn (.message 0), .turn (.message 0), .turn (.message 0)]

/-- Not all that is accepted is served: the submission succeeds after the loop was
closed, its task stands behind the stop, and the loop stops without running it. -/
theorem not_all_served_straggler :
    let w (n : Nat) := (ofSettings ({} : Settings).browser).enact (straggler.take n)
    (w 4).host.isShut 0 ∧ ((w 4).send 0 (.work (.load "late"))).1 = true ∧
      ((w 5).host.loop? 0).map (·.queue.drop 2) =
        some [.stop, .run (.work (.load "late"))] ∧
      ((w 8).host.loop? 0).map (·.phase) = some .stopped ∧
      .work (.load "late") ∈ accepted 1 (w 8).host.journal ∧
      .work (.load "late") ∉ executed 1 (w 8).host.journal := by
  decide

end BrowserHost.Traffic
