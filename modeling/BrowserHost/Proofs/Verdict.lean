import BrowserHost.Proofs.Descent
import BrowserHost.Proofs.Mask

/-!
# BrowserHost.Proofs.Verdict

What a monitor answers, after any run: only the last observation, the time
since, and the table as it is now matter.

* `observed?_run`: without an observation, what is observed stays, and since
  when;
* `assess_agrees`: neither shortcut changes the kind of the verdict;
* `mem_descendants_iff`: in a table without repeated pids, the processes below
  a root are those that parent links lead to;
* `verdict_decided`: how the verdict is decided.
-/

namespace BrowserHost.Health

/-! ## the verdict without shortcuts -/

/-- Two verdicts are of one kind: they differ at most in the names missing. -/
def Verdict.Agrees : Verdict → Verdict → Prop
  | .degraded _, .degraded _ => True
  | v, w => v = w

theorem Verdict.Agrees.eq_iff {v w u : Verdict} (h : v.Agrees w)
    (hu : ∀ names, u ≠ .degraded names) : v = u ↔ w = u := by
  unfold Agrees at h
  split at h
  · next names names' => exact iff_of_false (hu names).symm (hu names').symm
  · rw [h]

theorem Verdict.Agrees.degraded_iff {v w : Verdict} (h : v.Agrees w) :
    (∃ names, v = .degraded names) ↔ ∃ names, w = .degraded names := by
  unfold Agrees at h
  split at h
  · next names names' => exact iff_of_true ⟨names, rfl⟩ ⟨names', rfl⟩
  · rw [h]

/-- The root is listed, and its first record is running. -/
def RootRuns (table : List ProcessInfo) (root : UInt32) : Prop :=
  ∃ r, table.find? (·.pid == root) = some r ∧ r.active

/-- Every mandatory name is the name of a running process below the root. -/
def AllRun (s : MandatorySet) (table : List ProcessInfo) (root : UInt32) : Prop :=
  s.Covered (descendants table root)

namespace Monitor

/-- The verdict of a monitor that looks through all processes every time. -/
def thorough (m : Monitor) (now : Nat) (table : List ProcessInfo) : Verdict :=
  match m.target with
  | none => .unmonitored
  | some g =>
    let tree := ProcessTree.ofTable table g.root
    let mask := m.mandatory.scan tree.descendants
    if !tree.rootActive then .rootInactive
    else if now - g.since < m.grace then .starting
    else if mask = 0 then .operational
    else .degraded (m.mandatory.missing mask)

theorem assess_agrees (m : Monitor) (now : Nat) (table : List ProcessInfo) :
    (m.assess now table).1.Agrees (m.thorough now table) := by
  unfold assess thorough
  cases m.target with
  | none => rfl
  | some g =>
    simp only [lackingMask_eq_zero_iff]
    repeat' split
    all_goals simp_all [Verdict.Agrees]

/-- What is observed, and since when. -/
def observed? (m : Monitor) : Option (UInt32 × Nat) :=
  m.target.map fun g => (g.root, g.since)

theorem observed?_observe (m : Monitor) (now : Nat) (pid : UInt32) :
    (m.observe now pid).observed? = if pid = 0 then none else some (pid, now) := by
  unfold observe
  split <;> rfl

/-- An assessment changes no more than the mask. -/
theorem assess_keeps (m : Monitor) (now : Nat) (table : List ProcessInfo) :
    (m.assess now table).2.observed? = m.observed? ∧ (m.assess now table).2.grace = m.grace := by
  unfold assess
  cases h : m.target <;> grind [observed?]

theorem rootActive_iff (table : List ProcessInfo) (root : UInt32) :
    (ProcessTree.ofTable table root).rootActive = true ↔ RootRuns table root := by
  simp [ProcessTree.rootActive, ProcessTree.ofTable, RootRuns, Option.any_eq_true]

theorem thorough_of_observed {m : Monitor} {root : UInt32} {since : Nat}
    (h : m.observed? = some (root, since)) (now : Nat) (table : List ProcessInfo) :
    (m.thorough now table = .rootInactive ↔ ¬RootRuns table root) ∧
      (m.thorough now table = .starting ↔ RootRuns table root ∧ now - since < m.grace) ∧
      (m.thorough now table = .operational ↔
        RootRuns table root ∧ ¬now - since < m.grace ∧ AllRun m.mandatory table root) ∧
      ((∃ names, m.thorough now table = .degraded names) ↔
        RootRuns table root ∧ ¬now - since < m.grace ∧ ¬AllRun m.mandatory table root) := by
  obtain ⟨g, hg, hpair⟩ := Option.map_eq_some_iff.1 h
  obtain ⟨rfl, rfl⟩ := Prod.mk.inj hpair
  have hcovered : m.mandatory.scan (ProcessTree.ofTable table g.root).descendants = 0 ↔
      AllRun m.mandatory table g.root := m.mandatory.scan_eq_zero_iff _
  have heq : m.thorough now table =
      if !(ProcessTree.ofTable table g.root).rootActive then .rootInactive
      else if now - g.since < m.grace then .starting
      else if m.mandatory.scan (ProcessTree.ofTable table g.root).descendants = 0 then .operational
      else .degraded (m.mandatory.missing
        (m.mandatory.scan (ProcessTree.ofTable table g.root).descendants)) := by
    simp only [thorough, hg]
  rw [heq, ← rootActive_iff, ← hcovered]
  by_cases hroot : (ProcessTree.ofTable table g.root).rootActive
  · by_cases hgrace : now - g.since < m.grace
    · simp [hroot, hgrace]
    · by_cases hnone : m.mandatory.scan (ProcessTree.ofTable table g.root).descendants = 0
      · simp [hroot, hgrace, hnone]
      · simp [hroot, hgrace, hnone]
  · simp [hroot]

theorem thorough_eq_unmonitored_iff (m : Monitor) (now : Nat) (table : List ProcessInfo) :
    m.thorough now table = .unmonitored ↔ m.observed? = none := by
  unfold thorough observed?
  cases m.target with
  | none => simp
  | some g =>
    simp only [Option.map_some, reduceCtorEq, iff_false]
    repeat' split
    all_goals simp

end Monitor

/-! ## processes below a root -/

/-- Where no pid repeats, it does not matter how the processes were met. -/
theorem mem_descendants_iff {table : List ProcessInfo} (h : (table.map (·.pid)).Nodup)
    {root : UInt32} {r : ProcessInfo} :
    r ∈ descendants table root ↔ r ∈ table ∧ r.pid ≠ root ∧ Reachable table root r.pid := by
  have hlists := lists_descendants table root
  constructor
  · intro hr
    exact ⟨hlists.mem_table r hr, (hlists.mem_pid r.pid).1 (List.mem_map_of_mem hr)⟩
  · rintro ⟨hr, hreach⟩
    obtain ⟨s, hs, hpid⟩ := List.mem_map.1 ((hlists.mem_pid r.pid).2 hreach)
    exact List.inj_on_of_nodup_map h (hlists.mem_table s hs) hr hpid ▸ hs

theorem allRun_iff {table : List ProcessInfo} (h : (table.map (·.pid)).Nodup) (s : MandatorySet)
    (root : UInt32) :
    AllRun s table root ↔ ∀ name ∈ s.names, ∃ r ∈ table,
      r.pid ≠ root ∧ Reachable table root r.pid ∧ r.active ∧ r.name = name := by
  simp only [AllRun, MandatorySet.Covered, mem_descendants_iff h, and_assoc]

/-! ## runs -/

namespace Watch

/-- The mandatory names and the grace window never change. -/
theorem settings_step (w : Watch) (e : Event) :
    (w.step e).2.monitor.mandatory = w.monitor.mandatory ∧
      (w.step e).2.monitor.grace = w.monitor.grace := by
  cases e with
  | observe pid => simp only [step, Monitor.observe]; split <;> exact ⟨rfl, rfl⟩
  | assess => exact ⟨Monitor.assess_mandatory .., (Monitor.assess_keeps ..).2⟩
  | askOperational => exact ⟨Monitor.assess_mandatory .., (Monitor.assess_keeps ..).2⟩
  | _ => exact ⟨rfl, rfl⟩

theorem settings_run (w : Watch) (es : List Event) :
    (w.run es).2.monitor.mandatory = w.monitor.mandatory ∧
      (w.run es).2.monitor.grace = w.monitor.grace := by
  induction es generalizing w with
  | nil => exact ⟨rfl, rfl⟩
  | cons e es ih =>
    have hstep := w.settings_step e
    have hrest := ih (w.step e).2
    exact ⟨hrest.1.trans hstep.1, hrest.2.trans hstep.2⟩

theorem observed?_step {w : Watch} {e : Event} (h : ∀ pid, e ≠ .observe pid) :
    (w.step e).2.monitor.observed? = w.monitor.observed? := by
  cases e with
  | observe pid => exact absurd rfl (h pid)
  | assess => exact (Monitor.assess_keeps ..).1
  | askOperational => exact (Monitor.assess_keeps ..).1
  | _ => rfl

theorem observed?_run {w : Watch} {es : List Event} (h : ∀ pid, .observe pid ∉ es) :
    (w.run es).2.monitor.observed? = w.monitor.observed? := by
  induction es generalizing w with
  | nil => rfl
  | cons e es ih =>
    have hfirst : ∀ pid, e ≠ .observe pid := fun pid he => h pid (by simp [he])
    have hrest : ∀ pid, .observe pid ∉ es := fun pid hmem => h pid (List.mem_cons_of_mem _ hmem)
    exact (ih hrest).trans (observed?_step hfirst)

/-- The last observation is the one that counts. -/
theorem observed?_run_observe (w : Watch) (before : List Event) (pid : UInt32) {after : List Event}
    (h : ∀ q, .observe q ∉ after) :
    (w.run (before ++ .observe pid :: after)).2.monitor.observed? =
      if pid = 0 then none else some (pid, (w.run before).2.now) := by
  rw [run_append]
  exact (observed?_run h).trans (Monitor.observed?_observe ..)

/-- Every run has a last observation, or none. -/
theorem exists_last_observe (es : List Event) :
    (∀ q, .observe q ∉ es) ∨
      ∃ before pid after, es = before ++ .observe pid :: after ∧ ∀ q, .observe q ∉ after := by
  induction es with
  | nil => exact .inl (by simp)
  | cons e es ih =>
    rcases ih with hnone | ⟨before, pid, after, rfl, hlast⟩
    · by_cases he : ∃ pid, e = .observe pid
      · obtain ⟨pid, rfl⟩ := he
        exact .inr ⟨[], pid, es, rfl, hnone⟩
      · refine .inl fun q hmem => ?_
        rcases List.mem_cons.1 hmem with heq | hmem
        · exact he ⟨q, heq.symm⟩
        · exact hnone q hmem
    · exact .inr ⟨e :: before, pid, after, rfl, hlast⟩

end Watch

/-! ## how the verdict is decided -/

/-- After every run of a fresh monitor: it has no opinion exactly if nothing was
observed, or nothing any more.  Otherwise the root has to be listed and running,
then the grace window counts, and then every mandatory name has to be that of a
running process below the root.  Looking through all processes every time gives
the same kind of verdict. -/
theorem verdict_decided (s : MandatorySet) (grace start : Nat) (table : List ProcessInfo)
    (es : List Watch.Event) :
    let w₀ : Watch :=
      { monitor := { mandatory := s, grace := grace }, now := start, table := table }
    let w := (w₀.run es).2
    let v := w.assess.1
    (v = .unmonitored ↔ (∀ q, .observe q ∉ es) ∨
      ∃ before after, es = before ++ .observe 0 :: after ∧ ∀ q, .observe q ∉ after) ∧
    (∀ before root after, es = before ++ .observe root :: after → (∀ q, .observe q ∉ after) →
      root ≠ 0 →
        let young := w.now - (w₀.run before).2.now < grace
        (v = .rootInactive ↔ ¬RootRuns w.table root) ∧
        (v = .starting ↔ RootRuns w.table root ∧ young) ∧
        (v = .operational ↔ RootRuns w.table root ∧ ¬young ∧ AllRun s w.table root) ∧
        ((∃ names, v = .degraded names) ↔
          RootRuns w.table root ∧ ¬young ∧ ¬AllRun s w.table root)) ∧
    ((w.table.map (·.pid)).Nodup → ∀ root, AllRun s w.table root ↔
      ∀ name ∈ s.names, ∃ r ∈ w.table,
        r.pid ≠ root ∧ Reachable w.table root r.pid ∧ r.active ∧ r.name = name) ∧
    (w.step .assess).1 = .verdict v ∧
    (∃ b, (w.step .askOperational).1 = .operational b ∧
      (b = true ↔ v = .unmonitored ∨ v = .starting ∨ v = .operational)) ∧
    v.Agrees (w.monitor.thorough w.now w.table) := by
  intro w₀ w v
  have hagrees : v.Agrees (w.monitor.thorough w.now w.table) := Monitor.assess_agrees ..
  have hsettings := w₀.settings_run es
  refine ⟨?_, fun before root after hes hlast hroot => ?_, fun h root => allRun_iff h s root, rfl,
    ⟨_, rfl, Verdict.isOperational_iff v⟩, hagrees⟩
  · rw [hagrees.eq_iff (by simp), Monitor.thorough_eq_unmonitored_iff]
    constructor
    · intro hnone
      rcases Watch.exists_last_observe es with hnever | ⟨before, pid, after, hes, hlast⟩
      · exact .inl hnever
      · have hobserved := w₀.observed?_run_observe before pid hlast
        rw [← hes, hnone] at hobserved
        by_cases hzero : pid = 0
        · exact .inr ⟨before, after, hzero ▸ hes, hlast⟩
        · simp [hzero] at hobserved
    · rintro (hnever | ⟨before, after, hes, hlast⟩)
      · exact Watch.observed?_run hnever
      · have hobserved := w₀.observed?_run_observe before 0 hlast
        rwa [← hes, if_pos rfl] at hobserved
  · have hobserved := w₀.observed?_run_observe before root hlast
    rw [← hes, if_neg hroot] at hobserved
    have hmandatory : w.monitor.mandatory = s := hsettings.1
    have hgrace : w.monitor.grace = grace := hsettings.2
    have hdecided := Monitor.thorough_of_observed hobserved w.now w.table
    rw [hmandatory, hgrace] at hdecided
    rw [hagrees.eq_iff (by simp), hagrees.eq_iff (by simp), hagrees.eq_iff (by simp),
      hagrees.degraded_iff]
    exact hdecided

/-- Two helpers that have to run. -/
def helpers : MandatorySet :=
  ⟨["network", "content"], by decide, by decide⟩

/-- Another tree is watched first.  One helper ends and is started again, below
the other one, and a third process takes the name of the first. -/
def relapse : List Watch.Event :=
  [.observe 9, .advance 4, .assess, .observe 1, .add ⟨1, none, "host", 1, 1, 1, true⟩,
    .add ⟨2, some 1, "network", 1, 1, 1, true⟩, .add ⟨3, some 1, "content", 1, 1, 1, true⟩,
    .advance 9, .askOperational, .remove 3, .advance 1, .assess,
    .add ⟨4, some 2, "content", 1, 1, 1, true⟩, .add ⟨5, some 4, "network", 1, 1, 1, false⟩]

theorem verdict_decided_relapse :
    let w : Watch := { monitor := { mandatory := helpers, grace := 10 } }
    (w.run relapse).2.assess.1 = .operational ∧
      (∃ names, (w.run (relapse.take 11)).2.assess.1 = .degraded names) := by
  intro w
  have hnow := (verdict_decided helpers 10 0 [] relapse).2.1 (relapse.take 3) 1 (relapse.drop 4)
    rfl (by simp [relapse]) (by decide)
  have hthen := (verdict_decided helpers 10 0 [] (relapse.take 11)).2.1 (relapse.take 3) 1
    ((relapse.take 11).drop 4) rfl (by simp [relapse]) (by decide)
  have hroot : RootRuns (w.run relapse).2.table 1 := ⟨_, rfl, rfl⟩
  have hlacking : ¬AllRun helpers (w.run (relapse.take 11)).2.table 1 := by
    unfold AllRun MandatorySet.Covered
    decide
  have hrunning : AllRun helpers (w.run relapse).2.table 1 := by
    unfold AllRun MandatorySet.Covered
    decide
  exact ⟨hnow.2.2.1.2 ⟨hroot, by decide, hrunning⟩,
    hthen.2.2.2.2 ⟨⟨_, rfl, rfl⟩, by decide, hlacking⟩⟩

end BrowserHost.Health
