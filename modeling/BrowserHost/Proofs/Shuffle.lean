import BrowserHost.Proofs.Verdict

/-!
# BrowserHost.Proofs.Shuffle

Two tables of the same processes.  A host lists its processes in no order, and
most of them have nothing to do with the tree that is watched.  Neither shows
in any answer.

* `SameTree`: two tables that differ in order, and in strangers to the tree;
* `SameTree.descendants_perm`, `SameTree.toList_perm`: they have the same tree;
* `MandatorySet.lackingMask_perm`: the order in which bits are cleared, and where
  the clearing stops, do not matter;
* `Watch.step_agrees`: an event is answered alike on both;
* `answers_ignore_order_and_strangers`: so is every run.
-/

namespace BrowserHost.Health

/-! ## two tables of one tree -/

/-- No pid repeats in `other`, which lists what `table` lists, in any order, and
besides only processes that no parent links lead to from `root`. -/
structure SameTree (root : UInt32) (table other : List ProcessInfo) : Prop where
  distinct : (other.map (·.pid)).Nodup
  strangers : ∃ strangers, other.Perm (table ++ strangers) ∧
    ∀ r ∈ strangers, r.pid ≠ root ∧ ¬Reachable other root r.pid

theorem Reachable.mono {table other : List ProcessInfo} (h : table ⊆ other) {root pid : UInt32}
    (hr : Reachable table root pid) : Reachable other root pid := by
  induction hr with
  | child hr hp => exact .child (h hr) hp
  | step _ hr hp ih => exact .step ih (h hr) hp

/-- Where no pid repeats, a pid is found at its only record. -/
theorem find?_pid_eq_some_iff {table : List ProcessInfo} (h : (table.map (·.pid)).Nodup)
    {pid : UInt32} {r : ProcessInfo} :
    table.find? (·.pid == pid) = some r ↔ r ∈ table ∧ r.pid = pid := by
  constructor
  · intro hr
    exact ⟨List.mem_of_find?_eq_some hr, by simpa using List.find?_some hr⟩
  · rintro ⟨hr, rfl⟩
    cases hs : table.find? (·.pid == r.pid) with
    | none => exact absurd (List.find?_eq_none.1 hs r hr) (by simp)
    | some s =>
      have hpid : s.pid = r.pid := by simpa using List.find?_some hs
      rw [List.inj_on_of_nodup_map h (List.mem_of_find?_eq_some hs) hr hpid]

namespace SameTree

variable {root pid : UInt32} {table other : List ProcessInfo}

theorem subset (h : SameTree root table other) : table ⊆ other := by
  obtain ⟨strangers, hperm, -⟩ := h.strangers
  exact fun r hr => hperm.mem_iff.2 (List.mem_append_left _ hr)

theorem distinct_left (h : SameTree root table other) : (table.map (·.pid)).Nodup := by
  obtain ⟨strangers, hperm, -⟩ := h.strangers
  have hall := (hperm.map (·.pid)).nodup h.distinct
  rw [List.map_append] at hall
  exact hall.of_append_left

/-- What `other` lists of the tree, `table` lists too. -/
theorem mem_of_reachable (h : SameTree root table other) {r : ProcessInfo} (hr : r ∈ other)
    (hreach : r.pid = root ∨ Reachable other root r.pid) : r ∈ table := by
  obtain ⟨strangers, hperm, hstrange⟩ := h.strangers
  rcases List.mem_append.1 (hperm.mem_iff.1 hr) with hr | hr
  · exact hr
  · obtain ⟨hne, hnot⟩ := hstrange r hr
    exact (hreach.elim hne hnot).elim

theorem reachable_iff (h : SameTree root table other) :
    Reachable other root pid ↔ Reachable table root pid := by
  refine ⟨fun hreach => ?_, .mono h.subset⟩
  induction hreach with
  | child hr hp => exact .child (h.mem_of_reachable hr (.inr (.child hr hp))) hp
  | step hpid hr hp ih => exact .step ih (h.mem_of_reachable hr (.inr (.step hpid hr hp))) hp

/-! ## the tree -/

theorem root_eq (h : SameTree root table other) :
    other.find? (·.pid == root) = table.find? (·.pid == root) := by
  refine Option.ext fun r => ?_
  rw [find?_pid_eq_some_iff h.distinct, find?_pid_eq_some_iff h.distinct_left]
  constructor
  · rintro ⟨hr, hpid⟩
    exact ⟨h.mem_of_reachable hr (.inl hpid), hpid⟩
  · rintro ⟨hr, hpid⟩
    exact ⟨h.subset hr, hpid⟩

theorem descendants_perm (h : SameTree root table other) :
    (descendants other root).Perm (descendants table root) := by
  have hnodup (t : List ProcessInfo) : (descendants t root).Nodup :=
    (lists_descendants t root).nodup.of_map
  refine (List.perm_ext_iff_of_nodup (hnodup _) (hnodup _)).2 fun r => ?_
  rw [mem_descendants_iff h.distinct, mem_descendants_iff h.distinct_left, h.reachable_iff]
  constructor
  · rintro ⟨hr, hne, hreach⟩
    exact ⟨h.mem_of_reachable hr (.inr (h.reachable_iff.2 hreach)), hne, hreach⟩
  · rintro ⟨hr, hne, hreach⟩
    exact ⟨h.subset hr, hne, hreach⟩

theorem rootActive_eq (h : SameTree root table other) :
    (ProcessTree.ofTable other root).rootActive = (ProcessTree.ofTable table root).rootActive :=
  congrArg (Option.any fun r : ProcessInfo => r.active) h.root_eq

theorem toList_perm (h : SameTree root table other) :
    (ProcessTree.ofTable other root).toList.Perm (ProcessTree.ofTable table root).toList := by
  unfold ProcessTree.toList ProcessTree.ofTable
  rw [h.root_eq]
  exact h.descendants_perm.append_left _

theorem sum_eq (h : SameTree root table other) (figure : ProcessInfo → UInt64) :
    (ProcessTree.ofTable other root).sum figure = (ProcessTree.ofTable table root).sum figure := by
  rw [ProcessTree.sum_eq_total, ProcessTree.sum_eq_total]
  exact (h.toList_perm.map fun r => (figure r).toNat).foldr_op_eq

theorem count_eq (h : SameTree root table other) :
    (ProcessTree.ofTable other root).count = (ProcessTree.ofTable table root).count := by
  unfold ProcessTree.count
  rw [h.rootActive_eq]
  exact congrArg _ h.descendants_perm.length_eq

end SameTree

/-! ## the mask -/

namespace MandatorySet

/-- In whatever order processes clear their bits, the same bits are left. -/
theorem foldl_cleared_perm (s : MandatorySet) {rs rs' : List ProcessInfo} (h : rs.Perm rs')
    (mask : UInt32) : rs.foldl s.cleared mask = rs'.foldl s.cleared mask :=
  ext_isSet fun i hi => by
    rw [isSet_foldl_cleared s rs mask hi, isSet_foldl_cleared s rs' mask hi, h.any_eq]

theorem lackingMask_perm (s : MandatorySet) {t t' : ProcessTree}
    (h : t'.descendants.Perm t.descendants) :
    Monitor.lackingMask s t' = Monitor.lackingMask s t := by
  unfold Monitor.lackingMask
  rw [h.length_eq, Monitor.clearActive_eq_foldl, Monitor.clearActive_eq_foldl,
    s.foldl_cleared_perm h]

end MandatorySet

/-! ## answers -/

/-- The tree that the monitor observes is the same in both tables. -/
def Monitor.SeesAlike (m : Monitor) (table other : List ProcessInfo) : Prop :=
  ∀ root, m.root? = some root → SameTree root table other

namespace Monitor

variable {m : Monitor} {table other : List ProcessInfo}

/-- The verdict, with the names that are missing, and the monitor afterwards, with
the mask that it keeps. -/
theorem SeesAlike.assess_eq (h : m.SeesAlike table other) (now : Nat) :
    m.assess now other = m.assess now table := by
  unfold assess
  cases hg : m.target with
  | none => rfl
  | some g =>
    have hsame : SameTree g.root table other := h g.root (by simp [root?, hg])
    have hmask : lackingMask m.mandatory (.ofTable other g.root) =
        lackingMask m.mandatory (.ofTable table g.root) :=
      m.mandatory.lackingMask_perm hsame.descendants_perm
    simp only [hsame.rootActive_eq, hmask]

theorem SeesAlike.figure_eq (h : m.SeesAlike table other) (f : ProcessInfo → UInt64) :
    m.figure other f = m.figure table f := by
  unfold figure tree?
  cases hg : m.target with
  | none => rfl
  | some g => exact (h g.root (by simp [root?, hg])).sum_eq f

theorem SeesAlike.processes_eq (h : m.SeesAlike table other) :
    m.processes other = m.processes table := by
  unfold processes tree?
  cases hg : m.target with
  | none => rfl
  | some g => exact (h g.root (by simp [root?, hg])).count_eq

theorem SeesAlike.snapshot_perm (h : m.SeesAlike table other) :
    (m.snapshot other).Perm (m.snapshot table) := by
  unfold snapshot tree?
  cases hg : m.target with
  | none => exact .refl _
  | some g => exact (h g.root (by simp [root?, hg])).toList_perm

end Monitor

namespace Watch

/-- Two answers are the same, but for the order in which records are listed. -/
def Answer.Agrees : Answer → Answer → Prop
  | .records rs, .records rs' => rs.Perm rs'
  | a, b => a = b

/-- Whether an event changes the table. -/
def Event.isEdit : Event → Bool
  | .setTable _ | .add _ | .remove _ | .setActive .. => true
  | .observe _ | .advance _ | .assess | .askOperational | .measure | .list => false

/-- The two watches differ in their tables alone, and see the same tree there. -/
structure Alike (w w' : Watch) : Prop where
  monitor : w'.monitor = w.monitor
  now : w'.now = w.now
  sees : w.monitor.SeesAlike w.table w'.table

variable {w w' : Watch}

theorem Alike.assess_eq (h : Alike w w') :
    w'.assess.1 = w.assess.1 ∧ w'.assess.2.monitor = w.assess.2.monitor := by
  unfold assess
  rw [h.monitor, h.now, h.sees.assess_eq]
  exact ⟨rfl, rfl⟩

theorem Alike.metrics_eq (h : Alike w w') : w'.metrics = w.metrics := by
  unfold metrics
  rw [h.monitor, h.sees.processes_eq]
  simp only [h.sees.figure_eq]

theorem Alike.snapshot_perm (h : Alike w w') : w'.snapshot.Perm w.snapshot := by
  unfold snapshot
  rw [h.monitor]
  exact h.sees.snapshot_perm

/-- An event that leaves the tables alone is answered alike, and does the same to
both monitors. -/
theorem step_agrees (h : Alike w w') {e : Event} (he : e.isEdit = false) :
    Answer.Agrees (w'.step e).1 (w.step e).1 ∧
      (w'.step e).2.monitor = (w.step e).2.monitor ∧ (w'.step e).2.now = (w.step e).2.now ∧
      (w.step e).2.table = w.table ∧ (w'.step e).2.table = w'.table := by
  cases e with
  | observe pid => exact ⟨rfl, by simp only [step, h.monitor, h.now], h.now, rfl, rfl⟩
  | advance ns => exact ⟨rfl, h.monitor, by simp only [step, h.now], rfl, rfl⟩
  | assess =>
    obtain ⟨hverdict, hmonitor⟩ := h.assess_eq
    exact ⟨congrArg Answer.verdict hverdict, hmonitor, h.now, rfl, rfl⟩
  | askOperational =>
    obtain ⟨hverdict, hmonitor⟩ := h.assess_eq
    exact ⟨congrArg (fun v : Verdict => Answer.operational v.isOperational) hverdict, hmonitor,
      h.now, rfl, rfl⟩
  | measure => exact ⟨congrArg Answer.metrics h.metrics_eq, h.monitor, h.now, rfl, rfl⟩
  | list => exact ⟨h.snapshot_perm, h.monitor, h.now, rfl, rfl⟩
  | setTable _ | add _ | remove _ | setActive _ _ => cases he

/-- What is observed after an event was observed before, or is observed by it. -/
theorem root?_step_cases {e : Event} {root : UInt32}
    (h : (w.step e).2.monitor.root? = some root) :
    w.monitor.root? = some root ∨ e = .observe root := by
  by_cases he : ∃ pid, e = .observe pid
  · obtain ⟨pid, rfl⟩ := he
    simp only [step, Monitor.observe] at h
    split at h
    · cases h
    · have hpid : pid = root := Option.some.inj h
      exact .inr (congrArg Event.observe hpid)
  · exact .inl (by rwa [root?_step fun pid hpid => he ⟨pid, hpid⟩] at h)

/-- The same, event by event, as long as the roots that are observed have the same
tree in both tables. -/
theorem run_agrees (hmonitor : w'.monitor = w.monitor) (hnow : w'.now = w.now) {es : List Event}
    (hes : ∀ e ∈ es, e.isEdit = false)
    (hsame : ∀ root, w.monitor.root? = some root ∨ .observe root ∈ es →
      SameTree root w.table w'.table) :
    List.Forall₂ Answer.Agrees (w'.run es).1 (w.run es).1 ∧
      Alike (w.run es).2 (w'.run es).2 := by
  induction es generalizing w w' with
  | nil => exact ⟨.nil, hmonitor, hnow, fun root hroot => hsame root (.inl hroot)⟩
  | cons e es ih =>
    obtain ⟨hanswer, hmonitor', hnow', htable, htable'⟩ :=
      step_agrees ⟨hmonitor, hnow, fun root hroot => hsame root (.inl hroot)⟩
        (hes e List.mem_cons_self)
    obtain ⟨hanswers, halike⟩ := ih hmonitor' hnow' (fun e' he' => hes e' (.tail e he'))
      fun root hroot => by
        rw [htable, htable']
        refine hsame root ?_
        rcases hroot with hroot | hroot
        · exact (root?_step_cases hroot).imp_right fun he => List.mem_cons.2 (.inl he.symm)
        · exact .inr (.tail e hroot)
    exact ⟨.cons hanswer hanswers, halike⟩

end Watch

/-- Take a watch and another table for it, without repeated pids, that lists what its
own table lists in any order, and besides only processes that are none of the
observed roots and that no parent links lead to from these.  Whatever is observed
and asked at the same times, the answers agree: the verdicts with the names that
are missing, the mask that is kept, the figures, and the records, which are the
same in some other order. -/
theorem answers_ignore_order_and_strangers (w : Watch) (other strangers : List ProcessInfo)
    (es : List Watch.Event) (hes : ∀ e ∈ es, e.isEdit = false)
    (hdistinct : (other.map (·.pid)).Nodup) (hperm : other.Perm (w.table ++ strangers))
    (hstrange : ∀ root, w.monitor.root? = some root ∨ .observe root ∈ es →
      ∀ r ∈ strangers, r.pid ≠ root ∧ ¬Reachable other root r.pid) :
    let w' : Watch := { w with table := other }
    let v := (w.run es).2
    let v' := (w'.run es).2
    List.Forall₂ Watch.Answer.Agrees (w'.run es).1 (w.run es).1 ∧
      v'.monitor = v.monitor ∧
      v'.assess.1 = v.assess.1 ∧ v'.assess.2.monitor.mask? = v.assess.2.monitor.mask? ∧
      v'.metrics = v.metrics ∧
      v'.snapshot.Perm v.snapshot ∧ ∀ r, r ∈ v'.snapshot ↔ r ∈ v.snapshot := by
  intro w' v v'
  obtain ⟨hanswers, halike⟩ := @Watch.run_agrees w w' rfl rfl es hes
    fun root hroot => ⟨hdistinct, strangers, hperm, hstrange root hroot⟩
  obtain ⟨hverdict, hmonitor⟩ := halike.assess_eq
  exact ⟨hanswers, halike.monitor, hverdict, congrArg Monitor.mask? hmonitor, halike.metrics_eq,
    halike.snapshot_perm, fun r => halike.snapshot_perm.mem_iff⟩

/-- The children of one host, one of them ended. -/
def household : List ProcessInfo :=
  [⟨1, none, "host", 1, 1, 1, true⟩, ⟨2, some 1, "network", 2, 2, 2, true⟩,
    ⟨3, some 2, "content", 4, 4, 4, false⟩, ⟨4, some 1, "content", 8, 8, 8, true⟩]

/-- Two that are each other's parent, and one whose parent is gone. -/
def passersBy : List ProcessInfo :=
  [⟨50, some 51, "content", 16, 16, 16, true⟩, ⟨51, some 50, "network", 32, 32, 32, true⟩,
    ⟨52, some 99, "content", 64, 64, 64, true⟩]

theorem answers_ignore_order_and_strangers_passersBy :
    let w : Watch := { monitor := { mandatory := helpers, grace := 10 }, table := household }
    let w' : Watch := { w with table := passersBy ++ household.reverse }
    let es : List Watch.Event := [.observe 1, .assess, .advance 20, .assess, .measure, .list]
    List.Forall₂ Watch.Answer.Agrees (w'.run es).1 (w.run es).1 ∧
      (w'.run es).1 ≠ (w.run es).1 ∧ (w'.run es).2.assess.1 = .operational := by
  intro w w' es
  have hdistinct : (w'.table.map (·.pid)).Nodup := by decide
  obtain ⟨hanswers, -, hverdict, -⟩ :=
    answers_ignore_order_and_strangers w w'.table passersBy es (by decide) hdistinct (by decide)
      fun root hroot r hr => by
        obtain rfl : root = 1 := by simpa [es, w, Monitor.root?] using hroot
        have hlisted : ∀ r ∈ passersBy, r ∈ w'.table ∧ r.pid ≠ 1 ∧ r ∉ descendants w'.table 1 := by
          decide
        obtain ⟨hmem, hne, hnot⟩ := hlisted r hr
        exact ⟨hne, fun hreach => hnot ((mem_descendants_iff hdistinct).2 ⟨hmem, hne, hreach⟩)⟩
  exact ⟨hanswers, by decide, hverdict.trans (by decide)⟩

end BrowserHost.Health
