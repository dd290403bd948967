import BrowserHost.Proofs.Verdict

/-!
# BrowserHost.Proofs.Shortage

Which names an assessment finds missing.  A mask stands for the names whose bits
it has.  A tree with enough processes is looked through name by name, so its
mask stands for the names under which nothing runs.  A tree with fewer processes
than there are names is known to be short of some of them, and its mask names
them all.

* `missing_eq_filter`: the names that a mask stands for, in order;
* `isSet_lackingMask`: the bits of the mask of a tree;
* `assess_settled`: what an assessment records and answers when it comes to the
  names;
* `mask_of_assessment`: the same after every run;
* `not_spared_skeletonCrew`: a tree in which a running helper is named as missing.
-/

namespace BrowserHost.Health

/-- Some running process of the list has that name. -/
def RunsAmong (rs : List ProcessInfo) (name : String) : Prop :=
  ∃ r ∈ rs, r.active ∧ r.name = name

instance (rs : List ProcessInfo) : DecidablePred (RunsAmong rs) := fun name =>
  inferInstanceAs (Decidable (∃ r ∈ rs, r.active ∧ r.name = name))

namespace MandatorySet

/-! ## the names of a mask -/

theorem isSet_of_le (mask : UInt32) {i : Nat} (h : maxMandatory ≤ i) : isSet mask i = false :=
  BitVec.getLsbD_of_ge _ _ h

/-- To test a mask against the bit of a place is to look at that place. -/
theorem and_bitAt_ne_zero (mask : UInt32) {i : Nat} (hi : i < maxMandatory) :
    (mask &&& bitAt i != 0) = isSet mask i := by
  have hbits (j : Nat) (hj : j < maxMandatory) :
      isSet (mask &&& bitAt i) j = (isSet mask j && decide (i = j)) := by
    rw [← isSet_bitAt hi hj, isSet_and]
  rw [Bool.eq_iff_iff, bne_iff_ne, ne_eq, eq_zero_iff]
  constructor
  · intro h
    by_contra hnot
    refine h fun j hj => ?_
    rw [hbits j hj]
    by_cases hij : i = j
    · rw [← hij, Bool.eq_false_iff.2 hnot, Bool.false_and]
    · rw [decide_eq_false hij, Bool.and_false]
  · intro h hzero
    have hone := hzero i hi
    rw [hbits i hi, h] at hone
    simp at hone

theorem missingFrom_eq_filter {p : String → Bool} {mask : UInt32} {names : List String} {k : Nat}
    (hk : k + names.length ≤ maxMandatory)
    (h : ∀ i (hi : i < names.length), isSet mask (k + i) = p names[i]) :
    missingFrom mask k names = names.filter p := by
  induction names generalizing k with
  | nil => rfl
  | cons n ns ih =>
    rw [List.length_cons] at hk
    have hfirst : isSet mask k = p n := h 0 (by simp)
    have hrest : missingFrom mask (k + 1) ns = ns.filter p := by
      refine ih (by omega) fun i hi => ?_
      have hnext := h (i + 1) (by simpa using hi)
      rwa [List.getElem_cons_succ, ← Nat.add_assoc, Nat.add_right_comm] at hnext
    rw [missingFrom, and_bitAt_ne_zero mask (by omega), hfirst, hrest, List.filter_cons]

/-- The names that a mask stands for are those that `p` selects, if `p` says
which bits it has. -/
theorem missing_eq_filter (s : MandatorySet) {p : String → Bool} {mask : UInt32}
    (h : ∀ i (hi : i < s.names.length), isSet mask i = p s.names[i]) :
    s.missing mask = s.names.filter p :=
  missingFrom_eq_filter (by have := s.length_le; omega) fun i hi => by
    rw [Nat.zero_add]
    exact h i hi

/-! ## the mask of a tree -/

/-- The tree has as many processes below its root as there are names. -/
def Staffed (s : MandatorySet) (rs : List ProcessInfo) : Prop :=
  s.names.length ≤ rs.length

instance (s : MandatorySet) : DecidablePred s.Staffed := fun rs =>
  inferInstanceAs (Decidable (s.names.length ≤ rs.length))

/-- Whether a name counts as missing: nothing runs under it, or nobody looked. -/
def lacks (s : MandatorySet) (rs : List ProcessInfo) (name : String) : Bool :=
  decide (s.Staffed rs → ¬RunsAmong rs name)

theorem lacks_of_staffed {s : MandatorySet} {rs : List ProcessInfo} (h : s.Staffed rs)
    (name : String) : s.lacks rs name = decide (¬RunsAmong rs name) := by
  simp [lacks, h]

theorem lacks_of_not_staffed {s : MandatorySet} {rs : List ProcessInfo} (h : ¬s.Staffed rs)
    (name : String) : s.lacks rs name = true := by
  simp [lacks, h]

/-- The bits of the names that count as missing, and no others. -/
theorem isSet_lackingMask (s : MandatorySet) (t : ProcessTree) (i : Nat) :
    isSet (Monitor.lackingMask s t) i = s.names[i]?.any (s.lacks t.descendants) := by
  have hfull : isSet s.fullMask i = s.names[i]?.isSome := by
    rw [isSet_fullMask, Bool.eq_iff_iff]
    simp
  unfold Monitor.lackingMask
  split
  · next hmany =>
    have hstaffed : s.Staffed t.descendants := hmany
    rw [Monitor.clearActive_eq_foldl]
    by_cases hi : i < maxMandatory
    · rw [isSet_foldl_cleared s _ _ hi, hfull]
      cases hname : s.names[i]? with
      | none => rfl
      | some name =>
        have hany : (t.descendants.any fun r => r.active && some name == some r.name) =
            decide (RunsAmong t.descendants name) := by
          rw [Bool.eq_iff_iff, decide_eq_true_iff, List.any_eq_true, RunsAmong]
          simp only [Bool.and_eq_true, beq_iff_eq, Option.some.injEq, @eq_comm _ name]
        rw [Option.isSome_some, Bool.true_and, Option.any_some, lacks_of_staffed hstaffed, hany,
          decide_not]
    · have hnone : s.names[i]? = none := List.getElem?_eq_none (by have := s.length_le; omega)
      rw [isSet_of_le _ (Nat.not_lt.1 hi), hnone]
      rfl
  · next hfew =>
    rw [hfull]
    cases s.names[i]? with
    | none => rfl
    | some name => exact (lacks_of_not_staffed hfew name).symm

theorem missing_lackingMask (s : MandatorySet) (t : ProcessTree) :
    s.missing (Monitor.lackingMask s t) = s.names.filter (s.lacks t.descendants) := by
  refine s.missing_eq_filter fun i hi => ?_
  rw [isSet_lackingMask, List.getElem?_eq_getElem hi, Option.any_some]

/-- The mask is empty exactly if no name counts as missing. -/
theorem lackingMask_eq_zero_iff_filter (s : MandatorySet) (t : ProcessTree) :
    Monitor.lackingMask s t = 0 ↔ s.names.filter (s.lacks t.descendants) = [] := by
  rw [eq_zero_iff, List.filter_eq_nil_iff]
  simp only [isSet_lackingMask]
  constructor
  · intro h name hname
    obtain ⟨i, hi, rfl⟩ := List.getElem_of_mem hname
    have hnone := h i (Nat.lt_of_lt_of_le hi s.length_le)
    rw [List.getElem?_eq_getElem hi, Option.any_some] at hnone
    simp [hnone]
  · intro h i _
    cases hname : s.names[i]? with
    | none => rfl
    | some name => simpa using h name (List.mem_of_getElem? hname)

end MandatorySet

/-! ## what an assessment finds -/

/-- The verdict on a tree that lacks the given names. -/
def Verdict.ofLacking (names : List String) : Verdict :=
  if names = [] then .operational else .degraded names

/-- An assessment after the grace window, of a tree whose root runs. -/
theorem Monitor.assess_settled {m : Monitor} {root : UInt32} {since now : Nat}
    {table : List ProcessInfo} (hobserved : m.observed? = some (root, since))
    (hroot : RootRuns table root) (hlate : ¬now - since < m.grace) :
    (m.assess now table).1 =
        .ofLacking (m.mandatory.names.filter (m.mandatory.lacks (descendants table root))) ∧
      (m.assess now table).2.mask? = some (lackingMask m.mandatory (.ofTable table root)) := by
  obtain ⟨g, hg, hpair⟩ := Option.map_eq_some_iff.1 hobserved
  obtain ⟨rfl, rfl⟩ := Prod.mk.inj hpair
  have hactive : (ProcessTree.ofTable table g.root).rootActive = true :=
    (rootActive_iff table g.root).2 hroot
  have hzero := m.mandatory.lackingMask_eq_zero_iff_filter (.ofTable table g.root)
  have hnames := m.mandatory.missing_lackingMask (.ofTable table g.root)
  unfold assess Verdict.ofLacking
  simp only [hg, hactive, hlate, Bool.not_true, Bool.false_eq_true, if_false]
  split
  · next hnone => exact ⟨(if_pos (hzero.1 hnone)).symm, rfl⟩
  · next hsome =>
    rw [hnames]
    exact ⟨(if_neg (mt hzero.2 hsome)).symm, rfl⟩

/-- Some process below the root runs under that name. -/
def RunsBelow (table : List ProcessInfo) (root : UInt32) : String → Prop :=
  RunsAmong (descendants table root)

instance (table : List ProcessInfo) (root : UInt32) : DecidablePred (RunsBelow table root) :=
  inferInstanceAs (DecidablePred (RunsAmong (descendants table root)))

theorem runsBelow_iff {table : List ProcessInfo} (h : (table.map (·.pid)).Nodup) (root : UInt32)
    (name : String) :
    RunsBelow table root name ↔
      ∃ r ∈ table, r.pid ≠ root ∧ Reachable table root r.pid ∧ r.active ∧ r.name = name := by
  simp only [RunsBelow, RunsAmong, mem_descendants_iff h, and_assoc]

/-- After every run of a fresh monitor, an assessment past the grace window of a
root that runs.  If there are as many processes below the root as there are
mandatory names, the mask has the bits of the names under which no process below
the root runs, and just these names are reported missing, in order; so a helper
that runs is not.  If there are fewer, nobody looks at their names: the mask has
the bits of all names, and all of them are reported missing. -/
theorem mask_of_assessment (s : MandatorySet) (grace start : Nat) (table : List ProcessInfo)
    (es : List Watch.Event) :
    let w₀ : Watch :=
      { monitor := { mandatory := s, grace := grace }, now := start, table := table }
    let w := (w₀.run es).2
    (∀ before root after, es = before ++ .observe root :: after → (∀ q, .observe q ∉ after) →
      root ≠ 0 → RootRuns w.table root → grace ≤ w.now - (w₀.run before).2.now →
        (w.step .assess).1 = .verdict w.assess.1 ∧
        ∃ mask, (w.step .assess).2.monitor.mask? = some mask ∧
          (w.step .askOperational).2.monitor.mask? = some mask ∧
          (s.Staffed (descendants w.table root) →
            (∀ i, MandatorySet.isSet mask i ↔
              ∃ name, s.names[i]? = some name ∧ ¬RunsBelow w.table root name) ∧
            w.assess.1 = .ofLacking (s.names.filter fun name => ¬RunsBelow w.table root name)) ∧
          (¬s.Staffed (descendants w.table root) →
            (∀ i, MandatorySet.isSet mask i ↔ ∃ name, s.names[i]? = some name) ∧
            w.assess.1 = .degraded s.names)) ∧
      ((w.table.map (·.pid)).Nodup → ∀ root name, RunsBelow w.table root name ↔
        ∃ r ∈ w.table, r.pid ≠ root ∧ Reachable w.table root r.pid ∧ r.active ∧ r.name = name) := by
  intro w₀ w
  refine ⟨fun before root after hes hlast hzero hroot hlate => ?_, fun h => runsBelow_iff h⟩
  obtain ⟨hmandatory, hgrace⟩ : w.monitor.mandatory = s ∧ w.monitor.grace = grace :=
    w₀.settings_run es
  have hobserved := w₀.observed?_run_observe before root hlast
  rw [← hes, if_neg hzero] at hobserved
  obtain ⟨hverdict, hmask⟩ := Monitor.assess_settled hobserved hroot
    (Nat.not_lt.2 (hgrace ▸ hlate))
  rw [hmandatory] at hverdict hmask
  refine ⟨rfl, _, hmask, hmask, fun hstaffed => ⟨fun i => ?_, ?_⟩, fun hfew => ⟨fun i => ?_, ?_⟩⟩
  · rw [MandatorySet.isSet_lackingMask]
    simp [ProcessTree.ofTable, MandatorySet.lacks_of_staffed hstaffed, Option.any_eq_true, RunsBelow]
  · refine hverdict.trans (congrArg Verdict.ofLacking (List.filter_congr fun name _ => ?_))
    exact MandatorySet.lacks_of_staffed hstaffed name
  · rw [MandatorySet.isSet_lackingMask]
    simp [ProcessTree.ofTable, MandatorySet.lacks_of_not_staffed hfew, Option.any_eq_true]
  · have hall : s.names.filter (s.lacks (descendants w.table root)) = s.names :=
      List.filter_eq_self.2 fun name _ => MandatorySet.lacks_of_not_staffed hfew name
    have hnames : s.names ≠ [] := fun hnil => hfew (by simp [MandatorySet.Staffed, hnil])
    rw [hall] at hverdict
    exact hverdict.trans (if_neg hnames)

/-- One helper runs twice, below another process the second time, and one has
ended. -/
def nightShift : List Watch.Event :=
  [.observe 1, .add ⟨1, none, "host", 1, 1, 1, true⟩, .add ⟨2, some 1, "network", 1, 1, 1, true⟩,
    .add ⟨3, some 2, "content", 1, 1, 1, false⟩, .add ⟨4, some 2, "network", 1, 1, 1, true⟩,
    .advance 10]

/-- Only one of the two helpers is left, and it runs. -/
def skeletonCrew : List Watch.Event :=
  nightShift ++ [.remove 3, .remove 4]

theorem mask_of_assessment_nightShift :
    let w := (({ monitor := { mandatory := helpers, grace := 10 } } : Watch).run nightShift).2
    let w' := (({ monitor := { mandatory := helpers, grace := 10 } } : Watch).run skeletonCrew).2
    w.assess.1 = .degraded ["content"] ∧ w'.assess.1 = .degraded ["network", "content"] ∧
      ∃ mask, (w.step .assess).2.monitor.mask? = some mask ∧
        MandatorySet.isSet mask 0 = false ∧ MandatorySet.isSet mask 1 = true := by
  intro w w'
  have hnow := (mask_of_assessment helpers 10 0 [] nightShift).1 [] 1 (nightShift.drop 1) rfl
    (by simp [nightShift]) (by decide) ⟨_, rfl, rfl⟩ (by decide)
  have hthen := (mask_of_assessment helpers 10 0 [] skeletonCrew).1 [] 1 (skeletonCrew.drop 1) rfl
    (by simp [skeletonCrew, nightShift]) (by decide) ⟨_, rfl, rfl⟩ (by decide)
  obtain ⟨-, mask, hmask, -, hstaffed, -⟩ := hnow
  obtain ⟨-, mask', -, -, -, hfew⟩ := hthen
  obtain ⟨hbits, hverdict⟩ := hstaffed (by decide)
  have hruns : RunsBelow w.table 1 "network" := by decide
  have hrests : ¬RunsBelow w.table 1 "content" := by decide
  have hwatch : w = (({ monitor := { mandatory := helpers, grace := 10 } } : Watch).run
      nightShift).2 := rfl
  have hrecorded : (w.step .assess).2.monitor.mask? = some mask := by
    rw [hwatch]
    exact hmask
  refine ⟨hverdict.trans (by decide), (hfew (by decide)).2, mask, hrecorded, ?_, ?_⟩
  · rw [← Bool.not_eq_true, hbits 0]
    rintro ⟨name, hname, hnot⟩
    exact hnot (Option.some.inj hname ▸ hruns)
  · exact (hbits 1).2 ⟨"content", rfl, hrests⟩

/-- With too few processes below the root, a helper that runs keeps its bit and is
named as missing. -/
theorem not_spared_skeletonCrew :
    let w := (({ monitor := { mandatory := helpers, grace := 10 } } : Watch).run skeletonCrew).2
    w.monitor.observed? = some (1, 0) ∧ RootRuns w.table 1 ∧ 10 ≤ w.now - 0 ∧
      RunsBelow w.table 1 "network" ∧ w.assess.1 = .degraded ["network", "content"] ∧
      ¬∀ mask, (w.step .assess).2.monitor.mask? = some mask → ∀ i, MandatorySet.isSet mask i ↔
        ∃ name, helpers.names[i]? = some name ∧ ¬RunsBelow w.table 1 name := by
  intro w
  have hruns : RunsBelow w.table 1 "network" := by decide
  refine ⟨rfl, ⟨_, rfl, rfl⟩, by decide, hruns, by decide, fun h => ?_⟩
  obtain ⟨name, hname, hnot⟩ := (h 3 (by decide) 0).1 (by decide)
  exact hnot (Option.some.inj hname ▸ hruns)

end BrowserHost.Health
