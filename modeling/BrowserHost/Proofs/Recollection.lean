import BrowserHost.Proofs.Shortage
import Mathlib.Data.List.Induction

/-!
# BrowserHost.Proofs.Recollection

What mask a monitor remembers.  An observation puts every name in doubt.  After
it only the assessments that come to the names write the mask: the others end
before they have one.

* `Verdict.isRuling`: the verdicts that tell which names run;
* `assess_of_not_isRuling`, `assess_of_isRuling`: what an assessment leaves
  behind;
* `recalls_run`: after every run the mask is that of the last ruling;
* `mask?_recalls`: the same from a fresh monitor on.
-/

namespace BrowserHost.Health

/-! ## masks that stand for verdicts -/

/-- The verdict tells which of the mandatory names run. -/
def Verdict.isRuling : Verdict → Bool
  | .operational | .degraded _ => true
  | .unmonitored | .starting | .rootInactive => false

namespace MandatorySet

/-- The mask to remember after the last ruling, or without one. -/
def Recalls (s : MandatorySet) : Option Verdict → UInt32 → Prop
  | none, mask => mask = s.fullMask
  | some .operational, mask => mask = 0
  | some (.degraded names), mask => mask ≠ 0 ∧ s.missing mask = names
  | some _, _ => False

/-- The mask has bits of names only. -/
def Holds (s : MandatorySet) (mask : UInt32) : Prop :=
  mask &&& ~~~s.fullMask = 0

theorem holds_iff {s : MandatorySet} {mask : UInt32} :
    s.Holds mask ↔ ∀ i, isSet mask i → i < s.names.length := by
  unfold Holds
  rw [eq_zero_iff]
  constructor
  · intro h i hset
    by_contra hout
    have hlt : i < maxMandatory := by
      by_contra hbeyond
      simp [isSet_of_le mask (Nat.not_lt.1 hbeyond)] at hset
    have hzero := h i hlt
    rw [isSet_and_not mask _ hlt, isSet_fullMask, hset, decide_eq_false hout] at hzero
    simp at hzero
  · intro h i hlt
    rw [isSet_and_not mask _ hlt, isSet_fullMask]
    cases hset : isSet mask i with
    | false => rfl
    | true => simp [h i hset]

theorem holds_fullMask (s : MandatorySet) : s.Holds s.fullMask :=
  holds_iff.2 fun i hset => by simpa [isSet_fullMask] using hset

theorem holds_lackingMask (s : MandatorySet) (t : ProcessTree) :
    s.Holds (Monitor.lackingMask s t) := by
  refine holds_iff.2 fun i hset => ?_
  rw [isSet_lackingMask] at hset
  by_contra hout
  simp [List.getElem?_eq_none (Nat.not_lt.1 hout)] at hset

end MandatorySet

/-! ## one assessment -/

namespace Monitor

/-- An assessment does one of two things: it ends before it looks at the names,
or it records which are missing and rules on them. -/
theorem assess_cases (m : Monitor) (now : Nat) (table : List ProcessInfo) :
    ((m.assess now table).1.isRuling = false ∧ (m.assess now table).2 = m) ∨
      ∃ g, m.target = some g ∧
        let mask := lackingMask m.mandatory (.ofTable table g.root)
        (m.assess now table).2 = { m with target := some { g with mask := mask } } ∧
          (m.assess now table).1 =
            if mask = 0 then .operational else .degraded (m.mandatory.missing mask) := by
  unfold assess
  cases hm : m.target with
  | none => exact .inl ⟨rfl, rfl⟩
  | some g =>
    by_cases hroot : (ProcessTree.ofTable table g.root).rootActive
    · by_cases hyoung : now - g.since < m.grace
      · exact .inl (by simp [hroot, hyoung, Verdict.isRuling])
      · refine .inr ⟨g, rfl, ?_⟩
        by_cases hzero : lackingMask m.mandatory (.ofTable table g.root) = 0
        · simp [hroot, hyoung, hzero]
        · simp [hroot, hyoung, hzero]
    · exact .inl (by simp [hroot, Verdict.isRuling])

theorem assess_of_not_isRuling {m : Monitor} {now : Nat} {table : List ProcessInfo}
    (h : (m.assess now table).1.isRuling = false) : (m.assess now table).2 = m := by
  rcases m.assess_cases now table with ⟨-, hsame⟩ | ⟨g, -, -, hverdict⟩
  · exact hsame
  · rw [hverdict] at h
    split at h <;> simp [Verdict.isRuling] at h

theorem assess_of_isRuling {m : Monitor} {now : Nat} {table : List ProcessInfo}
    (h : (m.assess now table).1.isRuling = true) :
    ∃ mask, (m.assess now table).2.mask? = some mask ∧
      m.mandatory.Recalls (some (m.assess now table).1) mask := by
  rcases m.assess_cases now table with ⟨hnot, -⟩ | ⟨g, -, hmonitor, hverdict⟩
  · rw [hnot] at h
    cases h
  · refine ⟨lackingMask m.mandatory (.ofTable table g.root), by rw [hmonitor]; rfl, ?_⟩
    rw [hverdict]
    split
    · next hzero => exact hzero
    · next hsome => exact ⟨hsome, rfl⟩

/-- The remembered mask has bits of names only. -/
def Sound (m : Monitor) : Prop :=
  ∀ mask, m.mask? = some mask → m.mandatory.Holds mask

theorem Sound.observe {m : Monitor} (now : Nat) (pid : UInt32) : (m.observe now pid).Sound := by
  intro mask hmask
  unfold Monitor.observe at hmask ⊢
  split at hmask
  · cases hmask
  · next hpid =>
    rw [if_neg hpid]
    obtain rfl : m.mandatory.fullMask = mask := Option.some.inj hmask
    exact m.mandatory.holds_fullMask

theorem Sound.assess {m : Monitor} (h : m.Sound) (now : Nat) (table : List ProcessInfo) :
    (m.assess now table).2.Sound := by
  rcases m.assess_cases now table with ⟨-, hsame⟩ | ⟨g, -, hmonitor, -⟩
  · rwa [hsame]
  · rw [hmonitor]
    intro mask hmask
    obtain rfl : lackingMask m.mandatory (.ofTable table g.root) = mask := Option.some.inj hmask
    exact m.mandatory.holds_lackingMask _

theorem mask?_eq_none_iff (m : Monitor) : m.mask? = none ↔ m.observed? = none := by
  simp [mask?, observed?]

end Monitor

/-! ## runs -/

namespace Watch

/-- The verdict that an event comes to, if it tells which names run. -/
def ruling? (w : Watch) : Event → Option Verdict
  | .assess | .askOperational => if w.assess.1.isRuling then some w.assess.1 else none
  | _ => none

/-- The rulings of a run, in order. -/
def rulings (w : Watch) : List Event → List Verdict
  | [] => []
  | e :: es => (w.ruling? e).toList ++ rulings (w.step e).2 es

theorem rulings_append (w : Watch) (es fs : List Event) :
    w.rulings (es ++ fs) = w.rulings es ++ (w.run es).2.rulings fs := by
  induction es generalizing w with
  | nil => rfl
  | cons e es ih => simp [rulings, run, ih]

/-- Without an observation or a ruling the monitor stays as it is. -/
theorem monitor_step {w : Watch} {e : Event} (hobserve : ∀ pid, e ≠ .observe pid)
    (hruling : w.ruling? e = none) : (w.step e).2.monitor = w.monitor := by
  have hassess (h : (if w.assess.1.isRuling then some w.assess.1 else none) = none) :
      (w.monitor.assess w.now w.table).2 = w.monitor := by
    refine Monitor.assess_of_not_isRuling (Bool.eq_false_iff.2 fun hyes => ?_)
    rw [if_pos (show w.assess.1.isRuling = true from hyes)] at h
    cases h
  cases e with
  | observe pid => exact absurd rfl (hobserve pid)
  | assess => exact hassess hruling
  | askOperational => exact hassess hruling
  | _ => rfl

theorem recalls_step {w : Watch} {e : Event} {v : Verdict} (h : w.ruling? e = some v) :
    ∃ mask, (w.step e).2.monitor.mask? = some mask ∧
      w.monitor.mandatory.Recalls (some v) mask := by
  have hassess (h : (if w.assess.1.isRuling then some w.assess.1 else none) = some v) :
      ∃ mask, (w.monitor.assess w.now w.table).2.mask? = some mask ∧
        w.monitor.mandatory.Recalls (some v) mask := by
    obtain ⟨hruling, hv⟩ := Option.ite_none_right_eq_some.1 h
    obtain rfl : w.assess.1 = v := Option.some.inj hv
    exact Monitor.assess_of_isRuling hruling
  cases e with
  | assess => exact hassess h
  | askOperational => exact hassess h
  | _ => cases h

/-- After an observation, whatever else happens, the mask is that of the last
ruling. -/
theorem recalls_run {w : Watch} (hfresh : w.monitor.mask? = some w.monitor.mandatory.fullMask)
    {es : List Event} (hobserve : ∀ pid, .observe pid ∉ es) :
    ∃ mask, (w.run es).2.monitor.mask? = some mask ∧
      w.monitor.mandatory.Recalls (w.rulings es).getLast? mask := by
  induction es using List.reverseRecOn with
  | nil => exact ⟨_, hfresh, rfl⟩
  | append_singleton es e ih =>
    have hlast : ∀ pid, e ≠ .observe pid := fun pid he => hobserve pid (by simp [he])
    have hmandatory := (w.settings_run es).1
    obtain ⟨mask, hmask, hrecalls⟩ := ih fun pid hmem => hobserve pid (List.mem_append_left _ hmem)
    rw [run_append, rulings_append]
    cases hruling : (w.run es).2.ruling? e with
    | none =>
      refine ⟨mask, (congrArg Monitor.mask? (monitor_step hlast hruling)).trans hmask, ?_⟩
      simpa [rulings, hruling] using hrecalls
    | some v =>
      obtain ⟨mask', hmask', hrecalls'⟩ := recalls_step hruling
      rw [hmandatory] at hrecalls'
      exact ⟨mask', hmask', by simpa [rulings, hruling] using hrecalls'⟩

/-- Nothing is observed if nothing ever was, or if the last observation ended it. -/
theorem observed?_run_eq_none_iff {w : Watch} (h : w.monitor.observed? = none) (es : List Event) :
    (w.run es).2.monitor.observed? = none ↔ (∀ q, .observe q ∉ es) ∨
      ∃ before after, es = before ++ .observe 0 :: after ∧ ∀ q, .observe q ∉ after := by
  constructor
  · intro hnone
    rcases exists_last_observe es with hnever | ⟨before, pid, after, rfl, hlast⟩
    · exact .inl hnever
    · rw [w.observed?_run_observe before pid hlast] at hnone
      by_cases hzero : pid = 0
      · exact .inr ⟨before, after, by rw [hzero], hlast⟩
      · simp [hzero] at hnone
  · rintro (hnever | ⟨before, after, rfl, hlast⟩)
    · exact (observed?_run hnever).trans h
    · rw [w.observed?_run_observe before 0 hlast, if_pos rfl]

theorem mask?_observe (w : Watch) {pid : UInt32} (h : pid ≠ 0) :
    (w.step (.observe pid)).2.monitor.mask? = some w.monitor.mandatory.fullMask := by
  simp [step, Monitor.observe, Monitor.mask?, h]

theorem sound_step {w : Watch} (h : w.monitor.Sound) (e : Event) : (w.step e).2.monitor.Sound := by
  cases e with
  | observe pid => exact .observe w.now pid
  | assess => exact h.assess w.now w.table
  | askOperational => exact h.assess w.now w.table
  | _ => exact h

theorem sound_run {w : Watch} (h : w.monitor.Sound) (es : List Event) :
    (w.run es).2.monitor.Sound := by
  induction es generalizing w with
  | nil => exact h
  | cons e es ih => exact ih (sound_step h e)

end Watch

/-! ## what is remembered -/

/-- After every run of a fresh monitor: it remembers no mask exactly if nothing
was observed, or nothing any more.  Otherwise the mask is that of the last ruling
after the last observation, and the full one before any.  It has bits of names
only; an assessment that ends before the names, and a look at the figures or the
records, leaves the watch as it was. -/
theorem mask?_recalls (s : MandatorySet) (grace start : Nat) (table : List ProcessInfo)
    (es : List Watch.Event) :
    let w₀ : Watch :=
      { monitor := { mandatory := s, grace := grace }, now := start, table := table }
    let w := (w₀.run es).2
    (w.monitor.mask? = none ↔ w.assess.1 = .unmonitored) ∧
    (w.monitor.mask? = none ↔ (∀ q, .observe q ∉ es) ∨
      ∃ before after, es = before ++ .observe 0 :: after ∧ ∀ q, .observe q ∉ after) ∧
    (∀ before root after, es = before ++ .observe root :: after → (∀ q, .observe q ∉ after) →
      root ≠ 0 →
        let observing := (w₀.run (before ++ [.observe root])).2
        ∃ mask, w.monitor.mask? = some mask ∧ s.Recalls (observing.rulings after).getLast? mask) ∧
    (∀ mask, w.monitor.mask? = some mask → mask &&& ~~~s.fullMask = 0) ∧
    (w.assess.1 = .starting ∨ w.assess.1 = .rootInactive →
      (w.step .assess).2 = w ∧ (w.step .askOperational).2 = w) ∧
    (w.step .measure).2 = w ∧ (w.step .list).2 = w := by
  intro w₀ w
  have hnone := w.monitor.mask?_eq_none_iff
  have hidle (h : w.assess.1 = .starting ∨ w.assess.1 = .rootInactive) : w.assess.2 = w := by
    have hmonitor : (w.monitor.assess w.now w.table).2 = w.monitor :=
      Monitor.assess_of_not_isRuling (by rcases h with h | h <;> exact h ▸ rfl)
    exact congrArg (fun m => ({ w with monitor := m } : Watch)) hmonitor
  refine ⟨?_, ?_, fun before root after hes hlast hroot => ?_, ?_, fun h => ⟨hidle h, hidle h⟩,
    rfl, rfl⟩
  · have hthorough := w.monitor.thorough_eq_unmonitored_iff w.now w.table
    have hagrees := Monitor.assess_agrees w.monitor w.now w.table
    exact hnone.trans (hthorough.symm.trans (hagrees.eq_iff (by simp)).symm)
  · exact hnone.trans (Watch.observed?_run_eq_none_iff rfl es)
  · intro observing
    have hobserving : observing = ((w₀.run before).2.step (.observe root)).2 :=
      w₀.run_append before [.observe root]
    have hmandatory : observing.monitor.mandatory = s := (w₀.settings_run _).1
    have hfresh : observing.monitor.mask? = some observing.monitor.mandatory.fullMask := by
      have hfull := (w₀.run before).2.mask?_observe hroot
      rwa [← hobserving, ← ((w₀.run before).2.settings_step (.observe root)).1, ← hobserving] at hfull
    obtain ⟨mask, hmask, hrecalls⟩ := Watch.recalls_run hfresh hlast
    refine ⟨mask, ?_, hmandatory ▸ hrecalls⟩
    rwa [← Watch.run_append, List.append_assoc, List.singleton_append, ← hes] at hmask
  · intro mask hmask
    have hfirst : w₀.monitor.Sound := fun mask h => by cases h
    have hsound : w.monitor.Sound := Watch.sound_run hfirst es
    have hmandatory : w.monitor.mandatory = s := (w₀.settings_run es).1
    exact hmandatory ▸ hsound mask hmask

/-- The helper that ended comes back.  Then the root rests, which hides the tree
from the next assessment, and at last it is observed again. -/
def relief : List Watch.Event :=
  nightShift ++ [.assess, .setActive 3 true, .askOperational, .setActive 1 false, .assess,
    .setActive 1 true, .observe 1, .assess]

theorem mask?_recalls_relief :
    let w : Watch := { monitor := { mandatory := helpers, grace := 10 } }
    (∃ mask ≠ 0, (w.run (relief.take 7)).2.monitor.mask? = some mask ∧
        helpers.missing mask = ["content"]) ∧
      (w.run (relief.take 11)).2.monitor.mask? = some 0 ∧
      (w.run relief).2.monitor.mask? = some helpers.fullMask := by
  intro w
  have hshort := (mask?_recalls helpers 10 0 [] (relief.take 7)).2.2.1 [] 1
    ((relief.take 7).drop 1) rfl (by simp [relief, nightShift]) (by decide)
  have hwhole := (mask?_recalls helpers 10 0 [] (relief.take 11)).2.2.1 [] 1
    ((relief.take 11).drop 1) rfl (by simp [relief, nightShift]) (by decide)
  have hagain := (mask?_recalls helpers 10 0 [] relief).2.2.1 (relief.take 12) 1 [.assess] rfl
    (by simp) (by decide)
  have hcontent : (((w.run [.observe 1]).2.rulings ((relief.take 7).drop 1)).getLast?) =
      some (.degraded ["content"]) := by decide
  have hnone : (((w.run [.observe 1]).2.rulings ((relief.take 11).drop 1)).getLast?) =
      some .operational := by decide
  have hyoung : (((w.run (relief.take 12 ++ [.observe 1])).2.rulings [.assess]).getLast?) =
      none := by decide
  obtain ⟨mask, hmask, hlacks⟩ := hshort
  obtain ⟨mask', hmask', hzero⟩ := hwhole
  obtain ⟨mask'', hmask'', hfull⟩ := hagain
  rw [List.nil_append, hcontent] at hlacks
  rw [List.nil_append, hnone] at hzero
  rw [hyoung] at hfull
  obtain rfl : mask' = 0 := hzero
  obtain rfl : mask'' = helpers.fullMask := hfull
  have hwatch : w = { monitor := { mandatory := helpers, grace := 10 } } := rfl
  rw [hwatch]
  exact ⟨⟨mask, hlacks.1, hmask, hlacks.2⟩, hmask', hmask''⟩

end BrowserHost.Health
