import BrowserHost.Health.Monitor
import Mathlib.Data.List.Nodup
import Mathlib.Data.List.Perm.Subperm
import Mathlib.Tactic.Common

/-!
# BrowserHost.Proofs.Mask

Masks as sets of mandatory names: which bits they have, and which names keep
theirs when the processes of a tree have been looked through.

* `isSet_fullMask`, `isSet_without`: the bits, place by place;
* `clearActive_eq_foldl`: stopping at the empty mask changes nothing;
* `scan_eq_zero_iff`: a full scan ends with the empty mask exactly when every
  name is the name of a running process;
* `lackingMask_eq_zero_iff`: nor does counting the processes first change
  whether the mask is empty, because the names are distinct.
-/

namespace BrowserHost.Health

namespace MandatorySet

/-! ## bits -/

/-- Whether the bit of place `i` is set. -/
def isSet (mask : UInt32) (i : Nat) : Bool :=
  mask.toBitVec.getLsbD i

theorem ext_isSet {mask mask' : UInt32} (h : ∀ i < maxMandatory, isSet mask i = isSet mask' i) :
    mask = mask' :=
  UInt32.toBitVec_inj.1 (BitVec.eq_of_getLsbD_eq fun i hi => h i hi)

theorem eq_zero_iff {mask : UInt32} : mask = 0 ↔ ∀ i < maxMandatory, isSet mask i = false := by
  constructor
  · rintro rfl i -
    simp [isSet]
  · intro h
    exact ext_isSet fun i hi => by rw [h i hi]; simp [isSet]

theorem isSet_bitAt {i j : Nat} (hi : i < maxMandatory) (hj : j < maxMandatory) :
    isSet (bitAt i) j = decide (i = j) := by
  unfold maxMandatory at hi hj
  have hmod : i % 32 = i := Nat.mod_eq_of_lt hi
  rw [Bool.eq_iff_iff]
  simp [isSet, bitAt, hmod, hj]
  omega

theorem isSet_and (mask b : UInt32) (j : Nat) :
    isSet (mask &&& b) j = (isSet mask j && isSet b j) := by
  simp [isSet]

theorem isSet_or (mask b : UInt32) (j : Nat) :
    isSet (mask ||| b) j = (isSet mask j || isSet b j) := by
  simp [isSet]

theorem isSet_and_not (mask b : UInt32) {j : Nat} (hj : j < maxMandatory) :
    isSet (mask &&& ~~~b) j = (isSet mask j && !isSet b j) := by
  unfold maxMandatory at hj
  simp [isSet, hj]

/-- The full mask has the bits of the names and no others. -/
theorem isSet_fullMask (s : MandatorySet) (j : Nat) :
    isSet s.fullMask j = decide (j < s.names.length) := by
  have hle := s.length_le
  unfold isSet fullMask
  split
  · next h => simp [h]
  · next n h =>
    have hones : (4294967295#32) = BitVec.allOnes 32 := rfl
    unfold maxMandatory at hle ⊢
    simp only [UInt32.toBitVec_shiftRight, UInt32.toBitVec_ofNat, BitVec.ushiftRight_eq',
      BitVec.getLsbD_ushiftRight]
    rw [hones, BitVec.getLsbD_allOnes, h, decide_eq_decide]
    simp
    omega

theorem fullMask_eq_zero_iff (s : MandatorySet) : s.fullMask = 0 ↔ s.names = [] := by
  have hle := s.length_le
  rw [eq_zero_iff, ← List.length_eq_zero_iff]
  simp only [isSet_fullMask, decide_eq_false_iff_not]
  constructor
  · intro h
    by_contra hne
    exact h 0 (by decide) (by omega)
  · intro h i _
    omega

/-- A name owns the bit of its place. -/
theorem bit_eq_some_iff {s : MandatorySet} {name : String} {b : UInt32} :
    s.bit name = some b ↔ ∃ i, s.names[i]? = some name ∧ b = bitAt i := by
  unfold bit
  rw [Option.map_eq_some_iff]
  constructor
  · rintro ⟨i, hi, rfl⟩
    obtain ⟨hlt, hname, -⟩ := List.findIdx?_eq_some_iff_getElem.1 hi
    exact ⟨i, by rw [List.getElem?_eq_getElem hlt, eq_of_beq hname], rfl⟩
  · rintro ⟨i, hi, rfl⟩
    obtain ⟨hlt, hname⟩ := List.getElem?_eq_some_iff.1 hi
    refine ⟨i, List.findIdx?_eq_some_iff_getElem.2 ⟨hlt, by simp [hname], fun j hj heq => ?_⟩, rfl⟩
    -- names are distinct, so no earlier place has this one
    have hsame : s.names[j] = s.names[i] := (eq_of_beq heq).trans hname.symm
    exact absurd ((s.nodup.getElem_inj_iff).1 hsame) (by omega)

/-! ## clearing bits -/

/-- The mask without the bit of a name, if it is mandatory. -/
def without (s : MandatorySet) (mask : UInt32) (name : String) : UInt32 :=
  (s.bit name).elim mask fun b => mask &&& ~~~b

theorem isSet_without (s : MandatorySet) (mask : UInt32) (name : String) {i : Nat}
    (hi : i < maxMandatory) :
    isSet (s.without mask name) i = (isSet mask i && !(s.names[i]? == some name)) := by
  have hle := s.length_le
  unfold without
  cases hbit : s.bit name with
  | none =>
    have hnot := bit_eq_none_iff.1 hbit
    have hne : s.names[i]? ≠ some name := fun h => hnot (List.mem_of_getElem? h)
    simp [hne]
  | some b =>
    obtain ⟨j, hj, rfl⟩ := bit_eq_some_iff.1 hbit
    have hlt := (List.getElem?_eq_some_iff.1 hj).1
    have hiff : s.names[i]? = some name ↔ j = i := by
      rw [← hj, eq_comm]
      exact List.getElem?_inj hlt s.nodup
    simp only [Option.elim_some, isSet_and_not _ _ hi,
      isSet_bitAt (Nat.lt_of_lt_of_le hlt hle) hi]
    by_cases hji : j = i
    · simp [hji, hiff.2 hji]
    · simp [hji, mt hiff.1 hji]

/-- In whatever order bits are cleared, and however often, they are gone. -/
theorem isSet_foldl_without (s : MandatorySet) (names : List String) (mask : UInt32) {i : Nat}
    (hi : i < maxMandatory) :
    isSet (names.foldl s.without mask) i =
      (isSet mask i && !names.any fun name => s.names[i]? == some name) := by
  induction names generalizing mask with
  | nil => simp
  | cons name names ih =>
    rw [List.foldl_cons, ih, isSet_without s mask name hi, List.any_cons, Bool.not_or,
      Bool.and_assoc]

/-! ## looking through processes -/

/-- A running process clears the bit of its name. -/
def cleared (s : MandatorySet) (mask : UInt32) (r : ProcessInfo) : UInt32 :=
  if r.active then (s.bit r.name).elim mask fun b => mask &&& ~~~b else mask

/-- The mask that is left when every process has been looked at. -/
def scan (s : MandatorySet) (rs : List ProcessInfo) : UInt32 :=
  rs.foldl s.cleared s.fullMask

theorem foldl_cleared_eq (s : MandatorySet) (rs : List ProcessInfo) (mask : UInt32) :
    rs.foldl s.cleared mask = ((rs.filter (·.active)).map (·.name)).foldl s.without mask := by
  rw [List.foldl_map, List.foldl_filter]
  rfl

theorem isSet_foldl_cleared (s : MandatorySet) (rs : List ProcessInfo) (mask : UInt32) {i : Nat}
    (hi : i < maxMandatory) :
    isSet (rs.foldl s.cleared mask) i =
      (isSet mask i && !rs.any fun r => r.active && s.names[i]? == some r.name) := by
  rw [foldl_cleared_eq, isSet_foldl_without s _ mask hi, List.any_map, List.any_filter]
  rfl

/-- No bit comes back. -/
theorem foldl_cleared_zero (s : MandatorySet) (rs : List ProcessInfo) :
    rs.foldl s.cleared 0 = 0 := by
  refine eq_zero_iff.2 fun i hi => ?_
  rw [isSet_foldl_cleared s rs 0 hi]
  simp [isSet]

end MandatorySet

/-- Stopping once no bit is left gives the same mask. -/
theorem Monitor.clearActive_eq_foldl (s : MandatorySet) (mask : UInt32) (rs : List ProcessInfo) :
    Monitor.clearActive s mask rs = rs.foldl s.cleared mask := by
  induction rs generalizing mask with
  | nil => rfl
  | cons r rs ih =>
    unfold Monitor.clearActive
    by_cases hzero : mask = 0
    · rw [if_pos hzero, hzero, MandatorySet.foldl_cleared_zero]
    · rw [if_neg hzero, List.foldl_cons, MandatorySet.cleared]
      cases r.active with
      | false => simpa using ih mask
      | true =>
        cases s.bit r.name with
        | none => simpa using ih mask
        | some b => simpa using ih _

namespace MandatorySet

/-! ## the empty mask -/

/-- Every name is the name of a running process. -/
def Covered (s : MandatorySet) (rs : List ProcessInfo) : Prop :=
  ∀ name ∈ s.names, ∃ r ∈ rs, r.active ∧ r.name = name

theorem scan_eq_zero_iff (s : MandatorySet) (rs : List ProcessInfo) :
    s.scan rs = 0 ↔ s.Covered rs := by
  have hle := s.length_le
  rw [eq_zero_iff]
  unfold scan Covered
  constructor
  · intro h name hname
    obtain ⟨i, hlt, rfl⟩ := List.getElem_of_mem hname
    have hi := h i (Nat.lt_of_lt_of_le hlt hle)
    rw [isSet_foldl_cleared s rs _ (Nat.lt_of_lt_of_le hlt hle), isSet_fullMask] at hi
    simp only [hlt, decide_true, Bool.true_and, Bool.not_eq_false', List.any_eq_true,
      Bool.and_eq_true, beq_iff_eq, List.getElem?_eq_getElem] at hi
    obtain ⟨r, hr, hactive, heq⟩ := hi
    exact ⟨r, hr, hactive, (Option.some.inj heq).symm⟩
  · intro h i hi
    rw [isSet_foldl_cleared s rs _ hi, isSet_fullMask]
    by_cases hlt : i < s.names.length
    · obtain ⟨r, hr, hactive, heq⟩ := h _ (List.getElem_mem hlt)
      have hany : rs.any (fun r => r.active && s.names[i]? == some r.name) = true :=
        List.any_eq_true.2 ⟨r, hr, by simp [hactive, heq, hlt]⟩
      simp [hany]
    · simp [hlt]

/-- Distinct names need as many processes. -/
theorem Covered.length_le {s : MandatorySet} {rs : List ProcessInfo} (h : s.Covered rs) :
    s.names.length ≤ rs.length := by
  have hsub : s.names ⊆ rs.map (·.name) := by
    intro name hname
    obtain ⟨r, hr, -, rfl⟩ := h name hname
    exact List.mem_map_of_mem hr
  simpa using (s.nodup.subperm hsub).length_le

end MandatorySet

/-- Counting the processes first does not change whether the mask is empty. -/
theorem Monitor.lackingMask_eq_zero_iff (s : MandatorySet) (t : ProcessTree) :
    Monitor.lackingMask s t = 0 ↔ s.scan t.descendants = 0 := by
  unfold Monitor.lackingMask
  split
  · rw [Monitor.clearActive_eq_foldl, MandatorySet.scan]
  · next hfew =>
    have hnames : s.names ≠ [] := fun hnil => hfew (by simp [hnil])
    have hcovered : ¬s.Covered t.descendants := fun h => hfew h.length_le
    rw [MandatorySet.fullMask_eq_zero_iff, MandatorySet.scan_eq_zero_iff]
    exact iff_of_false hnames hcovered

end BrowserHost.Health
