import BrowserHost.Proofs.Shortage
import Mathlib.Algebra.Group.Nat.Defs
import Mathlib.Data.Finset.Card
import Mathlib.Data.Finset.Dedup

/-!
# BrowserHost.Proofs.Roster

Mandatory sets: how they come from lists of names, and how masks stand for subsets of
them.

* `pairwise_distinct`: repetitions are dropped, and the order kept;
* `toNat_bitAt`, `toNat_fullMask`: the masks as numbers, which fit 32 bits;
* `fullMask_eq_foldr`: the full mask is made of the bits of the names;
* `missing_eq`: the names that a mask stands for;
* `masks_are_subsets`: all of it.
-/

namespace BrowserHost.Health

/-! ## the names of a list -/

/-- The names as they first occur in `given`. -/
def InOrder (given names : List String) : Prop :=
  names.Pairwise fun a b => given.idxOf a < given.idxOf b

theorem idxOf_cons_of_distinctAfter {m n : String} {seen names : List String} (hm : m ∈ seen)
    (hn : n ∈ distinctAfter seen names) : (m :: names).idxOf n = names.idxOf n + 1 := by
  have hne : m ≠ n := fun h => (mem_distinctAfter.1 hn).2 (h ▸ hm)
  rw [List.idxOf_cons_ne _ hne]

theorem pairwise_distinctAfter (seen given : List String) :
    InOrder given (distinctAfter seen given) := by
  induction given generalizing seen with
  | nil => exact .nil
  | cons m ms ih =>
    -- names that come later have the same distances with `m` in front
    have hshift {seen : List String} (hm : m ∈ seen) :
        InOrder (m :: ms) (distinctAfter seen ms) := by
      refine (ih seen).imp_of_mem fun ha hb hab => ?_
      rw [idxOf_cons_of_distinctAfter hm ha, idxOf_cons_of_distinctAfter hm hb]
      exact Nat.succ_lt_succ hab
    unfold distinctAfter
    split
    · next hm => exact hshift hm
    · refine List.pairwise_cons.2 ⟨fun b hb => ?_, hshift List.mem_cons_self⟩
      rw [List.idxOf_cons_self, idxOf_cons_of_distinctAfter List.mem_cons_self hb]
      exact Nat.succ_pos _

/-- Names are kept where they first occur. -/
theorem pairwise_distinct (given : List String) : InOrder given (distinct given) :=
  pairwise_distinctAfter [] given

theorem length_distinct (given : List String) :
    (distinct given).length = given.toFinset.card := by
  rw [← List.toFinset_card_of_nodup (distinct_nodup given)]
  congr 1
  ext name
  simp [mem_distinct]

namespace MandatorySet

theorem ofNames_eq (given : List String) :
    ((∃ s, ofNames given = .ok s) ∧ given.toFinset.card ≤ maxMandatory) ∨
      ofNames given = .error (.tooManyMandatoryProcesses given.toFinset.card) ∧
        maxMandatory < given.toFinset.card := by
  rw [← length_distinct]
  unfold ofNames
  split
  · next hfew => exact .inl ⟨⟨_, rfl⟩, hfew⟩
  · next hmany => exact .inr ⟨rfl, Nat.not_le.1 hmany⟩

/-! ## masks as numbers -/

theorem toNat_bitAt {i : Nat} (hi : i < maxMandatory) : (bitAt i).toNat = 2 ^ i := by
  have hall : ∀ i < maxMandatory, (bitAt i).toNat = 2 ^ i := by decide
  exact hall i hi

/-- So many ones. -/
theorem toNat_fullMask (s : MandatorySet) : s.fullMask.toNat = 2 ^ s.names.length - 1 := by
  have hle := s.length_le
  unfold fullMask
  split
  · next h => rw [h]; rfl
  · next n h =>
    have hall : ∀ n < maxMandatory,
        (0xFFFFFFFF >>> UInt32.ofNat (maxMandatory - (n + 1))).toNat = 2 ^ (n + 1) - 1 := by decide
    rw [h]
    exact hall n (by omega)

/-! ## masks as sets -/

theorem isSet_foldr_or (bs : List UInt32) (i : Nat) :
    isSet (bs.foldr (· ||| ·) 0) i = bs.any (isSet · i) := by
  induction bs with
  | nil => simp [isSet]
  | cons b bs ih => rw [List.foldr_cons, isSet_or, ih, List.any_cons]

/-- The full mask is made of the bits of the names. -/
theorem fullMask_eq_foldr (s : MandatorySet) :
    s.fullMask = (s.names.filterMap s.bit).foldr (· ||| ·) 0 := by
  refine ext_isSet fun i hi => ?_
  rw [isSet_fullMask, isSet_foldr_or, Bool.eq_iff_iff, List.any_eq_true, decide_eq_true_eq]
  simp only [List.mem_filterMap, bit_eq_some_iff]
  constructor
  · intro hlt
    have hname := List.getElem?_eq_getElem hlt
    refine ⟨bitAt i, ⟨_, List.getElem_mem hlt, i, hname, rfl⟩, ?_⟩
    rw [isSet_bitAt hi hi, decide_eq_true rfl]
  · rintro ⟨b, ⟨name, -, j, hj, rfl⟩, hset⟩
    have hlt := (List.getElem?_eq_some_iff.1 hj).1
    rw [isSet_bitAt (Nat.lt_of_lt_of_le hlt s.length_le) hi, decide_eq_true_eq] at hset
    exact hset ▸ hlt

/-- The names that a mask stands for are those at its places. -/
theorem missing_eq (s : MandatorySet) (mask : UInt32) :
    s.missing mask = s.names.filter fun name => isSet mask (s.names.idxOf name) :=
  s.missing_eq_filter fun i hi => by rw [s.nodup.idxOf_getElem i hi]

theorem isSet_and_fullMask (s : MandatorySet) (mask : UInt32) (i : Nat) :
    isSet (mask &&& s.fullMask) i = (isSet mask i && decide (i < s.names.length)) := by
  rw [isSet_and, isSet_fullMask]

theorem missing_and_fullMask (s : MandatorySet) (mask : UInt32) :
    s.missing (mask &&& s.fullMask) = s.missing mask := by
  rw [missing_eq, missing_eq]
  refine List.filter_congr fun name hname => ?_
  rw [isSet_and_fullMask, decide_eq_true (List.idxOf_lt_length_of_mem hname), Bool.and_true]

theorem missing_eq_nil_iff (s : MandatorySet) (mask : UInt32) :
    s.missing mask = [] ↔ mask &&& s.fullMask = 0 := by
  rw [missing_eq, List.filter_eq_nil_iff, eq_zero_iff]
  simp only [isSet_and_fullMask]
  constructor
  · intro h i _
    by_cases hlt : i < s.names.length
    · have hname := h _ (List.getElem_mem hlt)
      rw [s.nodup.idxOf_getElem i hlt, Bool.not_eq_true] at hname
      rw [hname, Bool.false_and]
    · rw [decide_eq_false hlt, Bool.and_false]
  · intro h name hname
    have hlt := List.idxOf_lt_length_of_mem hname
    have hbit := h _ (Nat.lt_of_lt_of_le hlt s.length_le)
    simpa [hlt] using hbit

/-- Names whose bits are cleared are not missing, and the others are. -/
theorem missing_foldl_without (s : MandatorySet) (names : List String) :
    s.missing (names.foldl s.without s.fullMask) = s.names.filter (· ∉ names) := by
  refine s.missing_eq_filter fun i hi => ?_
  rw [isSet_foldl_without s names _ (Nat.lt_of_lt_of_le hi s.length_le), isSet_fullMask,
    decide_eq_true hi, Bool.true_and, List.getElem?_eq_getElem hi, decide_not]
  congr 1
  rw [Bool.eq_iff_iff, List.any_eq_true, decide_eq_true_eq]
  simp

/-! ## sets and their masks -/

/-- Masks stand for the subsets of the names: each name has a bit of its own, no shift is
by as many places as there are or more, and clearing bits takes names away. -/
structure Faithful (s : MandatorySet) : Prop where
  places : ∀ i < s.names.length, i < maxMandatory ∧ (bitAt i).toNat = 2 ^ i
  full_place : s.names ≠ [] → s.names.length ≤ maxMandatory ∧
    maxMandatory - s.names.length < maxMandatory
  toNat_full : s.fullMask.toNat = 2 ^ s.names.length - 1
  owner : ∀ name, (∃ b, s.bit name = some b) ↔ name ∈ s.names
  single : ∀ name b, s.bit name = some b → ∃ i < maxMandatory, b.toNat = 2 ^ i
  apart : ∀ name name' b, s.bit name = some b → s.bit name' = some b → name = name'
  full : s.fullMask = (s.names.filterMap s.bit).foldr (· ||| ·) 0
  missing_cleared : ∀ names ⊆ s.names,
    s.missing (names.foldl s.without s.fullMask) = s.names.filter (· ∉ names)
  missing_full : ∀ mask, s.missing mask = s.missing (mask &&& s.fullMask)
  missing_none : ∀ mask, s.missing mask = [] ↔ mask &&& s.fullMask = 0

theorem eq_of_bit_eq {s : MandatorySet} {name name' : String} {b : UInt32}
    (h : s.bit name = some b) (h' : s.bit name' = some b) : name = name' := by
  obtain ⟨i, hi, rfl⟩ := bit_eq_some_iff.1 h
  obtain ⟨j, hj, hb⟩ := bit_eq_some_iff.1 h'
  have hlt : i < maxMandatory :=
    Nat.lt_of_lt_of_le (List.getElem?_eq_some_iff.1 hi).1 s.length_le
  have hlt' : j < maxMandatory :=
    Nat.lt_of_lt_of_le (List.getElem?_eq_some_iff.1 hj).1 s.length_le
  have hsame : isSet (bitAt i) j := by
    rw [hb, isSet_bitAt hlt' hlt']
    exact decide_eq_true rfl
  rw [isSet_bitAt hlt hlt', decide_eq_true_eq] at hsame
  subst hsame
  exact Option.some.inj (hi.symm.trans hj)

theorem faithful (s : MandatorySet) : s.Faithful where
  places i hi :=
    have hlt := Nat.lt_of_lt_of_le hi s.length_le
    ⟨hlt, toNat_bitAt hlt⟩
  full_place hne :=
    ⟨s.length_le, Nat.sub_lt (by decide) (List.length_pos_iff.2 hne)⟩
  toNat_full := s.toNat_fullMask
  owner name := by
    rw [← Option.isSome_iff_exists, ← not_iff_not, Bool.not_eq_true, Option.isSome_eq_false_iff,
      Option.isNone_iff_eq_none, bit_eq_none_iff]
  single name b hb := by
    obtain ⟨i, hi, rfl⟩ := bit_eq_some_iff.1 hb
    have hlt := Nat.lt_of_lt_of_le (List.getElem?_eq_some_iff.1 hi).1 s.length_le
    exact ⟨i, hlt, toNat_bitAt hlt⟩
  apart _ _ _ := eq_of_bit_eq
  full := s.fullMask_eq_foldr
  missing_cleared names _ := s.missing_foldl_without names
  missing_full mask := (s.missing_and_fullMask mask).symm
  missing_none := s.missing_eq_nil_iff

/-- A list of names gives a set exactly if no more than 32 of them are different: of
these, in the order in which they first occur.  Else their number is reported.  The
masks of every set stand for the subsets of its names. -/
theorem masks_are_subsets :
    (∀ given : List String,
      (∀ s, ofNames given = .ok s →
        InOrder given s.names ∧ ∀ name, name ∈ s.names ↔ name ∈ given) ∧
      ((∃ s, ofNames given = .ok s) ↔ given.toFinset.card ≤ maxMandatory) ∧
      ∀ e, ofNames given = .error e ↔
        maxMandatory < given.toFinset.card ∧ e = .tooManyMandatoryProcesses given.toFinset.card) ∧
    ∀ s : MandatorySet, s.Faithful := by
  refine ⟨fun given => ⟨fun s hs => ?_, ?_⟩, faithful⟩
  · rw [ofNames_names hs]
    exact ⟨pairwise_distinct given, fun _ => mem_distinct⟩
  · rcases ofNames_eq given with ⟨⟨s, hs⟩, hfew⟩ | ⟨hs, hmany⟩
    · refine ⟨iff_of_true ⟨s, hs⟩ hfew, fun e => ?_⟩
      rw [hs]
      exact iff_of_false nofun fun h => Nat.not_lt.2 hfew h.1
    · rw [hs]
      exact ⟨iff_of_false nofun (Nat.not_le.2 hmany),
        fun e => ⟨fun h => ⟨hmany, (Except.error.inj h).symm⟩, fun h => by rw [h.2]⟩⟩

/-- As many different names as there are bits. -/
def fullHouse : List String :=
  (List.range maxMandatory).map fun i => String.singleton (Char.ofNat ('A'.toNat + i))

theorem masks_are_subsets_fullHouse :
    (∃ s, ofNames (fullHouse ++ fullHouse) = .ok s ∧ s.fullMask = 0xFFFFFFFF ∧
      s.missing (["C", "A", "C"].foldl s.without s.fullMask) = "B" :: fullHouse.drop 3) ∧
    ofNames ("host" :: fullHouse) = .error (.tooManyMandatoryProcesses 33) := by
  obtain ⟨hgiven, hfaithful⟩ := masks_are_subsets
  have hcard : (fullHouse ++ fullHouse).toFinset.card ≤ maxMandatory := by decide +kernel
  have hcard' : ("host" :: fullHouse).toFinset.card = 33 := by decide +kernel
  refine ⟨?_, ((hgiven _).2.2 _).2 ⟨by rw [hcard']; decide, by rw [hcard']⟩⟩
  obtain ⟨s, hs⟩ := (hgiven _).2.1.2 hcard
  have hnames : s.names = fullHouse := (ofNames_names hs).trans (by decide +kernel)
  have hmissing := (hfaithful s).missing_cleared ["C", "A", "C"] (by rw [hnames]; decide +kernel)
  have hfull := (hfaithful s).toNat_full
  rw [hnames] at hmissing hfull
  refine ⟨s, hs, UInt32.toNat_inj.1 hfull, hmissing.trans (by decide +kernel)⟩

end MandatorySet

end BrowserHost.Health
