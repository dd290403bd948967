import BrowserHost.Fault

/-!
# BrowserHost.Health.Mandatory

The helper processes that have to run, as an ordered set of at most 32 names.
A subset of the names is a 32-bit mask: the name at place `i` owns the bit of
weight `2 ^ i`.

* `distinct_nodup`, `mem_distinct`: the set holds each given name once;
* `bit_eq_none_iff`: a name owns a bit exactly when it is in the set.
-/

namespace BrowserHost.Health

/-! ## names without repetition -/

/-- The names that are not in `seen`, each at its first occurrence. -/
def distinctAfter (seen : List String) : List String → List String
  | [] => []
  | n :: ns =>
    if n ∈ seen then distinctAfter seen ns else n :: distinctAfter (n :: seen) ns

/-- Each name once, in order of first occurrence. -/
def distinct (names : List String) : List String :=
  distinctAfter [] names

theorem mem_distinctAfter {n : String} {seen names : List String} :
    n ∈ distinctAfter seen names ↔ n ∈ names ∧ n ∉ seen := by
  induction names generalizing seen with
  | nil => simp [distinctAfter]
  | cons m ms ih => grind [distinctAfter]

theorem mem_distinct {n : String} {names : List String} : n ∈ distinct names ↔ n ∈ names := by
  simp [distinct, mem_distinctAfter]

theorem distinctAfter_nodup (seen names : List String) : (distinctAfter seen names).Nodup := by
  induction names generalizing seen with
  | nil => simp [distinctAfter]
  | cons m ms ih =>
    unfold distinctAfter
    split
    · exact ih seen
    · exact List.nodup_cons.2 ⟨by simp [mem_distinctAfter], ih _⟩

theorem distinct_nodup (names : List String) : (distinct names).Nodup :=
  distinctAfter_nodup [] names

/-! ## the set -/

/-- The number of names that a mask has room for. -/
def maxMandatory : Nat := 32

/-- An ordered set of mandatory names. -/
structure MandatorySet where
  names : List String
  nodup : names.Nodup
  length_le : names.length ≤ maxMandatory

namespace MandatorySet

/-- The set of the given names, refused if they are too many. -/
def ofNames (names : List String) : Except Fault MandatorySet :=
  if h : (distinct names).length ≤ maxMandatory then
    .ok ⟨distinct names, distinct_nodup names, h⟩
  else .error (.tooManyMandatoryProcesses (distinct names).length)

/-- The set that asks for nothing. -/
def empty : MandatorySet := ⟨[], by simp, by simp⟩

/-- The mask with the bit of every name. -/
def fullMask (s : MandatorySet) : UInt32 :=
  match s.names.length with
  | 0 => 0
  | n + 1 => 0xFFFFFFFF >>> (UInt32.ofNat (maxMandatory - (n + 1)))

/-- The bit of weight `2 ^ i`. -/
def bitAt (i : Nat) : UInt32 :=
  1 <<< UInt32.ofNat i

/-- The bit that `name` owns, if it is mandatory. -/
def bit (s : MandatorySet) (name : String) : Option UInt32 :=
  (s.names.findIdx? (· == name)).map bitAt

/-- The names, from place `i` on, whose bits are set in `mask`. -/
def missingFrom (mask : UInt32) (i : Nat) : List String → List String
  | [] => []
  | n :: ns =>
    if mask &&& bitAt i != 0 then n :: missingFrom mask (i + 1) ns
    else missingFrom mask (i + 1) ns

/-- The names whose bits are set in `mask`, in order. -/
def missing (s : MandatorySet) (mask : UInt32) : List String :=
  missingFrom mask 0 s.names

theorem bit_eq_none_iff {s : MandatorySet} {name : String} :
    s.bit name = none ↔ name ∉ s.names := by
  simp only [bit, Option.map_eq_none_iff, List.findIdx?_eq_none_iff]
  grind

theorem ofNames_names {names : List String} {s : MandatorySet} (h : ofNames names = .ok s) :
    s.names = distinct names := by
  unfold ofNames at h
  grind

end MandatorySet

end BrowserHost.Health
