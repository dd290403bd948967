import BrowserHost.Text.Decimal
import Mathlib.Algebra.Group.Nat.Defs
import Mathlib.Tactic.Common

/-!
# BrowserHost.Proofs.Decimal

Numbers in decimal, written and read again.

* `digits?_toDigits`: a number that is written is read back;
* `digits?_padLeft`: zeros before it change nothing;
* `digits?_lt`: so many digits spell a number below the power of ten.
-/

namespace BrowserHost.Text

/-! ## digits -/

theorem digit?_digitChar {d : Nat} (h : d < 10) : digit? d.digitChar = some d := by
  have hall : ∀ d < 10, digit? (Nat.digitChar d) = some d := by decide
  exact hall d h

/-- Every character of a list is a digit. -/
def AllDigits (cs : List Char) : Prop :=
  ∀ c ∈ cs, (digit? c).isSome

theorem allDigits_append {cs ds : List Char} :
    AllDigits (cs ++ ds) ↔ AllDigits cs ∧ AllDigits ds := by
  simp only [AllDigits, List.mem_append, or_imp, forall_and]

theorem digit?_lt {c : Char} {d : Nat} (h : digit? c = some d) : d < 10 := by
  unfold digit? at h
  split at h
  · next hc =>
    have hle : c.toNat ≤ '9'.toNat := hc.2
    have hd : c.toNat - '0'.toNat = d := Option.some.inj h
    simp only [Char.reduceToNat] at hle hd
    omega
  · cases h

/-- A digit is neither a sign nor a mark, nor blank. -/
theorem ne_of_isSome_digit? {c d : Char} (hc : (digit? c).isSome) (hd : digit? d = none) :
    c ≠ d := by
  rintro rfl
  simp [hd] at hc

/-- So many digits spell a number below the power of ten. -/
theorem digitsFrom_lt {cs : List Char} {n m k : Nat} (hn : n < 10 ^ k)
    (h : digitsFrom n cs = some m) : m < 10 ^ (k + cs.length) := by
  induction cs generalizing n k with
  | nil => exact Option.some.inj h ▸ hn
  | cons c cs ih =>
    unfold digitsFrom at h
    cases hc : digit? c with
    | none => simp [hc] at h
    | some d =>
      simp only [hc] at h
      have hd := digit?_lt hc
      have hstep := ih (k := k + 1) (by rw [Nat.pow_succ]; omega) h
      rwa [List.length_cons, Nat.add_comm cs.length, ← Nat.add_assoc]

theorem digits?_lt {cs : List Char} {n : Nat} (h : digits? cs = some n) : n < 10 ^ cs.length := by
  unfold digits? at h
  split at h
  · cases h
  · simpa using digitsFrom_lt (k := 0) (by decide) h

/-! ## a number written -/

theorem digitsFrom_toDigits (n : Nat) : digitsFrom 0 (Nat.toDigits 10 n) = some n := by
  induction n using Nat.strongRecOn with
  | ind n ih =>
    rcases Nat.lt_or_ge n 10 with hn | hn
    · simp [Nat.toDigits_of_lt_base hn, digitsFrom, digit?_digitChar hn]
    · have hlast : n % 10 < 10 := Nat.mod_lt n (by decide)
      rw [Nat.toDigits_of_base_le (by decide) hn, digitsFrom_append, ih (n / 10) (by omega)]
      simp only [Option.bind_some, digitsFrom, digit?_digitChar hlast]
      congr 1
      omega

theorem isSome_digit?_of_isDigit {c : Char} (h : c.isDigit) : (digit? c).isSome := by
  simp only [Char.isDigit, Bool.and_eq_true, decide_eq_true_eq] at h
  have hc : '0' ≤ c ∧ c ≤ '9' := h
  simp [digit?, hc]

theorem allDigits_toDigits (n : Nat) : AllDigits (Nat.toDigits 10 n) :=
  fun _ hc => isSome_digit?_of_isDigit (Nat.isDigit_of_mem_toDigits (by decide) (by decide) hc)

/-- No number but zero is written with a zero in front. -/
theorem toDigits_ne_zero_cons {n : Nat} (hn : 0 < n) (cs : List Char) :
    Nat.toDigits 10 n ≠ '0' :: cs := by
  induction n using Nat.strongRecOn generalizing cs with
  | ind n ih =>
    rcases Nat.lt_or_ge n 10 with hlt | hge
    · have hall : ∀ d < 10, 0 < d → Nat.digitChar d ≠ '0' := by decide
      simp [Nat.toDigits_of_lt_base hlt, hall n hlt hn]
    · obtain ⟨c, ds, hds⟩ := List.exists_cons_of_ne_nil (Nat.toDigits_ne_nil (n := n / 10) (b := 10))
      have hc : c ≠ '0' := fun hc => ih (n / 10) (by omega) (by omega) ds (hc ▸ hds)
      simp [Nat.toDigits_of_base_le (by decide : 1 < 10) hge, hds, hc]

theorem digits?_toDigits (n : Nat) : digits? (Nat.toDigits 10 n) = some n := by
  simp [digits?, digitsFrom_toDigits]

/-! ## padding -/

theorem toList_padLeft (width : Nat) (fill : Char) (s : String) :
    (padLeft width fill s).toList = List.replicate (width - s.length) fill ++ s.toList := by
  simp [padLeft]

theorem digitsFrom_zeros (k : Nat) (cs : List Char) :
    digitsFrom 0 (List.replicate k '0' ++ cs) = digitsFrom 0 cs := by
  induction k with
  | zero => rfl
  | succ k ih => exact ih

/-- Zeros before a number change nothing. -/
theorem digits?_padLeft (width n : Nat) :
    digits? (padLeft width '0' (toString n)).toList = some n := by
  rw [toList_padLeft, Nat.toString_eq_repr, Nat.toList_repr, digits?, digitsFrom_zeros,
    digitsFrom_toDigits]
  simp

theorem allDigits_padLeft (width n : Nat) :
    AllDigits (padLeft width '0' (toString n)).toList := by
  rw [toList_padLeft, Nat.toString_eq_repr, Nat.toList_repr, allDigits_append]
  refine ⟨fun c hc => ?_, allDigits_toDigits n⟩
  rw [List.eq_of_mem_replicate hc]
  rfl

/-- A number that fits is padded to the width. -/
theorem length_padLeft {width n : Nat} (hwidth : 0 < width) (hn : n < 10 ^ width) :
    (padLeft width '0' (toString n)).toList.length = width := by
  have hfits : (toString n).length ≤ width := (Nat.length_repr_le_iff hwidth).2 hn
  rw [toList_padLeft, List.length_append, List.length_replicate, String.length_toList]
  omega

end BrowserHost.Text
