import BrowserHost.Binary64
import Mathlib.Algebra.Order.Field.Power
import Mathlib.Data.Rat.Cast.Order
import Mathlib.Tactic.FieldSimp
import Mathlib.Tactic.Linarith
import Mathlib.Tactic.NormNum
import Mathlib.Tactic.Positivity
import Mathlib.Tactic.Ring

/-!
# BrowserHost.Proofs.Rounding

Reading a number rounds it to the nearest value of the format.  A finite
magnitude `m * 2 ^ q` stands for all reals that are no farther from it than half
a unit, a quarter below a power of two; ties belong to the even `m`.

* `floorLog2_spec`: the exponent of a ratio;
* `roundDiv_eq`: rounding a ratio to a whole number;
* `magnitudeOfRatio_eq`: what is near a magnitude is read as that magnitude.
-/

namespace BrowserHost.Binary64

/-! ## powers -/

theorem zpow_of_nonneg (b : ℕ) {e : ℤ} (he : 0 ≤ e) :
    (b : ℚ) ^ e = (Nat.pow b e.toNat : ℕ) := by
  obtain ⟨n, rfl⟩ := Int.eq_ofNat_of_zero_le he
  simp

theorem zpow_of_neg (b : ℕ) {e : ℤ} (he : e < 0) :
    (b : ℚ) ^ e = ((Nat.pow b (-e).toNat : ℕ) : ℚ)⁻¹ := by
  have hneg := zpow_of_nonneg b (e := -e) (by omega)
  rw [← hneg, zpow_neg, inv_inv]

theorem two_pow_mul (n : ℕ) (e : ℤ) : (2 : ℚ) ^ n * 2 ^ e = 2 ^ (e + n) := by
  rw [zpow_add₀ (by norm_num), zpow_natCast, mul_comm]

/-! ## the exponent of a ratio -/

theorem log2_spec {n : ℕ} (hn : 0 < n) :
    (2 : ℚ) ^ (n.log2 : ℤ) ≤ n ∧ (n : ℚ) < 2 ^ ((n.log2 : ℤ) + 1) := by
  have hle : 2 ^ n.log2 ≤ n := Nat.log2_self_le (by omega)
  have hlt : n < 2 ^ (n.log2 + 1) := Nat.lt_log2_self
  constructor
  · exact_mod_cast hle
  · exact_mod_cast hlt

theorem floorLog2_spec {num den : ℕ} (hn : 0 < num) (hd : 0 < den) :
    (2 : ℚ) ^ floorLog2 num den ≤ num / den ∧ (num : ℚ) / den < 2 ^ (floorLog2 num den + 1) := by
  obtain ⟨hnum, hnum'⟩ := log2_spec hn
  obtain ⟨hden, hden'⟩ := log2_spec hd
  have hdpos : (0 : ℚ) < den := by exact_mod_cast hd
  have htwo : (2 : ℚ) ≠ 0 := by norm_num
  obtain ⟨k, hk⟩ : ∃ k : ℤ, k = num.log2 - den.log2 := ⟨_, rfl⟩
  -- the difference of the logarithms is the exponent or one more
  have hbelow : (2 : ℚ) ^ (k - 1) ≤ num / den := by
    rw [le_div_iff₀ hdpos]
    calc (2 : ℚ) ^ (k - 1) * den ≤ 2 ^ (k - 1) * 2 ^ ((den.log2 : ℤ) + 1) := by gcongr
      _ = 2 ^ (num.log2 : ℤ) := by rw [← zpow_add₀ htwo, hk]; congr 1; ring
      _ ≤ num := hnum
  have habove : (num : ℚ) / den < 2 ^ (k + 1) := by
    rw [div_lt_iff₀ hdpos]
    calc (num : ℚ) < 2 ^ ((num.log2 : ℤ) + 1) := hnum'
      _ = 2 ^ (k + 1) * 2 ^ (den.log2 : ℤ) := by rw [← zpow_add₀ htwo, hk]; congr 1; ring
      _ ≤ 2 ^ (k + 1) * den := by gcongr
  have hreached : (if 0 ≤ k then den * Nat.pow 2 k.toNat ≤ num
      else den ≤ num * Nat.pow 2 (-k).toNat) ↔ (2 : ℚ) ^ k ≤ num / den := by
    rw [le_div_iff₀ hdpos]
    split_ifs with hsign
    · rw [show (2 : ℚ) = ((2 : ℕ) : ℚ) by norm_num, zpow_of_nonneg 2 hsign, mul_comm]
      exact_mod_cast Iff.rfl
    · have hpos : (0 : ℚ) < (Nat.pow 2 (-k).toNat : ℕ) := by
        exact_mod_cast Nat.pow_pos (by decide)
      rw [show (2 : ℚ) = ((2 : ℕ) : ℚ) by norm_num, zpow_of_neg 2 (by omega), inv_mul_le_iff₀ hpos,
        mul_comm]
      exact_mod_cast Iff.rfl
  unfold floorLog2
  simp only [← hk]
  by_cases hr : if 0 ≤ k then den * Nat.pow 2 k.toNat ≤ num else den ≤ num * Nat.pow 2 (-k).toNat
  · rw [if_pos hr]
    exact ⟨hreached.1 hr, habove⟩
  · rw [if_neg hr, sub_add_cancel]
    exact ⟨hbelow, lt_of_not_ge fun h => hr (hreached.2 h)⟩

/-! ## rounding to a whole number -/

theorem roundDiv_eq {num den n : ℕ} (hd : 0 < den) (hlow : (n : ℚ) - 1 / 2 ≤ num / den)
    (hhigh : (num : ℚ) / den ≤ n + 1 / 2)
    (htie : n % 2 = 1 → (n : ℚ) - 1 / 2 < num / den ∧ (num : ℚ) / den < n + 1 / 2) :
    roundDiv num den = n := by
  have hdpos : (0 : ℚ) < den := by exact_mod_cast hd
  rw [le_div_iff₀ hdpos] at hlow
  rw [div_le_iff₀ hdpos] at hhigh
  rw [lt_div_iff₀ hdpos, div_lt_iff₀ hdpos] at htie
  -- without fractions
  have hlow' : 2 * n * den ≤ 2 * num + den := by
    have h : (2 * n * den : ℚ) ≤ 2 * num + den := by linarith
    exact_mod_cast h
  have hhigh' : 2 * num ≤ 2 * n * den + den := by
    have h : (2 * num : ℚ) ≤ 2 * n * den + den := by linarith
    exact_mod_cast h
  have htie' (hn : n % 2 = 1) : 2 * n * den < 2 * num + den ∧ 2 * num < 2 * n * den + den := by
    have h : (2 * n * den : ℚ) < 2 * num + den ∧ (2 * num : ℚ) < 2 * n * den + den := by
      constructor <;> linarith [htie hn]
    exact_mod_cast h
  obtain ⟨q, hq⟩ : ∃ q, q = num / den := ⟨_, rfl⟩
  obtain ⟨r, hr⟩ : ∃ r, r = num % den := ⟨_, rfl⟩
  have hlt : r < den := hr ▸ Nat.mod_lt num hd
  have hnum : num = den * q + r := by rw [hq, hr, Nat.div_add_mod]
  -- the quotient or the next number
  obtain rfl | rfl : n = q ∨ n = q + 1 := by
    have hle : n < q + 2 := by
      by_contra hge
      have hmul : 2 * (q + 2) * den ≤ 2 * n * den := by
        gcongr
        omega
      rw [hnum] at hlow'
      nlinarith
    have hge : q ≤ n := by
      by_contra hlt'
      have hmul : 2 * (n + 1) * den ≤ 2 * q * den := by
        gcongr
        omega
      rw [hnum] at hhigh'
      nlinarith
    omega
  · have hhalf : 2 * r ≤ den := by
      rw [hnum] at hhigh'
      linarith
    have hstrict (hodd : n % 2 = 1) : 2 * r < den := by
      have h := (htie' hodd).2
      rw [hnum] at h
      linarith
    unfold roundDiv
    simp only [← hq, ← hr]
    split_ifs <;> omega
  · have hhalf : den ≤ 2 * r := by
      rw [hnum] at hlow'
      linarith
    have hstrict (hodd : (q + 1) % 2 = 1) : den < 2 * r := by
      have h := (htie' hodd).1
      rw [hnum] at h
      linarith
    unfold roundDiv
    simp only [← hq, ← hr]
    split_ifs <;> omega

/-- The same on a scale of powers of two. -/
theorem roundDiv_scaled {num den n : ℕ} (hd : 0 < den) (q : ℤ)
    (hlow : (n : ℚ) - 1 / 2 ≤ num / den / 2 ^ q) (hhigh : (num : ℚ) / den / 2 ^ q ≤ n + 1 / 2)
    (htie : n % 2 = 1 →
      (n : ℚ) - 1 / 2 < num / den / 2 ^ q ∧ (num : ℚ) / den / 2 ^ q < n + 1 / 2) :
    (if 0 ≤ q then roundDiv num (den * Nat.pow 2 q.toNat)
      else roundDiv (num * Nat.pow 2 (-q).toNat) den) = n := by
  have hcast : (2 : ℚ) = ((2 : ℕ) : ℚ) := by norm_num
  split_ifs with hq
  · have hscale : (num : ℚ) / den / 2 ^ q = num / (den * Nat.pow 2 q.toNat : ℕ) := by
      rw [hcast, zpow_of_nonneg 2 hq, Nat.cast_mul, div_div]
    rw [hscale] at hlow hhigh htie
    exact roundDiv_eq (Nat.mul_pos hd (Nat.pow_pos (by decide))) hlow hhigh htie
  · have hscale : (num : ℚ) / den / 2 ^ q = (num * Nat.pow 2 (-q).toNat : ℕ) / den := by
      rw [hcast, zpow_of_neg 2 (by omega), div_inv_eq_mul, Nat.cast_mul, div_mul_eq_mul_div]
    rw [hscale] at hlow hhigh htie
    exact roundDiv_eq hd hlow hhigh htie

/-! ## magnitudes -/

/-- A positive finite magnitude is `m * 2 ^ q`. -/
structure IsPair (magnitude m : ℕ) (q : ℤ) : Prop where
  pos : 0 < m
  lt : m < Nat.pow 2 53
  least : -1074 ≤ q
  most : q ≤ 971
  full : -1074 < q → Nat.pow 2 52 ≤ m
  eq : (q + 1074).toNat * Nat.pow 2 52 + m = magnitude

theorem isPair_pair {M : ℕ} (hM : 0 < M) (hfinite : M < infinity) :
    IsPair M (pair M).1 (pair M).2 := by
  have hpow : Nat.pow 2 52 = 4503599627370496 := by decide
  have hpow' : Nat.pow 2 53 = 9007199254740992 := by decide
  unfold infinity at hfinite
  unfold pair
  dsimp only
  split_ifs with he
  · constructor <;> simp only [hpow, hpow'] at * <;> omega
  · constructor <;> simp only [hpow, hpow'] at * <;> omega

/-- The lower end of what is near `m`, in units of `2 ^ q`. -/
def lowEnd (m : ℕ) (q : ℤ) : ℚ :=
  if m = Nat.pow 2 52 ∧ -1074 < q then m - 1 / 4 else m - 1 / 2

/-- What is near `m * 2 ^ q`: no farther than half a unit, a quarter below a
power of two; the ends only if `m` is even. -/
structure Near (m : ℕ) (q : ℤ) (r : ℚ) : Prop where
  low : lowEnd m q ≤ r / 2 ^ q
  high : r / 2 ^ q ≤ m + 1 / 2
  strict : m % 2 = 1 → lowEnd m q < r / 2 ^ q ∧ r / 2 ^ q < m + 1 / 2

theorem le_lowEnd (m : ℕ) (q : ℤ) : (m : ℚ) - 1 / 2 ≤ lowEnd m q := by
  unfold lowEnd
  split_ifs
  · linarith
  · exact le_refl _

theorem Near.pos {m : ℕ} {q : ℤ} {r : ℚ} (h : Near m q r) (hm : 0 < m) : 0 < r := by
  have hone : (1 : ℚ) ≤ m := by exact_mod_cast hm
  have hscaled : 0 < r / 2 ^ q := by linarith [le_lowEnd m q, h.low]
  exact (div_pos_iff_of_pos_right (by positivity)).1 hscaled

section

variable {M m : ℕ} {q : ℤ} {num den : ℕ}

/-- A ratio whose exponent is that of the magnitude is rounded on its scale. -/
theorem roundDiv_near (hd : 0 < den) (h : Near m q (num / den)) :
    (if 0 ≤ q then roundDiv num (den * Nat.pow 2 q.toNat)
      else roundDiv (num * Nat.pow 2 (-q).toNat) den) = m := by
  have hend := le_lowEnd m q
  refine roundDiv_scaled hd q (hend.trans h.low) h.high fun hodd => ?_
  obtain ⟨hlow, hhigh⟩ := h.strict hodd
  exact ⟨lt_of_le_of_lt hend hlow, hhigh⟩

/-- What is near a magnitude is read as that magnitude. -/
theorem magnitudeOfRatio_eq (hp : IsPair M m q) (hfinite : M < infinity) (hd : 0 < den)
    (h : Near m q (num / den)) : magnitudeOfRatio num den = M := by
  have hratio : (0 : ℚ) < num / den := h.pos hp.pos
  have hn : 0 < num := by
    refine Nat.pos_of_ne_zero fun h0 => ?_
    simp [h0] at hratio
  obtain ⟨k, hk⟩ : ∃ k, k = floorLog2 num den := ⟨_, rfl⟩
  obtain ⟨hfloor, hceil⟩ := floorLog2_spec hn hd
  rw [← hk] at hfloor hceil
  have hscale : (0 : ℚ) < 2 ^ q := by positivity
  obtain ⟨t, ht⟩ : ∃ t : ℚ, t = num / den / 2 ^ q := ⟨_, rfl⟩
  have hvalue : (num : ℚ) / den = t * 2 ^ q := by
    rw [ht, div_mul_cancel₀ _ hscale.ne']
  have hm : (m : ℚ) ≤ 2 ^ 53 - 1 := by
    have hle : m + 1 ≤ 2 ^ 53 := hp.lt
    have hcast : (m : ℚ) + 1 ≤ 2 ^ 53 := by exact_mod_cast hle
    linarith
  -- the exponent of the ratio, from bounds on the scale of the magnitude
  have hbelow {n : ℕ} (hlt : t < 2 ^ n) : k < q + n := by
    refine (zpow_lt_zpow_iff_right₀ (by norm_num : (1 : ℚ) < 2)).1 ?_
    calc (2 : ℚ) ^ k ≤ num / den := hfloor
      _ = t * 2 ^ q := hvalue
      _ < 2 ^ n * 2 ^ q := by gcongr
      _ = 2 ^ (q + n) := two_pow_mul n q
  have habove {n : ℕ} (hle : 2 ^ n ≤ t) : q + n ≤ k := by
    refine Int.lt_add_one_iff.1 ((zpow_lt_zpow_iff_right₀ (by norm_num : (1 : ℚ) < 2)).1 ?_)
    calc (2 : ℚ) ^ (q + n) = 2 ^ n * 2 ^ q := (two_pow_mul n q).symm
      _ ≤ t * 2 ^ q := by gcongr
      _ = num / den := hvalue.symm
      _ < 2 ^ (k + 1) := hceil
  have hlow : lowEnd m q ≤ t := ht ▸ h.low
  have hhigh : t ≤ m + 1 / 2 := ht ▸ h.high
  have hleast := hp.least
  have hover : k < q + 53 := hbelow (by linarith)
  have hresult {p : ℤ} {n : ℕ} (hpk : max (k - 52) (-1074) = p)
      (hround : (if 0 ≤ p then roundDiv num (den * Nat.pow 2 p.toNat)
        else roundDiv (num * Nat.pow 2 (-p).toNat) den) = n)
      (hM : (p + 1074).toNat * Nat.pow 2 52 + n = M) : magnitudeOfRatio num den = M := by
    unfold magnitudeOfRatio
    rw [if_neg (by omega)]
    simp only [← hk, hpk, hround, hM]
    exact Nat.min_eq_left hfinite.le
  by_cases hunder : k < q + 52 ∧ -1074 < q
  · -- just below a power of two the ratio has a smaller exponent, and is rounded up
    have hfull : 2 ^ 52 ≤ m := hp.full hunder.2
    have hsmall : t < 2 ^ 52 := by
      by_contra hge
      have hk' := habove (n := 52) (not_lt.1 hge)
      omega
    have hm52 : m = Nat.pow 2 52 := by
      refine le_antisymm ?_ hfull
      by_contra hlt
      have hend := (le_lowEnd m q).trans hlow
      have hcast : ((2 ^ 52 + 1 : ℕ) : ℚ) ≤ m := by exact_mod_cast not_le.1 hlt
      push_cast at hcast
      linarith
    have hend : (2 : ℚ) ^ 52 - 1 / 4 ≤ t := by
      unfold lowEnd at hlow
      rw [if_pos ⟨hm52, hunder.2⟩, hm52] at hlow
      have hcast : ((Nat.pow 2 52 : ℕ) : ℚ) = 2 ^ 52 := by norm_num
      rwa [hcast] at hlow
    have hk51 := habove (n := 51) (by linarith)
    have htwice : (num : ℚ) / den / 2 ^ (q - 1) = 2 * t := by
      rw [hvalue, zpow_sub_one₀ (by norm_num)]
      field_simp
    refine hresult (p := q - 1) (n := 2 ^ 53) (by omega) (roundDiv_scaled hd (q - 1) ?_ ?_ ?_) ?_
    · rw [htwice]
      push_cast
      linarith
    · rw [htwice]
      push_cast
      linarith
    · simp
    · have hnext : (q - 1 + 1074).toNat + 1 = (q + 1074).toNat := by omega
      have hdouble : 2 ^ 53 = Nat.pow 2 52 + Nat.pow 2 52 := by decide
      rw [← hp.eq, ← hnext, hm52, hdouble, Nat.add_mul, Nat.one_mul, Nat.add_assoc]
  · exact hresult (by omega) (roundDiv_near hd h) hp.eq

end

end BrowserHost.Binary64
