import BrowserHost.Proofs.Decimal
import BrowserHost.Proofs.Shortest
import BrowserHost.Toml.Number
import BrowserHost.Toml.Written

/-!
# BrowserHost.Proofs.Figures

Numbers of TOML, written and read again.  A whole number is written in digits, a
finite float with a point between digits, any other float by its name.  A line
feed follows each of them, which goes on with none of the readings that are tried
first.

* `number?_toDigits`: integers in range;
* `exists_digits`: the digits of a float spell a decimal that is near it;
* `number?_floatText`: every float is read back, and no number as no number.
-/

namespace BrowserHost.Binary64

open Text

variable {M : ℕ}

/-! ## values with and without a fraction -/

theorem isWhole_iff (M : ℕ) :
    isWhole M ↔ ∃ n : ℕ, (n : ℚ) = (pair M).1 * 2 ^ (pair M).2 := by
  have hcast : (2 : ℚ) = ((2 : ℕ) : ℚ) := by norm_num
  unfold isWhole
  simp only [Bool.or_eq_true, decide_eq_true_eq, beq_iff_eq]
  by_cases hq : 0 ≤ (pair M).2
  · refine ⟨fun _ => ⟨(pair M).1 * Nat.pow 2 (pair M).2.toNat, ?_⟩, fun _ => .inl hq⟩
    rw [hcast, zpow_of_nonneg 2 hq, Nat.cast_mul]
  · have hpos : 0 < Nat.pow 2 (-(pair M).2).toNat := Nat.pow_pos (by decide)
    have hne : ((Nat.pow 2 (-(pair M).2).toNat : ℕ) : ℚ) ≠ 0 := by exact_mod_cast hpos.ne'
    rw [hcast, zpow_of_neg 2 (by omega)]
    simp only [hq, false_or, eq_mul_inv_iff_mul_eq₀ hne]
    rw [← Nat.dvd_iff_mod_eq_zero]
    constructor
    · rintro ⟨n, hn⟩
      refine ⟨n, ?_⟩
      rw [hn, Nat.cast_mul, mul_comm]
    · rintro ⟨n, hn⟩
      refine ⟨n, ?_⟩
      rw [mul_comm]
      exact_mod_cast hn.symm

/-- Near a value with a fraction there is no whole number. -/
theorem isWhole_of_near {n : ℕ} (h : Near (pair M).1 (pair M).2 n) : isWhole M := by
  rw [isWhole_iff]
  have hcast : (2 : ℚ) = ((2 : ℕ) : ℚ) := by norm_num
  by_cases hq : 0 ≤ (pair M).2
  · refine ⟨(pair M).1 * Nat.pow 2 (pair M).2.toNat, ?_⟩
    rw [hcast, zpow_of_nonneg 2 hq, Nat.cast_mul]
  · have hpos : 0 < Nat.pow 2 (-(pair M).2).toNat := Nat.pow_pos (by decide)
    have hne : ((Nat.pow 2 (-(pair M).2).toNat : ℕ) : ℚ) ≠ 0 := by exact_mod_cast hpos.ne'
    have hlow := (le_lowEnd _ _).trans h.low
    have hhigh := h.high
    rw [hcast, zpow_of_neg 2 (by omega), div_inv_eq_mul, ← Nat.cast_mul] at hlow hhigh
    have hle : 2 * (pair M).1 ≤ 2 * (n * Nat.pow 2 (-(pair M).2).toNat) + 1 := by
      have hle' : (2 * (pair M).1 : ℚ) ≤ 2 * (n * Nat.pow 2 (-(pair M).2).toNat : ℕ) + 1 := by
        linarith
      exact_mod_cast hle'
    have hge : 2 * (n * Nat.pow 2 (-(pair M).2).toNat) ≤ 2 * (pair M).1 + 1 := by
      have hge' : (2 * (n * Nat.pow 2 (-(pair M).2).toNat : ℕ) : ℚ) ≤ 2 * (pair M).1 + 1 := by
        linarith
      exact_mod_cast hge'
    have heq : n * Nat.pow 2 (-(pair M).2).toNat = (pair M).1 := by omega
    refine ⟨n, ?_⟩
    rw [hcast, zpow_of_neg 2 (by omega), eq_mul_inv_iff_mul_eq₀ hne]
    exact_mod_cast heq

section

variable (hM : 0 < M) (hfinite : M < infinity)

include hM hfinite

/-- A value without a fraction is written without one. -/
theorem shortest_of_isWhole (h : isWhole M) : 0 ≤ (shortest M).2 := by
  obtain ⟨n, hn⟩ := (isWhole_iff M).1 h
  have hp := isPair_pair hM hfinite
  obtain ⟨-, -, -, hlog⟩ := floorLog2_value hM hfinite
  have hone : (1 : ℚ) ≤ (pair M).1 * 2 ^ (pair M).2 := by
    have hvalue : (0 : ℚ) < (pair M).1 * 2 ^ (pair M).2 := by
      have hpos : (0 : ℚ) < (pair M).1 := by exact_mod_cast hp.pos
      positivity
    rw [← hn] at hvalue ⊢
    have hn0 : 0 < n := by exact_mod_cast hvalue
    exact_mod_cast hn0
  have hstart : 0 ≤ roughLog10 (interval M).value (interval M).den := by
    have hk := hlog hone
    unfold roughLog10
    simp only
    omega
  have hgrid := onGrid?_isSome_of_eq hM hfinite (p := 0) (n := n) (by simpa using hn)
  have hsearch := (interval M).le_search 20
    (j := (roughLog10 (interval M).value (interval M).den).toNat)
    (p := roughLog10 (interval M).value (interval M).den)
    (by rwa [Int.toNat_of_nonneg hstart, sub_self])
  rwa [Int.toNat_of_nonneg hstart, sub_self] at hsearch

end

/-! ## digits -/

theorem stripZeros_of_nonneg (n d : ℕ) {p : ℤ} (hp : 0 ≤ p) : stripZeros n (d, p) = (d, p) := by
  cases n with
  | zero => rfl
  | succ n => simp [stripZeros, not_lt.2 hp]

theorem stripZeros_value (n d : ℕ) (p : ℤ) :
    ((stripZeros n (d, p)).1 : ℚ) * 10 ^ (stripZeros n (d, p)).2 = d * 10 ^ p := by
  induction n generalizing d p with
  | zero => rfl
  | succ n ih =>
    unfold stripZeros
    split_ifs with h
    · have hd : d = 10 * (d / 10) := by omega
      rw [ih, zpow_add_one₀ (by norm_num)]
      have hcast : (d : ℚ) = 10 * (d / 10 : ℕ) := by exact_mod_cast hd
      rw [hcast]
      ring
    · rfl

/-- Digits after others. -/
theorem digitsFrom_add (a m : ℕ) (ds : List Char) :
    digitsFrom (a + m) ds = (digitsFrom m ds).map (a * 10 ^ ds.length + ·) := by
  induction ds generalizing a m with
  | nil => simp [digitsFrom]
  | cons c ds ih =>
    unfold digitsFrom
    cases digit? c with
    | none => rfl
    | some d =>
      have hshift : 10 * (a + m) + d = 10 * a + (10 * m + d) := by ring
      have hpow : 10 * a * 10 ^ ds.length = a * 10 ^ (c :: ds).length := by
        rw [List.length_cons, pow_succ]
        ring
      simp only [hshift, ih, hpow]

/-- The text of a finite magnitude: digits, a point and digits, which together
spell a decimal near the value. -/
theorem exists_digits (hM : 0 < M) (hfinite : M < infinity) :
    ∃ (a n : ℕ) (f : List Char),
      (magnitudeText M ++ if isWhole M then ".0" else "").toList =
          Nat.toDigits 10 a ++ '.' :: f ∧
        AllDigits f ∧ f ≠ [] ∧ digitsFrom 0 (Nat.toDigits 10 a ++ f) = some n ∧
        Near (pair M).1 (pair M).2 (n / 10 ^ f.length) := by
  have hnear := near_shortest hM hfinite
  have htext : magnitudeText M =
      positional (stripZeros 20 (shortest M)).1 (stripZeros 20 (shortest M)).2 := by
    unfold magnitudeText
    rw [if_neg hM.ne']
  have hcast : (10 : ℚ) = ((10 : ℕ) : ℚ) := by norm_num
  by_cases hwhole : isWhole M
  · have hp := shortest_of_isWhole hM hfinite hwhole
    generalize shortest M = x at hnear htext hp
    obtain ⟨d, p⟩ := x
    rw [stripZeros_of_nonneg 20 d hp] at htext
    refine ⟨d * Nat.pow 10 p.toNat, 10 * (d * Nat.pow 10 p.toNat), ['0'], ?_, ?_, by simp, ?_, ?_⟩
    · rw [htext, positional, if_pos hp, if_pos hwhole]
      simp [Nat.toString_eq_repr]
    · simp [AllDigits, digit?]
    · rw [digitsFrom_append, digitsFrom_toDigits]
      rfl
    · have hvalue : ((10 * (d * Nat.pow 10 p.toNat) : ℕ) : ℚ) / 10 ^ ['0'].length = d * 10 ^ p := by
        rw [hcast, zpow_of_nonneg 10 hp]
        push_cast
        simp
      rw [hvalue]
      exact hnear
  · have hvalue := stripZeros_value 20 (shortest M).1 (shortest M).2
    generalize stripZeros 20 (shortest M) = x at hvalue htext
    obtain ⟨d, p⟩ := x
    rw [← hvalue] at hnear
    have hp : ¬0 ≤ p := by
      intro hp
      simp only [hcast, zpow_of_nonneg 10 hp, ← Nat.cast_mul] at hnear
      exact hwhole (isWhole_of_near hnear)
    have hlength := @length_padLeft (-p).toNat (d % Nat.pow 10 (-p).toNat) (by omega)
      (Nat.mod_lt d (Nat.pow_pos (by decide)))
    obtain ⟨f, hf⟩ : ∃ f, f = (padLeft (-p).toNat '0'
      (toString (d % Nat.pow 10 (-p).toNat))).toList := ⟨_, rfl⟩
    rw [← hf] at hlength
    refine ⟨d / Nat.pow 10 (-p).toNat, d, f, ?_, ?_, ?_, ?_, ?_⟩
    · rw [htext, positional, if_neg hp, if_neg hwhole, hf]
      simp [Nat.toString_eq_repr]
    · rw [hf]
      exact allDigits_padLeft _ _
    · rintro rfl
      simp at hlength
      omega
    · have hread : digitsFrom 0 f = some (d % Nat.pow 10 (-p).toNat) := by
        have hdigits := digits?_padLeft (-p).toNat (d % Nat.pow 10 (-p).toNat)
        rw [← hf] at hdigits
        unfold digits? at hdigits
        split at hdigits
        · cases hdigits
        · exact hdigits
      have hmod := Nat.div_add_mod' d (Nat.pow 10 (-p).toNat)
      rw [digitsFrom_append, digitsFrom_toDigits, Option.bind_some, ← Nat.add_zero (d / _),
        digitsFrom_add, hread, hlength, Option.map_some]
      exact congrArg some hmod
    · have hscale : (d : ℚ) / 10 ^ f.length = d * 10 ^ p := by
        rw [hlength, hcast, zpow_of_neg 10 (by omega), Nat.pow_eq, Nat.cast_pow, div_eq_mul_inv]
      rw [hscale]
      exact hnear

/-- A decimal near a magnitude is read as that magnitude. -/
theorem ofDecimal_eq (hM : 0 < M) (hfinite : M < infinity) (negative : Bool) {n k : ℕ}
    (hk : 0 < k) (h : Near (pair M).1 (pair M).2 (n / 10 ^ k)) :
    ofDecimal negative n (-k) = ofParts negative M := by
  have hp := isPair_pair hM hfinite
  have hn : 0 < n := by
    refine Nat.pos_of_ne_zero fun h0 => ?_
    have hpos := h.pos hp.pos
    simp [h0] at hpos
  have hnear : ¬-(k : ℤ) + n.log2 < -1200 := by
    intro hsmall
    have hscale : (0 : ℚ) < 2 ^ (pair M).2 := by positivity
    have hone : (1 : ℚ) ≤ (pair M).1 := by exact_mod_cast hp.pos
    have hlow : (1 : ℚ) / 2 ≤ n / 10 ^ k / 2 ^ (pair M).2 := by
      linarith [h.low, le_lowEnd (pair M).1 (pair M).2]
    rw [le_div_iff₀ hscale] at hlow
    have hlt : (2 : ℚ) ^ ((pair M).2 - 1) < 2 ^ ((n.log2 : ℤ) + 1 - k) := by
      calc (2 : ℚ) ^ ((pair M).2 - 1) = 1 / 2 * 2 ^ (pair M).2 := by
            rw [zpow_sub_one₀ (by norm_num)]
            ring
        _ ≤ n / 10 ^ k := hlow
        _ < 2 ^ ((n.log2 : ℤ) + 1) / 10 ^ k := by
            gcongr
            exact (log2_spec hn).2
        _ ≤ 2 ^ ((n.log2 : ℤ) + 1) / 2 ^ k := by
            gcongr
            norm_num
        _ = 2 ^ ((n.log2 : ℤ) + 1 - k) := by rw [zpow_sub₀ (by norm_num), zpow_natCast]
    have hexp := (zpow_lt_zpow_iff_right₀ (by norm_num : (1 : ℚ) < 2)).1 hlt
    have hleast := hp.least
    omega
  have hratio : magnitudeOfRatio n (Nat.pow 10 k) = M := by
    refine magnitudeOfRatio_eq hp hfinite (Nat.pow_pos (by decide)) ?_
    rwa [Nat.pow_eq, Nat.cast_pow]
  unfold ofDecimal
  rw [if_neg (by omega), if_neg (by omega), if_neg hnear, if_neg (by omega), neg_neg,
    Int.toNat_natCast, hratio]

/-! ## signs -/

theorem toNat_ofParts (negative : Bool) (hM : M < Nat.pow 2 63) :
    (ofParts negative M).bits.toNat = (if negative then Nat.pow 2 63 else 0) + M := by
  have hpow : Nat.pow 2 63 = 9223372036854775808 := by decide
  have hlt : (if negative then Nat.pow 2 63 else 0) + M < 2 ^ 64 := by
    rw [hpow] at hM ⊢
    split <;> omega
  exact UInt64.toNat_ofNat_of_lt' hlt

theorem magnitude_ofParts (negative : Bool) (hM : M < Nat.pow 2 63) :
    (ofParts negative M).magnitude = M := by
  unfold magnitude
  rw [toNat_ofParts negative hM]
  cases negative with
  | true => rw [if_pos rfl, Nat.add_mod_left, Nat.mod_eq_of_lt hM]
  | false => rw [if_neg Bool.false_ne_true, Nat.zero_add, Nat.mod_eq_of_lt hM]

theorem ofParts_parts (x : Binary64) : ofParts x.negative x.magnitude = x := by
  have hpow : Nat.pow 2 63 = 9223372036854775808 := by decide
  have hbits := x.bits.toNat_lt
  have hsum : (if x.negative then Nat.pow 2 63 else 0) + x.magnitude = x.bits.toNat := by
    unfold negative magnitude
    rw [hpow]
    split_ifs with h <;> simp only [decide_eq_true_eq] at h <;> omega
  unfold ofParts
  rw [hsum, UInt64.ofNat_toNat]

end BrowserHost.Binary64

namespace BrowserHost.Toml

open Text

/-! ## digits -/

theorem hexValue?_of_digit? {c : Char} {d : ℕ} (h : digit? c = some d) : hexValue? c = some d := by
  unfold digit? at h
  split at h
  · next hc => simpa [hexValue?, hc] using h
  · cases h

theorem foldl_hexValue? {ds : List Char} {m n : ℕ} (h : digitsFrom m ds = some n) :
    ds.foldl (fun n d => 10 * n + (hexValue? d).getD 0) m = n := by
  induction ds generalizing m with
  | nil => exact Option.some.inj h
  | cons c ds ih =>
    unfold digitsFrom at h
    cases hc : digit? c with
    | none => simp [hc] at h
    | some d =>
      simp only [hc] at h
      simp only [List.foldl_cons, hexValue?_of_digit? hc, Option.getD_some, ih h]

theorem ofBase_eq {ds : List Char} {n : ℕ} (h : digitsFrom 0 ds = some n) : ofBase 10 ds = n :=
  foldl_hexValue? h

/-- The character ends a run of digits. -/
def EndsDigits (c : Char) : Prop :=
  digit? c = none ∧ c ≠ '_'

theorem moreDigits?_append {ds : List Char} (hds : AllDigits ds) {c : Char} (hc : EndsDigits c)
    (cs : List Char) : moreDigits? isDigit (ds ++ c :: cs) = some (ds, c :: cs) := by
  induction ds with
  | nil =>
    have hno : isDigit c = false := by simp [isDigit, hc.1]
    have hmark := hc.2
    rw [List.nil_append, moreDigits?.eq_def]
    split <;> simp_all
  | cons d ds ih =>
    have hd : isDigit d = true := hds d List.mem_cons_self
    have hmark : d ≠ '_' := ne_of_isSome_digit? hd rfl
    have hrest := ih fun e he => hds e (List.mem_cons_of_mem d he)
    rw [List.cons_append, moreDigits?.eq_def]
    split <;> simp_all [consResult]

theorem someDigits?_append {ds : List Char} (hne : ds ≠ []) (hds : AllDigits ds) {c : Char}
    (hc : EndsDigits c) (cs : List Char) :
    someDigits? isDigit (ds ++ c :: cs) = some (ds, c :: cs) := by
  obtain ⟨d, ds, rfl⟩ := List.exists_cons_of_ne_nil hne
  have hd : isDigit d = true := hds d List.mem_cons_self
  have hrest := moreDigits?_append (fun e he => hds e (List.mem_cons_of_mem d he)) hc cs
  simp [someDigits?, hd, hrest, consResult]

theorem wholePart?_toDigits (n : ℕ) {c : Char} (hc : EndsDigits c) (cs : List Char) :
    wholePart? (Nat.toDigits 10 n ++ c :: cs) = some (Nat.toDigits 10 n, c :: cs) := by
  obtain rfl | hn := Nat.eq_zero_or_pos n
  · rfl
  · have hread := someDigits?_append Nat.toDigits_ne_nil (allDigits_toDigits n) hc cs
    obtain ⟨d, ds, hds⟩ := List.exists_cons_of_ne_nil (Nat.toDigits_ne_nil (n := n) (b := 10))
    have hzero : d ≠ '0' := fun h => toDigits_ne_zero_cons hn ds (h ▸ hds)
    rw [hds] at hread ⊢
    rw [List.cons_append, wholePart?.eq_def]
    split
    · simp_all
    · exact hread

/-! ## no date and no time -/

theorem digitsFrom_eq_none {c : Char} (hc : digit? c = none) {ds : List Char} (h : c ∈ ds) (n : ℕ) :
    digitsFrom n ds = none := by
  induction ds generalizing n with
  | nil => cases h
  | cons d ds ih =>
    unfold digitsFrom
    cases hd : digit? d with
    | none => rfl
    | some r =>
      have hne : c ≠ d := by
        rintro rfl
        simp [hc] at hd
      exact ih (List.mem_of_ne_of_mem hne h) _

theorem mark?_of_ne {mark c : Char} (h : c ≠ mark) (cs : List Char) :
    mark? mark (c :: cs) = none := by
  simp [mark?, h]

/-- A date begins with four digits. -/
theorem date?_of_mem_take {c : Char} (hc : digit? c = none) {cs : List Char} (h : c ∈ cs.take 4) :
    date? cs = none := by
  unfold date?
  split
  · next a b d e cs =>
    have hyear : digitsFrom 0 [a, b, d, e] = none := digitsFrom_eq_none hc h 0
    simp [hyear]
  · rfl

/-- A date goes on with a hyphen. -/
theorem date?_of_mark? (a b c d : Char) {cs : List Char} (h : mark? '-' cs = none) :
    date? (a :: b :: c :: d :: cs) = none := by
  unfold date?
  cases digitsFrom 0 [a, b, c, d] <;> simp [h]

theorem twoDigits?_of_digit? {low high : ℕ} {a b : Char} {cs : List Char}
    (h : digit? a = none ∨ digit? b = none) : twoDigits? low high (a :: b :: cs) = none := by
  unfold twoDigits?
  obtain h | h := h
  · simp [h]
  · cases digit? a <;> simp [h]

theorem twoDigits?_rest {low high n : ℕ} {a b : Char} {cs rest : List Char}
    (h : twoDigits? low high (a :: b :: cs) = some (n, rest)) : rest = cs := by
  unfold twoDigits? at h
  cases ha : digit? a with
  | none => simp [ha] at h
  | some x =>
    cases hb : digit? b with
    | none => simp [ha, hb] at h
    | some y =>
      simp only [ha, hb, Option.bind_eq_bind, Option.bind_some] at h
      split at h
      · cases h
        rfl
      · cases h

/-- A time is an hour of two digits and a colon. -/
theorem time?_eq_none {a b : Char} {cs : List Char}
    (h : digit? a = none ∨ digit? b = none ∨ mark? ':' cs = none) :
    time? (a :: b :: cs) = none := by
  unfold time?
  obtain h | h | h := h
  · rw [twoDigits?_of_digit? (.inl h)]
    rfl
  · rw [twoDigits?_of_digit? (.inr h)]
    rfl
  · cases hhour : twoDigits? 0 23 (a :: b :: cs) with
    | none => rfl
    | some r =>
      obtain ⟨n, rest⟩ := r
      obtain rfl := twoDigits?_rest hhour
      simp [h]

theorem allDigits_nil : AllDigits [] := by
  simp [AllDigits]

/-- Digits that are followed by neither a hyphen nor a colon are no date and no
time. -/
theorem datetime?_digits {ds : List Char} (hds : AllDigits ds) {c : Char} (hc : digit? c = none)
    (hhyphen : c ≠ '-') (hcolon : c ≠ ':') (cs : List Char) :
    datetime? (ds ++ c :: cs) = none := by
  have hdate : date? (ds ++ c :: cs) = none := by
    match ds with
    | [] | [a] | [a, b] | [a, b, d] => exact date?_of_mem_take hc (by simp)
    | [a, b, d, e] => exact date?_of_mark? a b d e (mark?_of_ne hhyphen cs)
    | a :: b :: d :: e :: f :: ds =>
      have hf : f ≠ '-' := ne_of_isSome_digit? (hds f (by simp)) rfl
      exact date?_of_mark? a b d e (mark?_of_ne hf _)
  have htime : time? (ds ++ c :: cs) = none := by
    match ds with
    | [] =>
      cases cs with
      | nil => rfl
      | cons d cs => exact time?_eq_none (.inl hc)
    | [a] => exact time?_eq_none (.inr (.inl hc))
    | [a, b] => exact time?_eq_none (.inr (.inr (mark?_of_ne hcolon cs)))
    | a :: b :: d :: ds =>
      have hd : d ≠ ':' := ne_of_isSome_digit? (hds d (by simp)) rfl
      exact time?_eq_none (.inr (.inr (mark?_of_ne hd _)))
  simp [datetime?, hdate, htime]

theorem datetime?_hyphen (cs : List Char) : datetime? ('-' :: cs) = none := by
  have hdate : date? ('-' :: cs) = none := date?_of_mem_take (c := '-') rfl (by simp)
  have htime : time? ('-' :: cs) = none := by
    cases cs with
    | nil => rfl
    | cons c cs => exact time?_eq_none (.inl rfl)
  simp [datetime?, hdate, htime]

/-! ## integers -/

theorem sign_of_digit {d : Char} (hd : (digit? d).isSome) (cs : List Char) :
    sign (d :: cs) = (false, d :: cs) := by
  have hminus : d ≠ '-' := ne_of_isSome_digit? hd rfl
  have hplus : d ≠ '+' := ne_of_isSome_digit? hd rfl
  rw [sign.eq_def]
  split <;> simp_all

theorem namedFloat?_of_digit {d : Char} (hd : (digit? d).isSome) {negative : Bool}
    {cs ds : List Char} (h : sign cs = (negative, d :: ds)) : namedFloat? cs = none := by
  have hi : d ≠ 'i' := ne_of_isSome_digit? hd rfl
  have hn : d ≠ 'n' := ne_of_isSome_digit? hd rfl
  unfold namedFloat?
  rw [h]
  split <;> simp_all

/-- A number is written with a digit in front. -/
theorem exists_toDigits (n : ℕ) : ∃ d ds, Nat.toDigits 10 n = d :: ds ∧ (digit? d).isSome := by
  obtain ⟨d, ds, hds⟩ := List.exists_cons_of_ne_nil (Nat.toDigits_ne_nil (n := n) (b := 10))
  exact ⟨d, ds, hds, allDigits_toDigits n d (by rw [hds]; exact List.mem_cons_self)⟩

theorem integer?_toDigits {n : ℕ} (hn : integerInRange n) (cs : List Char) :
    integer? (Nat.toDigits 10 n ++ '\n' :: cs) = some (.integer n, '\n' :: cs) := by
  have hwhole := wholePart?_toDigits n (c := '\n') ⟨rfl, by decide⟩ cs
  have hbase := ofBase_eq (digitsFrom_toDigits n)
  have hall := allDigits_toDigits n
  obtain ⟨d, ds, hds, hd⟩ := exists_toDigits n
  rw [hds, List.cons_append] at hwhole
  rw [hds] at hbase hall
  have hsign := sign_of_digit hd (ds ++ '\n' :: cs)
  -- no mark of a base follows the first digit
  have hmark {c : Char} (hc : digit? c = none) (hline : c ≠ '\n') {rest : List Char} :
      d :: (ds ++ '\n' :: cs) ≠ '0' :: c :: rest := by
    intro h
    cases ds with
    | nil => simp [hline.symm] at h
    | cons e ds =>
      have he : e ≠ c := ne_of_isSome_digit? (hall e (by simp)) hc
      simp [he] at h
  have hvalue : integerOf? (n : ℤ) ('\n' :: cs) = some (.integer n, '\n' :: cs) := if_pos hn
  rw [hds, List.cons_append, integer?.eq_4 _ (fun _ => hmark rfl (by decide))
    (fun _ => hmark rfl (by decide)) (fun _ => hmark rfl (by decide)), hsign]
  simp only
  rw [hwhole, Option.bind_eq_bind, Option.bind_some, if_neg Bool.false_ne_true, hbase, hvalue]

/-- A whole number is read as an integer. -/
theorem number?_toDigits {n : ℕ} (hn : integerInRange n) (cs : List Char) :
    number? (Nat.toDigits 10 n ++ '\n' :: cs) = some (.integer n, '\n' :: cs) := by
  have hdate := datetime?_digits (allDigits_toDigits n) (c := '\n') rfl (by decide) (by decide) cs
  have hwhole := wholePart?_toDigits n (c := '\n') ⟨rfl, by decide⟩ cs
  have hinteger := integer?_toDigits hn cs
  obtain ⟨d, ds, hds, hd⟩ := exists_toDigits n
  rw [hds, List.cons_append] at hdate hwhole hinteger ⊢
  have hsign := sign_of_digit hd (ds ++ '\n' :: cs)
  have hnamed := namedFloat?_of_digit hd hsign
  have hfloat : float? (d :: (ds ++ '\n' :: cs)) = none := by
    simp [float?, hsign, hwhole, fraction?, exponent?]
  simp [number?, hdate, hnamed, hfloat, hinteger]

/-! ## floats -/

/-- A finite value is written as digits, a point and digits that are read as that
value. -/
theorem exists_floatText {M : ℕ} (hfinite : M < Binary64.infinity) :
    ∃ (a n : ℕ) (f : List Char),
      (Binary64.magnitudeText M ++ if Binary64.isWhole M then ".0" else "").toList =
          Nat.toDigits 10 a ++ '.' :: f ∧
        AllDigits f ∧ f ≠ [] ∧ digitsFrom 0 (Nat.toDigits 10 a ++ f) = some n ∧
        ∀ negative, Binary64.ofDecimal negative n (-f.length) = Binary64.ofParts negative M := by
  obtain rfl | hM := Nat.eq_zero_or_pos M
  · have hwhole : Binary64.isWhole 0 := (Binary64.isWhole_iff 0).2 ⟨0, by simp [Binary64.pair]⟩
    refine ⟨0, 0, ['0'], ?_, ?_, by simp, rfl, fun _ => rfl⟩
    · rw [if_pos hwhole]
      rfl
    · simp [AllDigits, digit?]
  · obtain ⟨a, n, f, htext, hf, hne, hn, hnear⟩ := Binary64.exists_digits hM hfinite
    exact ⟨a, n, f, htext, hf, hne, hn, fun negative => Binary64.ofDecimal_eq hM hfinite negative
      (List.length_pos_iff.2 hne) hnear⟩

/-- The one spelling of no number stands for all. -/
def canonical (x : Binary64) : Binary64 :=
  if x.isNaN then Binary64.nan else x

theorem sign_signed (negative : Bool) {d : Char} (hd : (digit? d).isSome) (cs : List Char) :
    sign ((if negative then ['-'] else []) ++ d :: cs) = (negative, d :: cs) := by
  cases negative with
  | true => rfl
  | false => exact sign_of_digit hd cs

theorem datetime?_float (negative : Bool) (a : ℕ) (cs : List Char) :
    datetime? ((if negative then ['-'] else []) ++ (Nat.toDigits 10 a ++ '.' :: cs)) = none := by
  cases negative with
  | true => exact datetime?_hyphen _
  | false => exact datetime?_digits (allDigits_toDigits a) rfl (by decide) (by decide) cs

/-- Digits, a point and digits are read as the float nearest to what they spell. -/
theorem number?_point (negative : Bool) (a : ℕ) {f : List Char} (hne : f ≠ []) (hf : AllDigits f)
    {n : ℕ} (hn : digitsFrom 0 (Nat.toDigits 10 a ++ f) = some n) (cs : List Char) :
    number? ((if negative then ['-'] else []) ++ (Nat.toDigits 10 a ++ '.' :: (f ++ '\n' :: cs))) =
      (floatOf? negative n (-f.length) ('\n' :: cs)).or
        (integer? ((if negative then ['-'] else []) ++
          (Nat.toDigits 10 a ++ '.' :: (f ++ '\n' :: cs)))) := by
  have hdate := datetime?_float negative a (f ++ '\n' :: cs)
  have hwhole := wholePart?_toDigits a (c := '.') ⟨rfl, by decide⟩ (f ++ '\n' :: cs)
  have hfraction := someDigits?_append hne hf (c := '\n') ⟨rfl, by decide⟩ cs
  have hbase := ofBase_eq hn
  obtain ⟨d, ds, hds, hd⟩ := exists_toDigits a
  rw [hds] at hbase
  rw [hds, List.cons_append] at hdate hwhole ⊢
  have hsign := sign_signed negative hd (ds ++ '.' :: (f ++ '\n' :: cs))
  have hnamed := namedFloat?_of_digit hd hsign
  have hfloat : float? ((if negative then ['-'] else []) ++
      d :: (ds ++ '.' :: (f ++ '\n' :: cs))) = floatOf? negative n (-f.length) ('\n' :: cs) := by
    rw [← hbase]
    simp [float?, hsign, hwhole, fraction?, hfraction, exponent?]
  rw [number?, hdate, hnamed, hfloat]
  rfl

theorem floatOf?_of_ofDecimal {negative : Bool} {n : ℕ} {e : ℤ} {M : ℕ}
    (hfinite : M < Binary64.infinity)
    (h : Binary64.ofDecimal negative n e = Binary64.ofParts negative M) (rest : List Char) :
    floatOf? negative n e rest = some (.float (.ofParts negative M), rest) := by
  have hlt : M < Nat.pow 2 63 := Nat.lt_trans hfinite (by decide)
  have hmagnitude := Binary64.magnitude_ofParts negative hlt
  have hfin : (Binary64.ofParts negative M).isInfinite = false := by
    rw [Binary64.isInfinite, hmagnitude]
    exact beq_false_of_ne hfinite.ne
  simp [floatOf?, h, hfin]

theorem number?_nan (cs : List Char) :
    number? ("nan".toList ++ '\n' :: cs) = some (.float .nan, '\n' :: cs) := by
  have hdate : datetime? ("nan".toList ++ '\n' :: cs) = none :=
    datetime?_digits allDigits_nil rfl (by decide) (by decide) _
  rw [number?, hdate]
  rfl

theorem number?_inf (negative : Bool) (cs : List Char) :
    number? ((if negative then ['-'] else []) ++ ("inf".toList ++ '\n' :: cs)) =
      some (.float (.ofParts negative Binary64.infinity), '\n' :: cs) := by
  have hdate : datetime? ((if negative then ['-'] else []) ++ ("inf".toList ++ '\n' :: cs)) =
      none := by
    cases negative with
    | true => exact datetime?_hyphen _
    | false => exact datetime?_digits allDigits_nil rfl (by decide) (by decide) _
  rw [number?, hdate]
  cases negative <;> rfl

theorem magnitude_lt_infinity {x : Binary64} (hnan : ¬x.isNaN) (hinfinite : ¬x.isInfinite) :
    x.magnitude < Binary64.infinity := by
  simp only [Binary64.isNaN, decide_eq_true_eq] at hnan
  simp only [Binary64.isInfinite, beq_iff_eq] at hinfinite
  omega

/-- Every float is read back, and no number as no number. -/
theorem number?_floatText (x : Binary64) (cs : List Char) :
    number? (floatText x ++ '\n' :: cs) = some (.float (canonical x), '\n' :: cs) := by
  have hparts := x.ofParts_parts
  have hsign : (if x.negative then "-" else "").toList = if x.negative then ['-'] else [] := by
    split <;> rfl
  unfold floatText canonical
  by_cases hnan : x.isNaN
  · rw [if_pos hnan, if_pos hnan]
    exact number?_nan cs
  rw [if_neg hnan, if_neg hnan]
  simp only
  by_cases hinfinite : x.isInfinite
  · have hmagnitude : x.magnitude = Binary64.infinity := by
      simpa [Binary64.isInfinite] using hinfinite
    rw [if_pos hinfinite, String.toList_append, hsign, List.append_assoc, number?_inf,
      ← hmagnitude, hparts]
  · have hfinite := magnitude_lt_infinity hnan hinfinite
    obtain ⟨a, n, f, htext, hf, hne, hn, hvalue⟩ := exists_floatText hfinite
    have hfloat := floatOf?_of_ofDecimal hfinite (hvalue x.negative) ('\n' :: cs)
    have hlong :
        (if x.negative then ['-'] else []) ++ (Nat.toDigits 10 a ++ '.' :: f) ++ '\n' :: cs =
          (if x.negative then ['-'] else []) ++ (Nat.toDigits 10 a ++ '.' :: (f ++ '\n' :: cs)) := by
      simp
    rw [if_neg hinfinite, String.append_assoc, String.toList_append, hsign, htext, hlong,
      number?_point x.negative a hne hf hn, hfloat, hparts]
    rfl

end BrowserHost.Toml
