import BrowserHost.Text.Blank
import BrowserHost.Text.Decimal
import Mathlib.Data.List.TakeWhile

/-!
# BrowserHost.Proofs.Numeral

Which texts are read as a number.

* `unsigned?_eq_some_iff`: just those of an optional plus sign and one or more
  digits that spell a number up to the limit;
* `unsigned?_trim_eq_some_iff`: if the text is trimmed first, just those that have
  blanks around such a text.
-/

namespace BrowserHost.Text

/-! ## digits -/

theorem digit?_eq (c : Char) :
    digit? c = if c.isDigit then some (c.toNat - '0'.toNat) else none := by
  have hdigit : c.isDigit ↔ '0' ≤ c ∧ c ≤ '9' := by
    rw [Char.isDigit, Bool.and_eq_true, decide_eq_true_eq, decide_eq_true_eq]
    rfl
  simp only [digit?, hdigit]

/-- Digits are read from left to right, and nothing else is. -/
theorem digitsFrom_eq (n : ℕ) (cs : List Char) :
    digitsFrom n cs = if cs.all Char.isDigit then some (Nat.ofDigitChars 10 cs n) else none := by
  induction cs generalizing n with
  | nil => simp [digitsFrom]
  | cons c cs ih =>
    rw [digitsFrom, digit?_eq]
    by_cases hc : c.isDigit
    · simp [hc, ih, Nat.ofDigitChars_cons]
    · simp [hc]

/-! ## numerals -/

/-- The text is one or more digits, which spell `n`. -/
structure IsDigits (n : ℕ) (ds : List Char) : Prop where
  ne_nil : ds ≠ []
  isDigit : ∀ c ∈ ds, c.isDigit
  value : Nat.ofDigitChars 10 ds 0 = n

/-- The text is an optional plus sign and one or more digits, which spell `n`. -/
def IsNumeral (n : ℕ) (cs : List Char) : Prop :=
  ∃ ds, IsDigits n ds ∧ (cs = ds ∨ cs = '+' :: ds)

theorem digits?_eq_some_iff {n : ℕ} {cs : List Char} : digits? cs = some n ↔ IsDigits n cs := by
  rw [digits?, digitsFrom_eq]
  constructor
  · intro h
    simp only [List.isEmpty_iff, Option.ite_none_left_eq_some, Option.ite_none_right_eq_some,
      Option.some.injEq, List.all_eq_true] at h
    exact ⟨h.1, h.2.1, h.2.2⟩
  · intro h
    rw [if_neg (by simpa using h.ne_nil), if_pos (List.all_eq_true.2 h.isDigit), h.value]

/-- A sign in front is dropped, and digits have none. -/
theorem isNumeral_iff {n : ℕ} {cs : List Char} : IsNumeral n cs ↔ IsDigits n (dropPlus cs) := by
  constructor
  · rintro ⟨ds, hds, rfl | rfl⟩
    · have hplain : dropPlus cs = cs := by
        unfold dropPlus
        split
        · next rest => exact absurd (hds.isDigit '+' List.mem_cons_self) (by decide)
        · rfl
      rwa [hplain]
    · exact hds
  · intro h
    unfold dropPlus at h
    split at h
    · exact ⟨_, h, .inr rfl⟩
    · exact ⟨_, h, .inl rfl⟩

/-- A number up to a limit is read from its numerals, and from nothing else. -/
theorem unsigned?_eq_some_iff {limit n : ℕ} {cs : List Char} :
    unsigned? limit cs = some n ↔ IsNumeral n cs ∧ n ≤ limit := by
  rw [isNumeral_iff, ← digits?_eq_some_iff, unsigned?]
  cases digits? (dropPlus cs) with
  | none => simp
  | some m =>
    simp only [Option.ite_none_right_eq_some, Option.some.injEq]
    exact ⟨fun ⟨hle, heq⟩ => ⟨heq, heq ▸ hle⟩, fun ⟨heq, hle⟩ => ⟨heq ▸ hle, heq⟩⟩

theorem IsNumeral.not_isBlank {n : ℕ} {cs : List Char} (h : IsNumeral n cs) :
    ∀ c ∈ cs, isBlank c = false := by
  have hdigit (c : Char) (hc : c.isDigit) : isBlank c = false := by
    rw [Char.isDigit, Bool.and_eq_true, decide_eq_true_eq, decide_eq_true_eq] at hc
    have hlow : 48 ≤ c.toNat := hc.1
    have hhigh : c.toNat ≤ 57 := hc.2
    simp only [isBlank]
    grind
  obtain ⟨ds, hds, rfl | rfl⟩ := h
  · exact fun c hc => hdigit c (hds.isDigit c hc)
  · intro c hc
    rcases List.mem_cons.1 hc with rfl | hc
    · rfl
    · exact hdigit c (hds.isDigit c hc)

/-! ## blanks around -/

/-- The text is `core` with blanks on either side, or on none. -/
def IsPadded (core cs : List Char) : Prop :=
  ∃ before after, cs = before ++ core ++ after ∧
    (∀ c ∈ before, isBlank c) ∧ ∀ c ∈ after, isBlank c

theorem exists_trimLeft (cs : List Char) :
    ∃ before, cs = before ++ trimLeft cs ∧ ∀ c ∈ before, isBlank c :=
  ⟨cs.takeWhile isBlank, List.takeWhile_append_dropWhile.symm, fun _ hc =>
    List.mem_takeWhile_imp hc⟩

theorem trimLeft_of_blanks {before : List Char} (h : ∀ c ∈ before, isBlank c) (cs : List Char) :
    trimLeft (before ++ cs) = trimLeft cs :=
  List.dropWhile_append_of_pos h

theorem trimLeft_of_not_isBlank {cs : List Char} (h : ∀ c ∈ cs, isBlank c = false) :
    trimLeft cs = cs := by
  cases cs with
  | nil => rfl
  | cons c cs => exact List.dropWhile_cons_of_neg (by simp [h c List.mem_cons_self])

theorem isPadded_trim (cs : List Char) : IsPadded (trim cs) cs := by
  obtain ⟨before, hbefore, hblank⟩ := exists_trimLeft cs
  obtain ⟨after, hafter, hblank'⟩ := exists_trimLeft (trimLeft cs).reverse
  refine ⟨before, after.reverse, ?_, hblank, fun c hc => hblank' c (List.mem_reverse.1 hc)⟩
  have hright : trimLeft cs = trim cs ++ after.reverse := by
    rw [trim, ← List.reverse_append, ← hafter, List.reverse_reverse]
  rw [List.append_assoc, ← hright, ← hbefore]

/-- Trimming leaves what stands between the blanks, if there are none in it. -/
theorem trim_of_isPadded {core cs : List Char} (h : IsPadded core cs)
    (hcore : ∀ c ∈ core, isBlank c = false) : trim cs = core := by
  obtain ⟨before, after, rfl, hbefore, hafter⟩ := h
  have hafter' : ∀ c ∈ after.reverse, isBlank c := fun c hc => hafter c (List.mem_reverse.1 hc)
  have hcore' : ∀ c ∈ core.reverse, isBlank c = false := fun c hc => hcore c (List.mem_reverse.1 hc)
  have hleft : trimLeft (before ++ core ++ after) = trimLeft (core ++ after) := by
    rw [List.append_assoc, trimLeft_of_blanks hbefore]
  rw [trim, hleft]
  cases core with
  | nil =>
    rw [List.nil_append, trimLeft_eq_nil_iff.2 hafter]
    rfl
  | cons c core =>
    have hhead : trimLeft (c :: core ++ after) = c :: core ++ after :=
      List.dropWhile_cons_of_neg (by simp [hcore c List.mem_cons_self])
    rw [hhead, List.reverse_append, trimLeft_of_blanks hafter', trimLeft_of_not_isBlank hcore',
      List.reverse_reverse]

/-- A number up to a limit is read from a text that is trimmed just if that text is
a numeral of it with blanks around. -/
theorem unsigned?_trim_eq_some_iff {limit n : ℕ} {cs : List Char} :
    unsigned? limit (trim cs) = some n ↔ ∃ core, IsPadded core cs ∧ IsNumeral n core ∧ n ≤ limit := by
  rw [unsigned?_eq_some_iff]
  constructor
  · rintro ⟨hnumeral, hle⟩
    exact ⟨_, isPadded_trim cs, hnumeral, hle⟩
  · rintro ⟨core, hpadded, hnumeral, hle⟩
    rw [trim_of_isPadded hpadded hnumeral.not_isBlank]
    exact ⟨hnumeral, hle⟩

end BrowserHost.Text
