import BrowserHost.Text.Blank
import Mathlib.Tactic.Common

/-!
# BrowserHost.Proofs.Spacing

Which texts have the given tokens.  A token is a word with no blank in it; blanks may
stand around the words, and have to stand between them.

* `tokens_eq_iff`: the tokens of a text are the only words that it can be spaced from;
* `isSpaced_intercalate`: words with one and the same gap between them.
-/

namespace BrowserHost.Text

/-! ## words and gaps -/

/-- The text is all blanks, or none. -/
def IsGap (cs : List Char) : Prop :=
  ∀ c ∈ cs, isBlank c

/-- The text is one or more characters, none of them blank. -/
def IsWord (cs : List Char) : Prop :=
  cs ≠ [] ∧ ∀ c ∈ cs, isBlank c = false

instance (cs : List Char) : Decidable (IsGap cs) :=
  decidable_of_iff (cs.all isBlank) List.all_eq_true

instance (cs : List Char) : Decidable (IsWord cs) :=
  decidable_of_iff (cs ≠ [] ∧ cs.all (!isBlank ·)) (by simp [IsWord])

/-- The text consists of the words, in order, with blanks around them and at least one
between two of them. -/
inductive IsSpaced : List (List Char) → List Char → Prop
  | gap {gap : List Char} (hgap : IsGap gap) : IsSpaced [] gap
  | word {gap word rest : List Char} {words : List (List Char)} (hgap : IsGap gap)
      (hword : IsWord word) (hparted : ∀ c ∈ rest.head?, isBlank c) (h : IsSpaced words rest) :
      IsSpaced (word :: words) (gap ++ word ++ rest)

theorem isGap_nil : IsGap [] := by
  simp [IsGap]

theorem isGap_append {cs ds : List Char} : IsGap (cs ++ ds) ↔ IsGap cs ∧ IsGap ds :=
  List.forall_mem_append

theorem IsGap.head? {gap : List Char} (hgap : IsGap gap) : ∀ c ∈ gap.head?, isBlank c :=
  fun c hc => hgap c (List.mem_of_mem_head? hc)

namespace IsSpaced

variable {words : List (List Char)} {cs : List Char}

/-- Blanks in front change nothing. -/
theorem prepend {before : List Char} (hbefore : IsGap before) (h : IsSpaced words cs) :
    IsSpaced words (before ++ cs) := by
  cases h with
  | gap hgap => exact .gap (isGap_append.2 ⟨hbefore, hgap⟩)
  | word hgap hword hparted h =>
    rw [← List.append_assoc, ← List.append_assoc]
    exact .word (isGap_append.2 ⟨hbefore, hgap⟩) hword hparted h

/-- A text may begin with a word. -/
theorem cons {word rest : List Char} (hword : IsWord word) (hparted : ∀ c ∈ rest.head?, isBlank c)
    (h : IsSpaced words rest) : IsSpaced (word :: words) (word ++ rest) :=
  @IsSpaced.word [] word rest words isGap_nil hword hparted h

/-- Nor do blanks at the end. -/
theorem append {after : List Char} (hafter : IsGap after) (h : IsSpaced words cs) :
    IsSpaced words (cs ++ after) := by
  induction h with
  | gap hgap => exact .gap (isGap_append.2 ⟨hgap, hafter⟩)
  | @word gap word rest words hgap hword hparted _ ih =>
    have hhead : ∀ c ∈ (rest ++ after).head?, isBlank c := by
      cases rest with
      | nil => exact hafter.head?
      | cons c rest => exact hparted
    rw [List.append_assoc]
    exact .word hgap hword hhead ih

theorem isWord (h : IsSpaced words cs) : ∀ w ∈ words, IsWord w := by
  induction h with
  | gap => simp
  | word _ hword _ _ ih => exact List.forall_mem_cons.2 ⟨hword, ih⟩

end IsSpaced

/-! ## tokens -/

theorem tokens_gap_append {gap : List Char} (hgap : IsGap gap) (cs : List Char) :
    tokens (gap ++ cs) = tokens cs := by
  induction gap with
  | nil => rfl
  | cons c gap ih =>
    obtain ⟨hc, hgap⟩ := List.forall_mem_cons.1 hgap
    simpa [tokens, tokensAfter, hc] using ih hgap

/-- The characters of a word are gathered. -/
theorem tokensAfter_append {word : List Char} (hword : ∀ c ∈ word, isBlank c = false)
    (read cs : List Char) :
    tokensAfter read (word ++ cs) = tokensAfter (word.reverse ++ read) cs := by
  induction word generalizing read with
  | nil => rfl
  | cons c word ih =>
    obtain ⟨hc, hword⟩ := List.forall_mem_cons.1 hword
    rw [List.cons_append, tokensAfter, if_neg (by simp [hc]), ih hword, List.reverse_cons,
      List.append_assoc, List.singleton_append]

theorem tokens_word_append {word cs : List Char} (hword : IsWord word)
    (hparted : ∀ c ∈ cs.head?, isBlank c) : tokens (word ++ cs) = word :: tokens cs := by
  rw [tokens, tokensAfter_append hword.2, List.append_nil]
  cases cs with
  | nil => simp [tokens, tokensAfter, hword.1]
  | cons c cs =>
    have hc : isBlank c := hparted c rfl
    simp [tokens, tokensAfter, hc, hword.1]

theorem IsSpaced.tokens_eq {words : List (List Char)} {cs : List Char} (h : IsSpaced words cs) :
    tokens cs = words := by
  induction h with
  | gap hgap => exact tokens_eq_nil_iff.2 hgap
  | word hgap hword hparted _ ih =>
    rw [List.append_assoc, tokens_gap_append hgap, tokens_word_append hword hparted, ih]

theorem isWord_reverse {read : List Char} (hne : ¬read.isEmpty)
    (hread : ∀ c ∈ read, isBlank c = false) : IsWord read.reverse :=
  ⟨by simpa using hne, fun c hc => hread c (List.mem_reverse.1 hc)⟩

/-- The tokens of a text of which the beginning of a word has been read. -/
theorem isSpaced_tokensAfter {read : List Char} (hread : ∀ c ∈ read, isBlank c = false)
    (cs : List Char) : IsSpaced (tokensAfter read cs) (read.reverse ++ cs) := by
  induction cs generalizing read with
  | nil =>
    unfold tokensAfter
    split
    · next hempty =>
      obtain rfl := List.isEmpty_iff.1 hempty
      exact .gap isGap_nil
    · next hne => exact .cons (isWord_reverse hne hread) (by simp) (.gap isGap_nil)
  | cons c cs ih =>
    have hrest : IsSpaced (tokensAfter [] cs) cs := ih (by simp)
    unfold tokensAfter
    by_cases hc : isBlank c
    · have hblank : IsSpaced (tokensAfter [] cs) ([c] ++ cs) :=
        hrest.prepend (by simpa [IsGap] using hc)
      rw [if_pos hc]
      split
      · next hempty =>
        obtain rfl := List.isEmpty_iff.1 hempty
        exact hblank
      · next hne => exact .cons (isWord_reverse hne hread) (by simpa using hc) hblank
    · have hall : ∀ d ∈ c :: read, isBlank d = false :=
        List.forall_mem_cons.2 ⟨by simpa using hc, hread⟩
      rw [if_neg hc]
      simpa using ih hall

/-- The tokens of a text are the only words that it can be spaced from. -/
theorem tokens_eq_iff {cs : List Char} {words : List (List Char)} :
    tokens cs = words ↔ IsSpaced words cs := by
  constructor
  · rintro rfl
    exact @isSpaced_tokensAfter [] (by simp) cs
  · exact IsSpaced.tokens_eq

theorem tokens_append_gap (cs : List Char) {gap : List Char} (hgap : IsGap gap) :
    tokens (cs ++ gap) = tokens cs :=
  tokens_eq_iff.2 ((tokens_eq_iff.1 rfl).append hgap)

/-! ## words written -/

/-- Words with the same gap between any two of them, and a gap on either side. -/
theorem isSpaced_intercalate {words : List (List Char)} (hwords : ∀ w ∈ words, IsWord w)
    {before gap after : List Char} (hbefore : IsGap before) (hgap : IsGap gap) (hne : gap ≠ [])
    (hafter : IsGap after) : IsSpaced words (before ++ gap.intercalate words ++ after) := by
  rw [List.append_assoc]
  refine IsSpaced.prepend hbefore ?_
  induction words with
  | nil => exact .gap hafter
  | cons w words ih =>
    obtain ⟨hw, hwords⟩ := List.forall_mem_cons.1 hwords
    cases words with
    | nil =>
      rw [List.intercalate_singleton]
      exact .cons hw hafter.head? (.gap hafter)
    | cons v words =>
      have hhead : ∀ c ∈ (gap ++ (gap.intercalate (v :: words) ++ after)).head?, isBlank c := by
        obtain ⟨g, gs, rfl⟩ := List.exists_cons_of_ne_nil hne
        simpa using hgap g List.mem_cons_self
      rw [List.intercalate_cons_cons, List.append_assoc, List.append_assoc]
      exact .cons hw hhead ((ih hwords).prepend hgap)

end BrowserHost.Text
