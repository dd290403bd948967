import BrowserHost.Toml.Written
import Mathlib.Data.List.TakeDrop
import Mathlib.Tactic.Common

/-!
# BrowserHost.Proofs.Quotation

Strings of TOML, written in the form that fits and read again.  The form is
chosen by what the string holds, so each form is read back under what its choice
says about the string; together they cover all strings.

* `basic?_escape`, `literal?_append`: strings of one line;
* `multiBasic?_escapeLines`: between tripled quotes up to two quotes in a row stand
  for themselves, at the end as well;
* `string?_stringText`: every string is read back, whatever follows it but another
  quote.
-/

namespace BrowserHost.Toml

/-! ## what follows a string -/

/-- The text does not go on with a quote. -/
def NoQuote (rest : List Char) : Prop :=
  rest.head? ≠ some '\x22' ∧ rest.head? ≠ some '\''

/-! ## characters -/

theorem ofHex?_hex4 {n : Nat} (h : n < 0x80) : ofHex? (hex4 n) = some (Char.ofNat n) := by
  have hall : ∀ n < 0x80, ofHex? (hex4 n) = some (Char.ofNat n) := by decide
  exact hall n h

/-- Reading four digits of a code. -/
theorem hex4_eq (n : Nat) : ∃ a b c d, hex4 n = [a, b, c, d] :=
  ⟨_, _, _, _, rfl⟩

/-! ## one line, between double quotes -/

theorem basic?_code {n : Nat} (h : n < 0x80) (cs : List Char) :
    basic? ('\\' :: 'u' :: hex4 n ++ cs) = consResult (Char.ofNat n) (basic? cs) := by
  have hread := ofHex?_hex4 h
  obtain ⟨a, b, c, d, habcd⟩ := hex4_eq n
  rw [habcd] at hread ⊢
  simp [basic?, hread]

theorem basic?_short {e c : Char} (h : shortEscape? e = some c) (cs : List Char) :
    basic? ('\\' :: e :: cs) = consResult c (basic? cs) := by
  have hu : e ≠ 'u' ∧ e ≠ 'U' := by
    constructor <;> rintro rfl <;> cases h
  simp [basic?, h, hu]

theorem basic?_char {c : Char} (h : isPrintable c) (hq : c ≠ '\x22') (hs : c ≠ '\\')
    (cs : List Char) : basic? (c :: cs) = consResult c (basic? cs) := by
  simp [basic?, h, hs]

/-- A character is escaped by a letter, by its code, or not at all. -/
theorem escape_cases (c : Char) :
    (∃ e, escape c = ['\\', e] ∧ shortEscape? e = some c) ∨
      (c.toNat < 0x80 ∧ escape c = '\\' :: 'u' :: hex4 c.toNat) ∨
      (escape c = [c] ∧ isPrintable c ∧ c ≠ '\x22' ∧ c ≠ '\\') := by
  unfold escape
  split_ifs with hb ht hn hf hr hquote hslash hcontrol
  · exact .inl ⟨'b', rfl, hb ▸ rfl⟩
  · exact .inl ⟨'t', rfl, ht ▸ rfl⟩
  · exact .inl ⟨'n', rfl, hn ▸ rfl⟩
  · exact .inl ⟨'f', rfl, hf ▸ rfl⟩
  · exact .inl ⟨'r', rfl, hr ▸ rfl⟩
  · subst hquote
    exact .inl ⟨'\x22', rfl, rfl⟩
  · subst hslash
    exact .inl ⟨'\\', rfl, rfl⟩
  · exact .inr (.inl ⟨by omega, rfl⟩)
  · refine .inr (.inr ⟨rfl, ?_, hquote, hslash⟩)
    simp only [isPrintable]
    simp
    omega

theorem basic?_escape (c : Char) (cs : List Char) :
    basic? (escape c ++ cs) = consResult c (basic? cs) := by
  obtain ⟨e, he, hread⟩ | ⟨hlow, he⟩ | ⟨he, hprint, hquote, hslash⟩ := escape_cases c
  · rw [he]
    exact basic?_short hread cs
  · rw [he, basic?_code hlow, Char.ofNat_toNat]
  · rw [he]
    exact basic?_char hprint hquote hslash cs

theorem basic?_flatMap_escape (s rest : List Char) :
    basic? (s.flatMap escape ++ '\x22' :: rest) = some (s, rest) := by
  induction s with
  | nil => rfl
  | cons c s ih =>
    rw [List.flatMap_cons, List.append_assoc, basic?_escape, ih]
    rfl

/-! ## one line, between single quotes -/

theorem literal?_append {s : List Char} (hs : ∀ c ∈ s, isPrintable c ∧ c ≠ '\'')
    (rest : List Char) : literal? (s ++ '\'' :: rest) = some (s, rest) := by
  induction s with
  | nil => rfl
  | cons c s ih =>
    obtain ⟨hprint, hquote⟩ := hs c List.mem_cons_self
    have hrest := ih fun d hd => hs d (List.mem_cons_of_mem c hd)
    rw [List.cons_append, literal?.eq_def]
    split
    · simp_all
    · simp_all [consResult]
    · simp_all

/-! ## several lines, between double quotes -/

theorem not_endsLine {c : Char} (h : isWs c = false) (hn : c ≠ '\n') (hr : c ≠ '\r')
    (cs : List Char) : endsLine (c :: cs) = false := by
  unfold endsLine skipWs
  rw [List.dropWhile_cons_of_neg (by simp [h])]
  unfold newline?
  split <;> simp_all

theorem multiBasic?_code {n : Nat} (h : n < 0x80) (cs : List Char) :
    multiBasic? false ('\\' :: 'u' :: hex4 n ++ cs) =
      consResult (Char.ofNat n) (multiBasic? false cs) := by
  have hread := ofHex?_hex4 h
  obtain ⟨a, b, c, d, habcd⟩ := hex4_eq n
  rw [habcd] at hread ⊢
  simp [multiBasic?, hread]

theorem multiBasic?_short {e c : Char} (h : shortEscape? e = some c) (cs : List Char) :
    multiBasic? false ('\\' :: e :: cs) = consResult c (multiBasic? false cs) := by
  have hu : e ≠ 'u' ∧ e ≠ 'U' := by
    constructor <;> rintro rfl <;> cases h
  have hline : endsLine (e :: cs) = false := by
    refine not_endsLine ?_ ?_ ?_ cs
    · by_contra hws
      simp only [isWs, Bool.not_eq_false, Bool.or_eq_true, beq_iff_eq] at hws
      obtain rfl | rfl := hws <;> cases h
    · rintro rfl
      cases h
    · rintro rfl
      cases h
  simp [multiBasic?, h, hu, hline]

/-- A character stands for itself, unless it is the first of three quotes. -/
theorem multiBasic?_char {c : Char} (h : isPrintable c ∨ c = '\n') (hs : c ≠ '\\')
    {cs : List Char} (hq : c = '\x22' → ¬['\x22', '\x22'] <+: cs) :
    multiBasic? false (c :: cs) = consResult c (multiBasic? false cs) := by
  have hr : c ≠ '\r' := by
    rintro rfl
    simp [isPrintable] at h
  rw [multiBasic?.eq_def]
  split <;> simp_all
  obtain hprint | rfl := h
  · simp [hprint]
  · simp

/-- The closing quotes, and up to two more before them. -/
theorem multiBasic?_close {k : Nat} (hk : k ≤ 2) {rest : List Char}
    (hrest : rest.head? ≠ some '\x22') :
    multiBasic? false (List.replicate k '\x22' ++ '\x22' :: '\x22' :: '\x22' :: rest) =
      some (List.replicate k '\x22', rest) := by
  obtain rfl | rfl | rfl : k = 0 ∨ k = 1 ∨ k = 2 := by omega
  all_goals
    rw [multiBasic?.eq_def]
    cases rest <;> simp_all

/-- A character that is escaped does not begin with a quote. -/
theorem head?_escape (c : Char) (cs : List Char) : (escape c ++ cs).head? ≠ some '\x22' := by
  obtain ⟨e, he, -⟩ | ⟨-, he⟩ | ⟨he, -, hquote, -⟩ := escape_cases c <;> simp [he]
  exact hquote

theorem multiBasic?_escape {c : Char} (cs : List Char) :
    multiBasic? false (escape c ++ cs) = consResult c (multiBasic? false cs) := by
  obtain ⟨e, he, hread⟩ | ⟨hlow, he⟩ | ⟨he, hprint, hquote, hslash⟩ := escape_cases c
  · rw [he]
    exact multiBasic?_short hread cs
  · rw [he, multiBasic?_code hlow, Char.ofNat_toNat]
  · rw [he]
    exact multiBasic?_char (.inl hprint) hslash fun h => absurd h hquote

theorem escapeLines_quote {run : Nat} (hrun : run < 2) (cs : List Char) :
    escapeLines run ('\x22' :: cs) = '\x22' :: escapeLines (run + 1) cs := by
  simp [escapeLines, hrun]

/-- What begins with a quote is one of the first two in a row. -/
theorem of_head?_escapeLines {run : Nat} {c : Char} {cs rest : List Char}
    (h : (escapeLines run (c :: cs) ++ rest).head? = some '\x22') : c = '\x22' ∧ run < 2 := by
  unfold escapeLines at h
  split_ifs at h with hn hquote
  · simp at h
  · exact hquote
  · rw [List.append_assoc] at h
    exact absurd h (head?_escape c _)

/-- After a quote, two more in a row are closing quotes, but for at most one. -/
theorem eq_of_escapeLines_quotes {run : Nat} {cs rest : List Char}
    (h : ['\x22', '\x22'] <+: escapeLines (run + 1) cs ++ rest) :
    cs = [] ∨ run = 0 ∧ cs = ['\x22'] := by
  have hhead {l : List Char} (hl : ['\x22'] <+: l) : l.head? = some '\x22' := by
    obtain ⟨more, rfl⟩ := hl
    rfl
  cases cs with
  | nil => exact .inl rfl
  | cons c cs =>
    obtain ⟨rfl, hrun⟩ := of_head?_escapeLines
      (hhead (((List.prefix_append ['\x22'] ['\x22'])).trans h))
    obtain rfl : run = 0 := by omega
    rw [escapeLines_quote hrun, List.cons_append, List.cons_prefix_cons] at h
    cases cs with
    | nil => exact .inr ⟨rfl, rfl⟩
    | cons d ds =>
      have hsecond := (of_head?_escapeLines (hhead h.2)).2
      omega

theorem multiBasic?_escapeLines {run : Nat} (hrun : run ≤ 2) (cs : List Char) {rest : List Char}
    (hrest : rest.head? ≠ some '\x22') :
    multiBasic? false (escapeLines run cs ++ '\x22' :: '\x22' :: '\x22' :: rest) =
      some (cs, rest) := by
  induction cs generalizing run with
  | nil => exact multiBasic?_close (k := 0) (by decide) hrest
  | cons c cs ih =>
    unfold escapeLines
    split_ifs with hn hquote
    · subst hn
      rw [List.cons_append, multiBasic?_char (.inr rfl) (by decide) (by simp), ih (by decide)]
      rfl
    · obtain ⟨rfl, hlt⟩ := hquote
      by_cases htwo : ['\x22', '\x22'] <+:
          escapeLines (run + 1) cs ++ '\x22' :: '\x22' :: '\x22' :: rest
      · obtain rfl | ⟨rfl, rfl⟩ := eq_of_escapeLines_quotes htwo
        · exact multiBasic?_close (k := 1) (by decide) hrest
        · exact multiBasic?_close (k := 2) (by decide) hrest
      · rw [List.cons_append, multiBasic?_char (.inl rfl) (by decide) fun _ => htwo,
          ih (by omega)]
        rfl
    · rw [List.append_assoc, multiBasic?_escape, ih (by decide)]
      rfl

/-! ## several lines, between single quotes -/

/-- A character stands for itself, unless it is the first of three quotes. -/
theorem multiLiteral?_char {c : Char} (h : isPrintable c ∨ c = '\n') {cs : List Char}
    (hq : c = '\'' → ¬['\'', '\''] <+: cs) :
    multiLiteral? (c :: cs) = consResult c (multiLiteral? cs) := by
  have hr : c ≠ '\r' := by
    rintro rfl
    simp [isPrintable] at h
  rw [multiLiteral?.eq_def]
  split <;> simp_all
  obtain hprint | rfl := h
  · simp [hprint]
  · simp

/-- The closing quotes, and up to two more before them. -/
theorem multiLiteral?_close {k : Nat} (hk : k ≤ 2) {rest : List Char}
    (hrest : rest.head? ≠ some '\'') :
    multiLiteral? (List.replicate k '\'' ++ '\'' :: '\'' :: '\'' :: rest) =
      some (List.replicate k '\'', rest) := by
  obtain rfl | rfl | rfl : k = 0 ∨ k = 1 ∨ k = 2 := by omega
  all_goals
    rw [multiLiteral?.eq_def]
    cases rest <;> simp_all

theorem multiLiteral?_append {s : List Char} (hs : ∀ c ∈ s, isPrintable c ∨ c = '\n')
    (hruns : ¬List.replicate 3 '\'' <:+: s) {rest : List Char} (hrest : rest.head? ≠ some '\'') :
    multiLiteral? (s ++ '\'' :: '\'' :: '\'' :: rest) = some (s, rest) := by
  induction s with
  | nil => exact multiLiteral?_close (k := 0) (by decide) hrest
  | cons c s ih =>
    have hnext := ih (fun d hd => hs d (List.mem_cons_of_mem c hd))
      fun h => hruns (h.trans (List.suffix_cons c s).isInfix)
    by_cases hquotes : c = '\'' ∧ ['\'', '\''] <+: s ++ '\'' :: '\'' :: '\'' :: rest
    · obtain ⟨rfl, htwo⟩ := hquotes
      match s with
      | [] => exact multiLiteral?_close (k := 1) (by decide) hrest
      | [d] =>
        obtain rfl : '\'' = d := (List.cons_prefix_cons.1 htwo).1
        exact multiLiteral?_close (k := 2) (by decide) hrest
      | d :: e :: ds =>
        obtain ⟨rfl, hsecond⟩ := List.cons_prefix_cons.1 htwo
        obtain ⟨rfl, -⟩ := List.cons_prefix_cons.1 hsecond
        exact absurd (List.prefix_append (List.replicate 3 '\'') ds).isInfix hruns
    · rw [List.cons_append, multiLiteral?_char (hs c List.mem_cons_self)
        fun hc htwo => hquotes ⟨hc, htwo⟩, hnext]
      rfl

/-! ## forms -/

theorem le_longestRun (c : Char) (k : Nat) (cs : List Char) : k ≤ longestRun c k cs := by
  induction cs generalizing k with
  | nil => exact Nat.le_refl k
  | cons d ds ih =>
    unfold longestRun
    split
    · exact Nat.le_of_succ_le (ih (k + 1))
    · exact Nat.le_max_left _ _

theorem longestRun_replicate (c : Char) (k n : Nat) (cs : List Char) :
    longestRun c k (List.replicate n c ++ cs) = longestRun c (k + n) cs := by
  induction n generalizing k with
  | zero => rfl
  | succ n ih =>
    rw [List.replicate_succ, List.cons_append, longestRun, if_pos rfl, ih, Nat.add_right_comm]
    rfl

/-- No run is longer than the longest. -/
theorem le_longestRun_of_replicate {c : Char} {n : Nat} {cs : List Char}
    (h : List.replicate n c <:+: cs) (k : Nat) : n ≤ longestRun c k cs := by
  obtain ⟨before, after, rfl⟩ := h
  induction before generalizing k with
  | nil =>
    have hrun := le_longestRun c (k + n) after
    rw [List.nil_append, longestRun_replicate]
    omega
  | cons d ds ih =>
    simp only [List.cons_append, longestRun]
    split
    · exact ih (k + 1)
    · exact Nat.le_trans (ih 0) (Nat.le_max_right _ _)

theorem not_mem_of_longestRun {c : Char} {cs : List Char} (h : longestRun c 0 cs = 0) :
    c ∉ cs := by
  intro hc
  obtain ⟨before, after, rfl⟩ := List.append_of_mem hc
  have hrun : List.replicate 1 c <:+: before ++ c :: after := ⟨before, after, by simp⟩
  have hone := le_longestRun_of_replicate hrun 0
  omega

theorem dropNewline_of_head {cs : List Char} (hn : cs.head? ≠ some '\n')
    (hr : cs.head? ≠ some '\r') : dropNewline cs = cs := by
  unfold dropNewline newline?
  split <;> simp_all

/-- The line feed before a string of several lines is not part of it. -/
theorem dropNewline_opening {cs body : List Char} (hn : body.head? = some '\n' → '\n' ∈ cs)
    (hr : body.head? ≠ some '\r') : dropNewline (opening cs ++ body) = body := by
  unfold opening
  by_cases hcs : '\n' ∈ cs
  · rw [if_pos (by simpa using hcs)]
    rfl
  · rw [if_neg (by simpa using hcs), List.nil_append]
    exact dropNewline_of_head (fun h => hcs (hn h)) hr

theorem head?_escapeLines {cs rest : List Char} :
    ((escapeLines 0 cs ++ '\x22' :: rest).head? = some '\n' → '\n' ∈ cs) ∧
      (escapeLines 0 cs ++ '\x22' :: rest).head? ≠ some '\r' := by
  cases cs with
  | nil => simp [escapeLines]
  | cons c cs =>
    unfold escapeLines
    split_ifs with hn hquote
    · simp [hn]
    · simp
    · obtain ⟨e, he, -⟩ | ⟨-, he⟩ | ⟨he, hprint, -⟩ := escape_cases c
      · simp [he]
      · simp [he]
      · have hr : c ≠ '\r' := by
          rintro rfl
          simp [isPrintable] at hprint
        simp [he, hn, hr]

section

variable {rest : List Char}

theorem string?_basic (cs : List Char) (hrest : NoQuote rest) :
    string? (stringTextIn cs .basic ++ rest) = some (cs, rest) := by
  have htwo : ¬['\x22', '\x22'] <+: cs.flatMap escape ++ '\x22' :: rest := by
    rintro ⟨more, h⟩
    cases cs with
    | nil =>
      obtain rfl : '\x22' :: more = rest := by simpa using h
      exact hrest.1 rfl
    | cons c cs =>
      rw [List.flatMap_cons, List.append_assoc] at h
      exact head?_escape c _ (by rw [← h]; rfl)
  have htext : stringTextIn cs .basic ++ rest =
      '\x22' :: (cs.flatMap escape ++ '\x22' :: rest) := by
    simp [stringTextIn]
  have hread := basic?_flatMap_escape cs rest
  rw [htext]
  generalize cs.flatMap escape ++ '\x22' :: rest = text at htwo hread
  unfold string?
  split <;> simp_all

theorem string?_literal {cs : List Char} (hne : cs ≠ [])
    (hcs : ∀ c ∈ cs, isPrintable c ∧ c ≠ '\'') :
    string? (stringTextIn cs .literal ++ rest) = some (cs, rest) := by
  obtain ⟨c, cs, rfl⟩ := List.exists_cons_of_ne_nil hne
  have hquote := (hcs c List.mem_cons_self).2
  have hread := literal?_append hcs rest
  have htext : stringTextIn (c :: cs) .literal ++ rest =
      '\'' :: (c :: cs ++ '\'' :: rest) := by
    simp [stringTextIn]
  rw [htext]
  unfold string?
  split <;> simp_all

theorem string?_multiBasic (cs : List Char) (hrest : NoQuote rest) :
    string? (stringTextIn cs .multiBasic ++ rest) = some (cs, rest) := by
  obtain ⟨hn, hr⟩ := @head?_escapeLines cs ('\x22' :: '\x22' :: rest)
  have htext : stringTextIn cs .multiBasic ++ rest =
      '\x22' :: '\x22' :: '\x22' ::
        (opening cs ++ (escapeLines 0 cs ++ '\x22' :: '\x22' :: '\x22' :: rest)) := by
    simp [stringTextIn, List.replicate]
  rw [htext, string?, dropNewline_opening hn hr,
    multiBasic?_escapeLines (Nat.zero_le 2) cs hrest.1]

theorem string?_multiLiteral {cs : List Char} (hcs : ∀ c ∈ cs, isPrintable c ∨ c = '\n')
    (hruns : ¬List.replicate 3 '\'' <:+: cs) (hrest : NoQuote rest) :
    string? (stringTextIn cs .multiLiteral ++ rest) = some (cs, rest) := by
  have htext : stringTextIn cs .multiLiteral ++ rest =
      '\'' :: '\'' :: '\'' :: (opening cs ++ (cs ++ '\'' :: '\'' :: '\'' :: rest)) := by
    simp [stringTextIn, List.replicate]
  have hn : (cs ++ '\'' :: '\'' :: '\'' :: rest).head? = some '\n' → '\n' ∈ cs := by
    cases cs <;> simp_all
  have hr : (cs ++ '\'' :: '\'' :: '\'' :: rest).head? ≠ some '\r' := by
    cases cs with
    | nil => simp
    | cons c cs =>
      rintro ⟨⟩
      simpa [isPrintable] using hcs _ List.mem_cons_self
  rw [htext, string?, dropNewline_opening hn hr, multiLiteral?_append hcs hruns hrest.2]

theorem isPrintable_of_not_needsEscape {c : Char} (h : needsEscape c = false) :
    isPrintable c ∨ c = '\n' := by
  by_cases hn : c = '\n'
  · exact .inr hn
  · refine .inl ?_
    simp only [needsEscape, isPrintable] at h ⊢
    by_cases ht : c = '\t' <;> simp_all

/-- Every string is read back. -/
theorem string?_stringText (s : String) (hrest : NoQuote rest) :
    string? (stringText s ++ rest) = some (s.toList, rest) := by
  unfold stringText
  generalize s.toList = cs
  have hplain (h : cs.any needsEscape = false) : ∀ c ∈ cs, isPrintable c ∨ c = '\n' :=
    fun c hc => isPrintable_of_not_needsEscape (by simpa using List.any_eq_false.1 h c hc)
  unfold StringForm.of
  simp only
  split_ifs with hbasic hliteral hmultiBasic hmultiLiteral hlines
  · exact string?_basic cs hrest
  · simp only [Bool.and_eq_true, Bool.not_eq_true', beq_iff_eq] at hliteral
    obtain ⟨⟨hescapes, hsingles⟩, hnewline⟩ := hliteral
    have hne : cs ≠ [] := by
      rintro rfl
      exact hbasic rfl
    refine string?_literal hne fun c hc => ⟨?_, ?_⟩
    · obtain hprint | rfl := hplain hescapes c hc
      · exact hprint
      · simp [hc] at hnewline
    · rintro rfl
      exact not_mem_of_longestRun hsingles hc
  · exact string?_multiBasic cs hrest
  · simp only [Bool.and_eq_true, Bool.not_eq_true', decide_eq_true_eq] at hmultiLiteral
    obtain ⟨hescapes, hsingles⟩ := hmultiLiteral
    refine string?_multiLiteral (hplain hescapes) (fun hthree => ?_) hrest
    have hlong := le_longestRun_of_replicate hthree 0
    omega
  · exact string?_multiBasic cs hrest
  · exact string?_basic cs hrest

end

end BrowserHost.Toml
