import BrowserHost.Health.SharedMemory
import BrowserHost.Proofs.Numeral
import BrowserHost.Proofs.Spacing
import Mathlib.Algebra.BigOperators.Group.List.Basic
import Mathlib.Algebra.Order.Ring.Nat
import Mathlib.Data.List.Forall2

/-!
# BrowserHost.Proofs.Sharing

What a status text says of shared memory: every line reports a figure of its own, and
the text their sum.

* `splitLines_eq`: the pieces of a text between line feeds;
* `sharedOfLine_eq_iff`: what a line counts is what it reports;
* `sharedKib_sum`: texts are summed up line by line.
-/

namespace BrowserHost.Health

open Text (IsGap IsNumeral IsSpaced max64)

/-! ## what a line reports -/

/-- The headings of the lines that count. -/
def headings : List String :=
  ["RssFile:", "RssShmem:"]

/-- The line begins with a heading, which `field` follows. -/
def IsHeaded (line field : List Char) : Prop :=
  ∃ heading ∈ headings, line = heading.toList ++ field

/-- The first word of the field is a number of 64 bits. -/
def IsFigure (field : List Char) (n : ℕ) : Prop :=
  ∃ word words, IsSpaced (word :: words) field ∧ IsNumeral n word ∧ n ≤ max64

/-- What a line reports: the number after its heading, and nothing if it has no
heading or no number follows. -/
inductive Reports : List Char → ℕ → Prop
  | figure {line field : List Char} {n : ℕ} (hline : IsHeaded line field)
      (hfigure : IsFigure field n) : Reports line n
  | unreadable {line field : List Char} (hline : IsHeaded line field)
      (hfigure : ∀ n, ¬IsFigure field n) : Reports line 0
  | unheaded {line : List Char} (hline : ∀ field, ¬IsHeaded line field) : Reports line 0

theorem afterHead?_eq_some_iff {head line field : List Char} :
    afterHead? head line = some field ↔ line = head ++ field := by
  induction head generalizing line with
  | nil => simp [afterHead?]
  | cons h head ih =>
    cases line with
    | nil => simp [afterHead?]
    | cons c line => by_cases hc : h = c <;> simp [afterHead?, hc, ih, eq_comm]

/-- No line has both headings. -/
theorem sharedField?_eq_some_iff {line field : List Char} :
    sharedField? line = some field ↔ IsHeaded line field := by
  have hboth {rest rest' : List Char} :
      "RssFile:".toList ++ rest ≠ "RssShmem:".toList ++ rest' := by
    simp
  rw [sharedField?, Option.or_eq_some_iff, Option.eq_none_iff_forall_ne_some]
  simp only [afterHead?_eq_some_iff, ne_eq, IsHeaded, headings, List.mem_cons, List.not_mem_nil,
    or_false, exists_eq_or_imp, exists_eq_left]
  constructor
  · rintro (h | ⟨-, h⟩)
    · exact .inl h
    · exact .inr h
  · rintro (h | h)
    · exact .inl h
    · exact .inr ⟨fun rest hrest => hboth (hrest.symm.trans h), h⟩

theorem sharedFigure_of_isFigure {field : List Char} {n : ℕ} (h : IsFigure field n) :
    sharedFigure field = n := by
  obtain ⟨word, words, hspaced, hnumeral, hle⟩ := h
  have hread : Text.unsigned? max64 word = some n := Text.unsigned?_eq_some_iff.2 ⟨hnumeral, hle⟩
  simp [sharedFigure, hspaced.tokens_eq, hread]

theorem sharedFigure_of_not_isFigure {field : List Char} (h : ∀ n, ¬IsFigure field n) :
    sharedFigure field = 0 := by
  unfold sharedFigure
  split
  · rfl
  · next word words htokens =>
    have hnone : Text.unsigned? max64 word = none := by
      refine Option.eq_none_iff_forall_ne_some.2 fun n hn => h n ⟨word, words, ?_, ?_⟩
      · exact Text.tokens_eq_iff.1 htokens
      · exact Text.unsigned?_eq_some_iff.1 hn
    rw [hnone, Option.getD_none]

/-- Every line reports something. -/
theorem exists_reports (line : List Char) : ∃ n, Reports line n := by
  by_cases hline : ∃ field, IsHeaded line field
  · obtain ⟨field, hline⟩ := hline
    by_cases hfigure : ∃ n, IsFigure field n
    · obtain ⟨n, hfigure⟩ := hfigure
      exact ⟨n, .figure hline hfigure⟩
    · exact ⟨0, .unreadable hline (not_exists.1 hfigure)⟩
  · exact ⟨0, .unheaded (not_exists.1 hline)⟩

theorem sharedOfLine_of_reports {line : List Char} {n : ℕ} (h : Reports line n) :
    sharedOfLine line = n := by
  unfold sharedOfLine
  cases h with
  | figure hline hfigure =>
    rw [sharedField?_eq_some_iff.2 hline]
    exact sharedFigure_of_isFigure hfigure
  | unreadable hline hfigure =>
    rw [sharedField?_eq_some_iff.2 hline]
    exact sharedFigure_of_not_isFigure hfigure
  | unheaded hline =>
    have hnone : sharedField? line = none := Option.eq_none_iff_forall_ne_some.2 fun field h =>
      hline field (sharedField?_eq_some_iff.1 h)
    rw [hnone]
    rfl

theorem sharedOfLine_eq_iff {line : List Char} {n : ℕ} :
    sharedOfLine line = n ↔ Reports line n := by
  constructor
  · rintro rfl
    obtain ⟨n, hn⟩ := exists_reports line
    exact sharedOfLine_of_reports hn ▸ hn
  · exact sharedOfLine_of_reports

/-! ## ends of lines -/

/-- No heading ends in a carriage return. -/
theorem isHeaded_return {line field : List Char} :
    IsHeaded (line ++ ['\r']) field ↔ ∃ rest, IsHeaded line rest ∧ field = rest ++ ['\r'] := by
  constructor
  · rintro ⟨heading, hheading, hline⟩
    rcases List.eq_nil_or_concat field with rfl | ⟨rest, c, rfl⟩
    · have hlast : ∀ heading ∈ headings, heading.toList.getLast? ≠ some '\r' := by decide
      refine absurd ?_ (hlast heading hheading)
      rw [← List.append_nil heading.toList, ← hline]
      simp
    · rw [List.concat_eq_append, ← List.append_assoc] at hline
      obtain ⟨hline, hc⟩ := List.append_inj' hline rfl
      exact ⟨rest, ⟨heading, hheading, hline⟩, by rw [List.concat_eq_append, hc]⟩
  · rintro ⟨rest, ⟨heading, hheading, rfl⟩, rfl⟩
    exact ⟨heading, hheading, List.append_assoc _ _ _⟩

theorem isFigure_return {field : List Char} {n : ℕ} :
    IsFigure (field ++ ['\r']) n ↔ IsFigure field n := by
  have hreturn : IsGap ['\r'] := by decide
  simp only [IsFigure, ← Text.tokens_eq_iff, Text.tokens_append_gap field hreturn]

/-- A carriage return at the end of a line changes nothing. -/
theorem reports_return {line : List Char} {n : ℕ} (h : Reports line n) :
    Reports (line ++ ['\r']) n := by
  cases h with
  | figure hline hfigure =>
    exact .figure (isHeaded_return.2 ⟨_, hline, rfl⟩) (isFigure_return.2 hfigure)
  | unreadable hline hfigure =>
    exact .unreadable (isHeaded_return.2 ⟨_, hline, rfl⟩) fun n hn =>
      hfigure n (isFigure_return.1 hn)
  | unheaded hline =>
    refine .unheaded fun field hfield => ?_
    obtain ⟨rest, hrest, -⟩ := isHeaded_return.1 hfield
    exact hline rest hrest

theorem sharedOfLine_return (line : List Char) :
    sharedOfLine (line ++ ['\r']) = sharedOfLine line :=
  sharedOfLine_eq_iff.2 (reports_return (sharedOfLine_eq_iff.1 rfl))

theorem sharedOfLine_dropReturn (line : List Char) :
    sharedOfLine (Text.dropReturn line) = sharedOfLine line := by
  unfold Text.dropReturn
  split
  · next hlast =>
    obtain ⟨rest, rfl⟩ := List.getLast?_eq_some_iff.1 hlast
    rw [List.dropLast_concat, sharedOfLine_return]
  · rfl

/-! ## texts -/

theorem splitLines_eq (cs : List Char) : Text.splitLines cs = cs.splitOn '\n' := by
  induction cs with
  | nil => rfl
  | cons c cs ih =>
    rw [Text.splitLines, ih, List.splitOn_cons_eq_if_modifyHead]
    cases hls : cs.splitOn '\n' with
    | nil => exact absurd hls (List.splitOn_ne_nil _ _)
    | cons l ls => simp

theorem foldr_endLines (ls : List (List Char)) :
    (Text.endLines ls).foldr (fun l n => sharedOfLine l + n) 0 = (ls.map sharedOfLine).sum := by
  induction ls with
  | nil => rfl
  | cons l ls ih =>
    cases ls with
    | nil =>
      have hempty : sharedOfLine [] = 0 := rfl
      cases l <;> simp [Text.endLines, hempty]
    | cons m ls =>
      simp [Text.endLines, ih, sharedOfLine_dropReturn]

/-- The shared memory of a text is what its pieces between line feeds count. -/
theorem sharedKib_eq (text : List Char) :
    sharedKib text = ((text.splitOn '\n').map sharedOfLine).sum := by
  rw [sharedKib, Text.lines, foldr_endLines, splitLines_eq]

/-- Every line reports one figure, and a text the sum of them.  Texts with a line feed
between them add up; a text in which no line has a heading counts nothing.  A carriage
return before the line feed is of no account.  The sums are numbers of any size, and
those of the program as far as they fit 64 bits. -/
theorem sharedKib_sum :
    (∀ a b, sharedKib (a ++ '\n' :: b) = sharedKib a + sharedKib b) ∧
    (∀ text, (∀ line ∈ text.splitOn '\n', ∀ field, ¬IsHeaded line field) → sharedKib text = 0) ∧
    (∀ text figures, List.Forall₂ Reports (text.splitOn '\n') figures →
      sharedKib text = figures.sum) ∧
    (∀ line, ∃! n, Reports line n) ∧
    ∀ line n, Reports (line ++ ['\r']) n ↔ Reports line n := by
  refine ⟨fun a b => ?_, fun text hall => ?_, fun text figures hall => ?_, fun line => ?_,
    fun line n => ?_⟩
  · rw [sharedKib_eq, List.splitOn_append_cons_self, List.map_append, List.sum_append,
      ← sharedKib_eq, ← sharedKib_eq]
  · rw [sharedKib_eq]
    refine List.sum_eq_zero fun n hn => ?_
    obtain ⟨line, hline, rfl⟩ := List.mem_map.1 hn
    exact sharedOfLine_of_reports (.unheaded (hall line hline))
  · have hfigures : (text.splitOn '\n').map sharedOfLine = figures := by
      rw [← List.forall₂_eq_eq_eq, List.forall₂_map_left_iff]
      exact hall.imp fun _ _ => sharedOfLine_of_reports
    rw [sharedKib_eq, hfigures]
  · exact ⟨_, sharedOfLine_eq_iff.1 rfl, fun n hn => (sharedOfLine_of_reports hn).symm⟩
  · rw [← sharedOfLine_eq_iff, ← sharedOfLine_eq_iff, sharedOfLine_return]

/-- A sign and a carriage return, a number too large by one, a heading that is not at
the beginning, and a last line with no line feed and no unit. -/
def ragged : List Char :=
  "RssFile:\t +0512 kB\r\nRssShmem: 18446744073709551616 kB\n RssFile: 7 kB\nRssShmem:256".toList

theorem sharedKib_sum_ragged :
    sharedKib ragged = 768 ∧ sharedKib (ragged ++ '\n' :: ragged) = 1536 ∧
      sharedKib " RssFile: 7 kB".toList = 0 := by
  obtain ⟨hadd, hnone, hsum, -⟩ := sharedKib_sum
  have hlines : ragged.splitOn '\n' = ["RssFile:\t +0512 kB\r".toList,
      "RssShmem: 18446744073709551616 kB".toList, " RssFile: 7 kB".toList,
      "RssShmem:256".toList] := by decide
  have hreports (line : List Char) (n : ℕ) (h : sharedOfLine line = n) : Reports line n :=
    sharedOfLine_eq_iff.1 h
  have hone : sharedKib ragged = 768 := by
    refine hsum ragged [512, 0, 0, 256] ?_
    rw [hlines]
    exact .cons (hreports _ _ (by decide)) (.cons (hreports _ _ (by decide))
      (.cons (hreports _ _ (by decide)) (.cons (hreports _ _ (by decide)) .nil)))
  refine ⟨hone, by rw [hadd, hone], hnone _ fun line hline field hfield => ?_⟩
  have hsingle : " RssFile: 7 kB".toList.splitOn '\n' = [" RssFile: 7 kB".toList] := by decide
  rw [hsingle, List.mem_singleton] at hline
  subst hline
  cases sharedField?_eq_some_iff.2 hfield

end BrowserHost.Health
