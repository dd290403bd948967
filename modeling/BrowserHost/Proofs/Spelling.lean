import BrowserHost.Json.Text
import BrowserHost.Json.Value
import BrowserHost.Proofs.Decimal
import Mathlib.Data.List.TakeDrop

/-!
# BrowserHost.Proofs.Spelling

Compact texts and the values that they spell.  The reader takes such a text off
the front of what it is given and leaves the rest alone, so the texts of the parts
of a value can be put together.

* `Spells`: a text that is read as a value, whatever follows it;
* `spells_quote`, `spells_natText`: strings with all their escapes, and numbers;
* `spells_objectText`: an object spells what its members spell;
* `ofText?_of_spells`: a text that spells a value is read as that value.
-/

namespace BrowserHost.Json

open Value Text

/-! ## what follows a value -/

/-- What can follow a number without going on with it. -/
def Closes (rest : List Char) : Prop :=
  ∀ c ∈ rest.head?, digit? c = none ∧ c ≠ '.' ∧ c ≠ 'e' ∧ c ≠ 'E'

/-- The text is read as the value, and what follows it is left. -/
def Spells (text : List Char) (v : Value) : Prop :=
  ∀ n rest, text.length < n → Closes rest → value? n (text ++ rest) = some (v, rest)

theorem closes_nil : Closes [] := by
  simp [Closes]

theorem closes_cons {c : Char} (rest : List Char)
    (h : digit? c = none ∧ c ≠ '.' ∧ c ≠ 'e' ∧ c ≠ 'E') : Closes (c :: rest) := by
  simpa [Closes] using h

theorem skipSpace_cons {c : Char} (h : c ≠ ' ' ∧ c ≠ '\n' ∧ c ≠ '\t' ∧ c ≠ '\r')
    (cs : List Char) : skipSpace (c :: cs) = c :: cs := by
  simp [skipSpace, h]

/-- A text that spells a value is read as that value. -/
theorem ofText?_of_spells {text : List Char} {v : Value} (h : Spells text v) :
    Value.ofText? text = some v := by
  have hread := h (text.length + 1) [] (Nat.lt_succ_self _) closes_nil
  rw [List.append_nil] at hread
  simp [Value.ofText?, hread, skipSpace]

/-! ## strings -/

/-- A control character is read back from its code. -/
theorem hexValue4?_hexByte {n : Nat} (h : n < 0x20) :
    ∃ a b, hexByte n = [a, b] ∧ hexValue4? '0' '0' a b = some n := by
  have hall : ∀ n < 0x20,
      hexValue4? '0' '0' (Nat.digitChar (n / 16)) (Nat.digitChar (n % 16)) = some n := by decide
  exact ⟨_, _, rfl, hall n h⟩

theorem pieceOf_toNat {c : Char} (h : c.toNat < 0x20) : pieceOf c.toNat = .char c := by
  have hlow : ¬(0xD800 ≤ c.toNat ∧ c.toNat ≤ 0xDFFF) := by omega
  rw [pieceOf, if_neg hlow, Char.ofNat_toNat]

/-- A backslash and a letter stand for one character. -/
theorem pieces?_short {e c : Char} (h : shortEscape? e = some c) (hu : e ≠ 'u')
    (cs : List Char) :
    pieces? ('\\' :: e :: cs) = (pieces? cs).map fun (ps, rest) => (.char c :: ps, rest) := by
  cases hrest : pieces? cs <;> simp [pieces?, h, hu, hrest]

/-- Every character is read back from the way it is written inside quotes. -/
theorem pieces?_escape (c : Char) (cs : List Char) :
    pieces? (escape c ++ cs) = (pieces? cs).map fun (ps, rest) => (.char c :: ps, rest) := by
  unfold escape
  split_ifs with hquote hslash hn hr ht hb hf hcontrol
  · subst hquote
    exact pieces?_short rfl (by decide) cs
  · subst hslash
    exact pieces?_short rfl (by decide) cs
  · subst hn
    exact pieces?_short rfl (by decide) cs
  · subst hr
    exact pieces?_short rfl (by decide) cs
  · subst ht
    exact pieces?_short rfl (by decide) cs
  · subst hb
    exact pieces?_short rfl (by decide) cs
  · subst hf
    exact pieces?_short rfl (by decide) cs
  · obtain ⟨a, b, hcode, hread⟩ := hexValue4?_hexByte hcontrol
    cases hrest : pieces? cs <;> simp [hcode, pieces?, hread, pieceOf_toNat hcontrol, hrest]
  · cases hrest : pieces? cs <;> simp [pieces?, hslash, hcontrol, hrest]

theorem pieces?_flatMap_escape (s rest : List Char) :
    pieces? (s.flatMap escape ++ '\x22' :: rest) = some (s.map .char, rest) := by
  induction s with
  | nil => rfl
  | cons c s ih =>
    rw [List.flatMap_cons, List.append_assoc, pieces?_escape, ih]
    rfl

theorem joinPieces_map_char (s : List Char) : joinPieces (s.map .char) = some s := by
  induction s with
  | nil => rfl
  | cons c s ih => simp [joinPieces, ih]

theorem string?_quote (s : String) (rest : List Char) :
    string? (s.toList.flatMap escape ++ '\x22' :: rest) = some (some s, rest) := by
  simp [string?, pieces?_flatMap_escape, joinPieces_map_char]

theorem quote_append (s rest : List Char) :
    quote s ++ rest = '\x22' :: (s.flatMap escape ++ '\x22' :: rest) := by
  simp [quote]

theorem spells_quote (s : String) : Spells (quote s.toList) (.string (some s)) := by
  intro n rest hn _
  obtain ⟨n, rfl⟩ : ∃ k, n = k + 1 := Nat.exists_eq_succ_of_ne_zero (by omega)
  rw [quote_append, value?, skipSpace_cons (by decide)]
  simp [string?_quote]

/-! ## words and numbers -/

theorem spells_nullText : Spells nullText .null := by
  intro n rest hn _
  obtain ⟨n, rfl⟩ : ∃ k, n = k + 1 := Nat.exists_eq_succ_of_ne_zero (by omega)
  simp [nullText, value?, skipSpace_cons, after?]

theorem spells_boolText (b : Bool) : Spells (boolText b) (.bool b) := by
  intro n rest hn _
  obtain ⟨n, rfl⟩ : ∃ k, n = k + 1 := Nat.exists_eq_succ_of_ne_zero (by omega)
  cases b <;> simp [boolText, value?, skipSpace_cons, after?]

theorem spanDigits_append {ds rest : List Char} (hds : AllDigits ds) (hrest : Closes rest) :
    spanDigits (ds ++ rest) = (ds, rest) := by
  unfold spanDigits
  rw [List.span_eq_takeWhile_dropWhile, List.takeWhile_append_of_pos hds,
    List.dropWhile_append_of_pos hds]
  cases rest with
  | nil => simp
  | cons c rest =>
    have hc : digit? c = none := (hrest c rfl).1
    simp [hc]

/-- Digits that do not start with a zero of no use are a number. -/
theorem number?_append {c : Char} {ds rest : List Char} (hds : AllDigits (c :: ds))
    (hzero : c = '0' → ds = []) (hrest : Closes rest) :
    Value.number? (c :: ds ++ rest) = some (c :: ds, rest) := by
  have hc : (digit? c).isSome := hds c List.mem_cons_self
  have hsign : c ≠ '-' := ne_of_isSome_digit? hc rfl
  have hwhole : wholePart? (c :: ds ++ rest) = some (c :: ds, rest) := by
    unfold wholePart?
    rw [spanDigits_append hds hrest]
    by_cases h0 : c = '0'
    · simp [h0, hzero h0]
    · simp [h0]
  have hfraction : fractionPart? rest = some ([], rest) := by
    cases rest with
    | nil => rfl
    | cons d rest => simp [fractionPart?, (hrest d rfl).2.1]
  have hexponent : exponentPart? rest = some ([], rest) := by
    cases rest with
    | nil => rfl
    | cons d rest => simp [exponentPart?, (hrest d rfl).2.2]
  rw [List.cons_append] at hwhole
  simp [Value.number?, hsign, hwhole, hfraction, hexponent]

theorem natText_eq (n : Nat) : natText n = Nat.toDigits 10 n := by
  simp [natText, Nat.toList_repr]

theorem spells_natText (n : Nat) : Spells (natText n) (.number (natText n)) := by
  intro k rest hk hrest
  obtain ⟨k, rfl⟩ : ∃ m, k = m + 1 := Nat.exists_eq_succ_of_ne_zero (by omega)
  have hdigits : AllDigits (natText n) := natText_eq n ▸ allDigits_toDigits n
  obtain ⟨c, ds, hds⟩ : ∃ c ds, natText n = c :: ds :=
    List.exists_cons_of_ne_nil (by simp [natText_eq])
  have hc : (digit? c).isSome := hdigits c (by simp [hds])
  have hzero : c = '0' → ds = [] := by
    rintro rfl
    rcases Nat.eq_zero_or_pos n with rfl | hn
    · exact (List.cons.inj hds).2.symm
    · exact absurd (natText_eq n ▸ hds) (toDigits_ne_zero_cons hn ds)
  rw [hds] at hdigits ⊢
  have hnumber := number?_append hdigits hzero hrest
  have hne (d : Char) (hd : digit? d = none) : c ≠ d := ne_of_isSome_digit? hc hd
  rw [List.cons_append, value?, skipSpace_cons ⟨hne _ rfl, hne _ rfl, hne _ rfl, hne _ rfl⟩]
  rw [List.cons_append] at hnumber
  simp [hne '\x22' rfl, hne '[' rfl, hne '\x7b' rfl, hne 'n' rfl, hne 't' rfl, hne 'f' rfl, hnumber]

/-! ## objects -/

/-- The texts of the members of an object, with commas between them. -/
def membersText (ms : List (String × List Char)) : List Char :=
  List.intercalate [','] (ms.map member)

/-- A member's text spells the value that it has. -/
def MemberSpells (m : String × List Char) (v : Option String × Value) : Prop :=
  v.1 = some m.1 ∧ Spells m.2 v.2

theorem member_append (m : String × List Char) (cs : List Char) :
    member m ++ cs =
      '\x22' :: (m.1.toList.flatMap escape ++ '\x22' :: ':' :: (m.2 ++ cs)) := by
  simp [member, quote]

theorem length_lt_member (m : String × List Char) : m.2.length + 1 < (member m).length := by
  simp only [member, quote, List.length_append, List.length_cons]
  omega

/-- One member, and what the reader does next. -/
theorem members?_member {m : String × List Char} {v : Option String × Value}
    (h : MemberSpells m v) {n : Nat} (hn : m.2.length < n) {cs : List Char} (hcs : Closes cs) :
    members? (n + 1) (member m ++ cs) =
      match skipSpace cs with
      | ',' :: cs => (members? n cs).map fun (ms, rest) => (v :: ms, rest)
      | '\x7d' :: rest => some ([v], rest)
      | _ => none := by
  obtain ⟨key, v⟩ := v
  obtain ⟨rfl, hv⟩ := h
  have hvalue : value? n (m.2 ++ cs) = some (v, cs) := hv n cs hn hcs
  rw [member_append, members?, skipSpace_cons (by decide)]
  simp only [string?_quote, Option.bind_eq_bind, Option.bind_some]
  rw [skipSpace_cons (by decide)]
  exact congrArg (Option.bind · _) hvalue

/-- The reader takes the members of an object up to the closing brace. -/
theorem members?_append {ms : List (String × List Char)} {vs : List (Option String × Value)}
    (h : List.Forall₂ MemberSpells ms vs) (hne : ms ≠ []) {n : Nat}
    (hn : (membersText ms).length < n) (rest : List Char) :
    members? n (membersText ms ++ '\x7d' :: rest) = some (vs, rest) := by
  induction h generalizing n with
  | nil => exact absurd rfl hne
  | @cons m v ms vs hm hms ih =>
    obtain ⟨n, rfl⟩ : ∃ k, n = k + 1 := Nat.exists_eq_succ_of_ne_zero (by omega)
    have hlength := length_lt_member m
    cases hms with
    | nil =>
      have htext : membersText [m] = member m := by simp [membersText]
      rw [htext] at hn ⊢
      have hclose : Closes ('\x7d' :: rest) := closes_cons rest (by decide)
      rw [members?_member hm (by omega) hclose, skipSpace_cons (by decide)]
      rfl
    | @cons m' v' ms vs hm' hms =>
      have htext : membersText (m :: m' :: ms) = member m ++ ',' :: membersText (m' :: ms) := by
        simp [membersText]
      rw [htext, List.length_append, List.length_cons] at hn
      have hcomma : Closes (',' :: (membersText (m' :: ms) ++ '\x7d' :: rest)) :=
        closes_cons _ (by decide)
      rw [htext, List.append_assoc, List.cons_append, members?_member hm (by omega) hcomma,
        skipSpace_cons (by decide)]
      simp [ih (by simp) (by omega : (membersText (m' :: ms)).length < n)]

/-- An object spells what its members spell. -/
theorem spells_objectText {ms : List (String × List Char)} {vs : List (Option String × Value)}
    (h : List.Forall₂ MemberSpells ms vs) (hne : ms ≠ []) :
    Spells (objectText ms) (.object vs) := by
  intro n rest hn _
  obtain ⟨n, rfl⟩ : ∃ k, n = k + 1 := Nat.exists_eq_succ_of_ne_zero (by omega)
  have htext : objectText ms ++ rest = '\x7b' :: (membersText ms ++ '\x7d' :: rest) := by
    simp [objectText, membersText]
  have hfits : (membersText ms).length < n := by
    have hlength := congrArg List.length htext
    simp only [List.length_append, List.length_cons] at hlength
    omega
  -- the first member starts with a quote
  obtain ⟨cs, hcs⟩ : ∃ cs, membersText ms ++ '\x7d' :: rest = '\x22' :: cs := by
    cases ms with
    | nil => exact absurd rfl hne
    | cons m ms => cases ms <;> simp [membersText, member, quote]
  rw [htext, value?, skipSpace_cons (by decide)]
  have hmembers := members?_append h hne hfits rest
  rw [hcs] at hmembers ⊢
  simp [skipSpace_cons, hmembers]

end BrowserHost.Json
