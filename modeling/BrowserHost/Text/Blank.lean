/-!
# BrowserHost.Text.Blank

White space is what Unicode's `White_Space` property says: 25 code points,
six of them ASCII.  Trimming and splitting into tokens both go by it, so a
text is blank after trimming exactly when it has no token.

* `tokens_eq_nil_iff`: no token iff every character is blank;
* `trim_eq_nil_iff`: the same for trimming;
* `isBlank_of_isWhitespace`: the ASCII white space of `Char` is included.
-/

namespace BrowserHost.Text

/-! ## the property -/

/-- The code points with the `White_Space` property. -/
def isBlank (c : Char) : Bool :=
  let n := c.toNat
  (0x09 ≤ n && n ≤ 0x0D) || n == 0x20 || n == 0x85 || n == 0xA0 || n == 0x1680 ||
    (0x2000 ≤ n && n ≤ 0x200A) || n == 0x2028 || n == 0x2029 || n == 0x202F ||
    n == 0x205F || n == 0x3000

theorem isBlank_of_isWhitespace {c : Char} (h : c.isWhitespace = true) : isBlank c = true := by
  simp only [Char.isWhitespace, Bool.or_eq_true, decide_eq_true_eq] at h
  rcases h with ((rfl | rfl) | rfl) | rfl <;> decide

/-! ## trimming -/

/-- The text without its leading blanks. -/
def trimLeft (cs : List Char) : List Char :=
  cs.dropWhile isBlank

/-- The text without the blanks on either side. -/
def trim (cs : List Char) : List Char :=
  (trimLeft (trimLeft cs).reverse).reverse

theorem trimLeft_eq_nil_iff {cs : List Char} :
    trimLeft cs = [] ↔ ∀ c ∈ cs, isBlank c = true := by
  induction cs with
  | nil => simp [trimLeft]
  | cons c cs ih =>
    by_cases hc : isBlank c = true <;> simp_all [trimLeft]

theorem not_isBlank_of_trimLeft {c : Char} {cs rest : List Char} (h : trimLeft cs = c :: rest) :
    isBlank c = false := by
  induction cs with
  | nil => simp [trimLeft] at h
  | cons d ds ih =>
    by_cases hd : isBlank d = true <;> simp_all [trimLeft]

theorem trim_eq_nil_iff {cs : List Char} : trim cs = [] ↔ ∀ c ∈ cs, isBlank c = true := by
  rw [← trimLeft_eq_nil_iff, trim]
  constructor
  · intro h
    have hall := trimLeft_eq_nil_iff.1 (List.reverse_eq_nil_iff.1 h)
    cases hd : trimLeft cs with
    | nil => rfl
    | cons c rest =>
      have hb := hall c (by simp [hd])
      simp [not_isBlank_of_trimLeft hd] at hb
  · intro h
    rw [h]
    rfl

/-! ## tokens -/

/-- Tokens of the text when `word`, in reverse, has been read and not closed. -/
def tokensAfter (word : List Char) : List Char → List (List Char)
  | [] => if word.isEmpty then [] else [word.reverse]
  | c :: cs =>
    if isBlank c then
      if word.isEmpty then tokensAfter [] cs else word.reverse :: tokensAfter [] cs
    else tokensAfter (c :: word) cs

/-- The maximal runs of characters that are not blank, in order. -/
def tokens (cs : List Char) : List (List Char) :=
  tokensAfter [] cs

theorem tokensAfter_ne_nil {word : List Char} (h : word ≠ []) (cs : List Char) :
    tokensAfter word cs ≠ [] := by
  induction cs generalizing word with
  | nil => simp [tokensAfter, h]
  | cons c cs ih => grind [tokensAfter]

theorem tokens_eq_nil_iff {cs : List Char} : tokens cs = [] ↔ ∀ c ∈ cs, isBlank c = true := by
  unfold tokens
  induction cs with
  | nil => simp [tokensAfter]
  | cons c cs ih =>
    have := @tokensAfter_ne_nil [c] (by simp) cs
    by_cases hc : isBlank c = true <;> simp [tokensAfter, hc, ih, this]

end BrowserHost.Text
