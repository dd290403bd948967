import BrowserHost.Proofs.Figures
import BrowserHost.Proofs.Quotation
import BrowserHost.Toml.Document

/-!
# BrowserHost.Proofs.Entries

A document of one line for each entry, written and read again.  Every value is
read off the front of what is given and leaves the line feed after it, so the
lines are read one after the other and make the entries of the root.

* `value?_text`: the value of every field that can be written;
* `Line.statement?_toText`: the entry that a line makes;
* `document?_lines`: lines with different keys are read as their entries, in order;
* `document?_written`: so are fields that were written.
-/

namespace BrowserHost.Toml

open Text

/-! ## strings and arrays of strings -/

theorem exists_stringText (s : String) :
    ∃ c cs, stringText s = c :: cs ∧ (c = '\x22' ∨ c = '\'') := by
  unfold stringText
  cases StringForm.of s.toList with
  | basic => exact ⟨_, _, rfl, .inl rfl⟩
  | literal => exact ⟨_, _, rfl, .inr rfl⟩
  | multiBasic => exact ⟨_, _, rfl, .inl rfl⟩
  | multiLiteral => exact ⟨_, _, rfl, .inr rfl⟩

theorem value?_stringText (n depth : ℕ) (s : String) {rest : List Char} (hrest : NoQuote rest) :
    value? (n + 1) depth (stringText s ++ rest) = some (.string s, rest) := by
  have hread := string?_stringText s hrest
  obtain ⟨c, cs, htext, hc⟩ := exists_stringText s
  rw [htext, List.cons_append] at hread ⊢
  obtain rfl | rfl := hc <;> simp [value?, hread]

/-- The last item of an array. -/
theorem items?_last {n depth : ℕ} {s : String} {cs rest : List Char}
    (h : skipLines false cs = stringText s ++ ']' :: rest) :
    items? (n + 2) depth cs = some ([.string s], rest) := by
  have hbracket : NoQuote (']' :: rest) := by simp [NoQuote]
  have hread := value?_stringText n depth s hbracket
  obtain ⟨c, ds, htext, hc⟩ := exists_stringText s
  rw [htext, List.cons_append] at h hread
  obtain rfl | rfl := hc <;> simp [items?, h, hread, skipLines, isWs]

/-- An item of an array with others after it. -/
theorem items?_more {n depth : ℕ} {s : String} {cs rest : List Char}
    (h : skipLines false cs = stringText s ++ ',' :: rest) :
    items? (n + 2) depth cs =
      (items? (n + 1) depth rest).map fun (vs, rest) => (.string s :: vs, rest) := by
  have hcomma : NoQuote (',' :: rest) := by simp [NoQuote]
  have hread := value?_stringText n depth s hcomma
  obtain ⟨c, ds, htext, hc⟩ := exists_stringText s
  rw [htext, List.cons_append] at h hread
  rw [items?]
  obtain rfl | rfl := hc <;> simp [h, hread, skipLines, isWs, Option.map_eq_bind]

theorem skipLines_stringText (s : String) (rest : List Char) :
    skipLines false (stringText s ++ rest) = stringText s ++ rest := by
  obtain ⟨c, cs, htext, hc⟩ := exists_stringText s
  rw [htext, List.cons_append]
  obtain rfl | rfl := hc <;> simp [skipLines, isWs]

/-- The lines of an array, one for each item. -/
def itemLines (ss : List String) : List Char :=
  ss.flatMap fun s => "    ".toList ++ stringText s ++ ",\n".toList

theorem items?_itemLines {n : ℕ} (depth : ℕ) {ss : List String} (hn : ss.length < n)
    (rest : List Char) :
    items? n depth ('\n' :: (itemLines ss ++ ']' :: rest)) = some (ss.map .string, rest) := by
  induction ss generalizing n with
  | nil =>
    obtain ⟨n, rfl⟩ : ∃ k, n = k + 1 := Nat.exists_eq_succ_of_ne_zero (by omega)
    simp [items?, itemLines, skipLines, isWs]
  | cons s ss ih =>
    obtain ⟨n, rfl⟩ : ∃ k, n = k + 2 := ⟨n - 2, by simp at hn; omega⟩
    have hindent (cs : List Char) :
        skipLines false ('\n' :: ' ' :: ' ' :: ' ' :: ' ' :: cs) = skipLines false cs := by
      simp [skipLines, isWs]
    have htext : '\n' :: (itemLines (s :: ss) ++ ']' :: rest) = '\n' :: ' ' :: ' ' :: ' ' :: ' ' ::
        (stringText s ++ ',' :: '\n' :: (itemLines ss ++ ']' :: rest)) := by
      simp [itemLines]
    have hskip : skipLines false ('\n' :: (itemLines (s :: ss) ++ ']' :: rest)) =
        stringText s ++ ',' :: '\n' :: (itemLines ss ++ ']' :: rest) := by
      rw [htext, hindent, skipLines_stringText]
    have hlength : ss.length < n + 1 := by
      rw [List.length_cons] at hn
      omega
    rw [items?_more hskip, ih hlength]
    rfl

/-- An array of strings is read back. -/
theorem value?_arrayText {n : ℕ} (depth : ℕ) {ss : List String} (hn : ss.length + 1 < n)
    (rest : List Char) :
    value? n (depth + 1) (arrayText ss ++ rest) = some (.array (ss.map .string), rest) := by
  match ss with
  | [] =>
    obtain ⟨n, rfl⟩ : ∃ k, n = k + 2 := ⟨n - 2, by omega⟩
    simp [arrayText, value?, items?, skipLines, isWs]
  | [s] =>
    obtain ⟨n, rfl⟩ : ∃ k, n = k + 3 := ⟨n - 3, by simp at hn; omega⟩
    have htext : arrayText [s] ++ rest = '[' :: (stringText s ++ ']' :: rest) := by
      simp [arrayText]
    rw [htext, value?, items?_last (skipLines_stringText s (']' :: rest))]
    rfl
  | s :: t :: ss =>
    obtain ⟨n, rfl⟩ : ∃ k, n = k + 1 := Nat.exists_eq_succ_of_ne_zero (by omega)
    have hlength : (s :: t :: ss).length < n := by omega
    have hitems := items?_itemLines depth hlength rest
    have htext : arrayText (s :: t :: ss) ++ rest =
        '[' :: '\n' :: (itemLines (s :: t :: ss) ++ ']' :: rest) := by
      simp [arrayText, itemLines]
    rw [htext, value?, hitems]
    rfl

/-! ## fields -/

/-- The value that a field is read as. -/
def Field.toValue : Field → Value
  | .string s => .string s
  | .unsigned n => .integer n
  | .float x => .float (canonical x)
  | .boolean b => .boolean b
  | .strings ss => .array (ss.map .string)

/-- What begins as no string, array, table or truth value is read as a number. -/
theorem value?_number (n depth : ℕ) {c : Char} (hc : c ∉ ['[', '\x7b', 't', 'f', '\x22', '\''])
    (cs : List Char) : value? (n + 1) depth (c :: cs) = number? (c :: cs) := by
  simp only [List.mem_cons, List.not_mem_nil, or_false, not_or] at hc
  obtain ⟨harray, htable, htrue, hfalse, hdouble, hsingle⟩ := hc
  rw [value?.eq_def]
  split <;> simp_all

/-- A number begins with a digit, a sign or the letter of a name. -/
theorem not_mem_of_digit? {c : Char} (hc : (digit? c).isSome) :
    c ∉ ['[', '\x7b', 't', 'f', '\x22', '\''] ∧ isWs c = false := by
  have hne (d : Char) (hd : digit? d = none) : c ≠ d := ne_of_isSome_digit? hc hd
  have hspace := hne ' ' rfl
  have htab := hne '\t' rfl
  refine ⟨?_, by simp [isWs, hspace, htab]⟩
  simp [hne '[' rfl, hne '\x7b' rfl, hne 't' rfl, hne 'f' rfl, hne '\x22' rfl, hne '\'' rfl]

theorem exists_floatText_cons (x : Binary64) :
    ∃ c cs, floatText x = c :: cs ∧ c ∉ ['[', '\x7b', 't', 'f', '\x22', '\''] ∧
      isWs c = false := by
  unfold floatText
  by_cases hnan : x.isNaN
  · rw [if_pos hnan]
    exact ⟨'n', ['a', 'n'], rfl, by decide, rfl⟩
  rw [if_neg hnan]
  simp only
  cases x.negative with
  | true =>
    by_cases hinfinite : x.isInfinite
    · rw [if_pos hinfinite]
      exact ⟨'-', ['i', 'n', 'f'], rfl, by decide, rfl⟩
    · rw [if_neg hinfinite, if_pos rfl, String.append_assoc, String.toList_append]
      exact ⟨'-', _, rfl, by decide, rfl⟩
  | false =>
    by_cases hinfinite : x.isInfinite
    · rw [if_pos hinfinite]
      exact ⟨'i', ['n', 'f'], rfl, by decide, rfl⟩
    · obtain ⟨a, -, f, htext, -⟩ := exists_floatText (magnitude_lt_infinity hnan hinfinite)
      obtain ⟨d, ds, hds, hd⟩ := exists_toDigits a
      rw [if_neg hinfinite, if_neg Bool.false_ne_true, String.append_assoc, String.toList_append,
        htext, hds]
      exact ⟨d, ds ++ '.' :: f, rfl, not_mem_of_digit? hd⟩

theorem length_lt_arrayText (ss : List String) : ss.length + 1 < (arrayText ss).length + 1 := by
  have hitems (ss : List String) : ss.length ≤ (itemLines ss).length := by
    induction ss with
    | nil => exact Nat.le_refl 0
    | cons s ss ih => simp [itemLines] at ih ⊢; omega
  match ss with
  | [] => simp [arrayText]
  | [s] => simp [arrayText]
  | s :: t :: ss =>
    have hlength := hitems (s :: t :: ss)
    have htext : arrayText (s :: t :: ss) = "[\n".toList ++ itemLines (s :: t :: ss) ++ [']'] := rfl
    rw [htext]
    simp at hlength ⊢
    omega

theorem text?_unsigned {n : ℕ} {t : List Char} (h : (Field.unsigned n).text? = some t) :
    integerInRange n ∧ t = Nat.toDigits 10 n := by
  rw [Field.text?, Option.ite_none_right_eq_some] at h
  exact ⟨h.1, by simpa [Nat.toString_eq_repr, eq_comm] using h.2⟩

/-- The value of every field that can be written is read back. -/
theorem value?_text {f : Field} {t : List Char} (h : f.text? = some t) {n : ℕ} (hn : t.length < n)
    (depth : ℕ) (cs : List Char) :
    value? n (depth + 1) (t ++ '\n' :: cs) = some (f.toValue, '\n' :: cs) := by
  cases f with
  | string s =>
    obtain rfl := Option.some.inj h
    obtain ⟨n, rfl⟩ : ∃ k, n = k + 1 := Nat.exists_eq_succ_of_ne_zero (by omega)
    exact value?_stringText n _ s (by simp [NoQuote])
  | unsigned k =>
    obtain ⟨hk, rfl⟩ := text?_unsigned h
    obtain ⟨n, rfl⟩ : ∃ k, n = k + 1 := Nat.exists_eq_succ_of_ne_zero (by omega)
    have hread := number?_toDigits hk cs
    obtain ⟨d, ds, hds, hd⟩ := exists_toDigits k
    rw [hds, List.cons_append] at hread ⊢
    rw [value?_number n _ (not_mem_of_digit? hd).1, hread]
    rfl
  | float x =>
    obtain rfl := Option.some.inj h
    obtain ⟨n, rfl⟩ : ∃ k, n = k + 1 := Nat.exists_eq_succ_of_ne_zero (by omega)
    have hread := number?_floatText x cs
    obtain ⟨c, ds, htext, hc, -⟩ := exists_floatText_cons x
    rw [htext, List.cons_append] at hread ⊢
    rw [value?_number n _ hc, hread]
    rfl
  | boolean b =>
    obtain rfl := Option.some.inj h
    obtain ⟨n, rfl⟩ : ∃ k, n = k + 1 := Nat.exists_eq_succ_of_ne_zero (by omega)
    cases b <;> simp [booleanText, value?, Field.toValue]
  | strings ss =>
    obtain rfl := Option.some.inj h
    have hlength := length_lt_arrayText ss
    exact value?_arrayText depth (by omega) _

/-- No text of a field begins with a blank. -/
theorem skipWs_text {f : Field} {t : List Char} (h : f.text? = some t) (cs : List Char) :
    skipWs (t ++ cs) = t ++ cs := by
  have hskip {c : Char} (hc : isWs c = false) (ds : List Char) : skipWs (c :: ds) = c :: ds := by
    simp [skipWs, hc]
  cases f with
  | string s =>
    obtain rfl := Option.some.inj h
    obtain ⟨c, ds, htext, hc⟩ := exists_stringText s
    rw [htext]
    obtain rfl | rfl := hc <;> exact hskip rfl _
  | unsigned k =>
    obtain ⟨-, rfl⟩ := text?_unsigned h
    obtain ⟨d, ds, hds, hd⟩ := exists_toDigits k
    rw [hds]
    exact hskip (not_mem_of_digit? hd).2 _
  | float x =>
    obtain rfl := Option.some.inj h
    obtain ⟨c, ds, htext, -, hc⟩ := exists_floatText_cons x
    rw [htext]
    exact hskip hc _
  | boolean b =>
    obtain rfl := Option.some.inj h
    cases b <;> exact hskip rfl _
  | strings ss =>
    obtain rfl := Option.some.inj h
    match ss with
    | [] | [s] | s :: t :: ss => exact hskip rfl _

/-! ## keys -/

/-- A key that is written without quotes. -/
def IsBareKey (key : String) : Prop :=
  key.toList ≠ [] ∧ ∀ c ∈ key.toList, isBareKeyChar c

instance (key : String) : Decidable (IsBareKey key) :=
  decidable_of_iff (key.toList ≠ [] ∧ key.toList.all isBareKeyChar) (by simp [IsBareKey])

/-- A key as it is written: bare if it can be, else between double quotes. -/
def keyText (key : String) : List Char :=
  if IsBareKey key then key.toList else '\x22' :: (key.toList.flatMap escape ++ ['\x22'])

/-- A character that a key can begin with. -/
def StartsKey (c : Char) : Prop :=
  isBareKeyChar c ∨ c = '\x22'

theorem StartsKey.ne {c d : Char} (hc : StartsKey c) (hd : isBareKeyChar d = false)
    (hquote : d ≠ '\x22') : c ≠ d := by
  rintro rfl
  exact hc.elim (by simp [hd]) hquote

theorem exists_bareKey {key : String} (hk : IsBareKey key) :
    ∃ c cs, key.toList = c :: cs ∧ isBareKeyChar c := by
  obtain ⟨c, cs, hkey⟩ := List.exists_cons_of_ne_nil hk.1
  exact ⟨c, cs, hkey, hk.2 c (by rw [hkey]; exact List.mem_cons_self)⟩

theorem exists_keyText (key : String) : ∃ c cs, keyText key = c :: cs ∧ StartsKey c := by
  unfold keyText
  split
  · next hk =>
    obtain ⟨c, cs, hkey, hc⟩ := exists_bareKey hk
    exact ⟨c, cs, hkey, .inl hc⟩
  · exact ⟨_, _, rfl, .inr rfl⟩

theorem keyPart?_bare {key : String} (hk : IsBareKey key) (cs : List Char) :
    keyPart? (key.toList ++ ' ' :: cs) = some (key, ' ' :: cs) := by
  have htake : (key.toList ++ ' ' :: cs).takeWhile isBareKeyChar = key.toList := by
    rw [List.takeWhile_append_of_pos hk.2]
    simp [isBareKeyChar]
  have hdrop : (key.toList ++ ' ' :: cs).dropWhile isBareKeyChar = ' ' :: cs := by
    rw [List.dropWhile_append_of_pos hk.2]
    simp [isBareKeyChar]
  have hname : String.ofList key.toList = key := by simp
  obtain ⟨c, ds, hkey, hc⟩ := exists_bareKey hk
  have hdouble : c ≠ '\x22' := by rintro rfl; cases hc
  have hsingle : c ≠ '\'' := by rintro rfl; cases hc
  rw [hkey] at htake hdrop hname
  rw [hkey, keyPart?.eq_def]
  split <;> simp_all

theorem keyPart?_keyText (key : String) (cs : List Char) :
    keyPart? (keyText key ++ ' ' :: cs) = some (key, ' ' :: cs) := by
  unfold keyText
  split
  · next hk => exact keyPart?_bare hk cs
  · have hread := basic?_flatMap_escape key.toList (' ' :: cs)
    simp [keyPart?, hread]

theorem key?_keyText (key : String) (cs : List Char) :
    key? (keyText key ++ ' ' :: '=' :: cs) = some ([], key, '=' :: cs) := by
  have hpart := keyPart?_keyText key ('=' :: cs)
  have hskip : skipWs (keyText key ++ ' ' :: '=' :: cs) = keyText key ++ ' ' :: '=' :: cs := by
    obtain ⟨c, ds, hkey, hc⟩ := exists_keyText key
    have hspace : c ≠ ' ' := hc.ne (by decide) (by decide)
    have htab : c ≠ '\t' := hc.ne (by decide) (by decide)
    simp [hkey, skipWs, isWs, hspace, htab]
  have hequals : skipWs (' ' :: '=' :: cs) = '=' :: cs := by simp [skipWs, isWs]
  have hkeys : keyOf? maxKeyParts (keyText key ++ ' ' :: '=' :: cs) = some ([key], '=' :: cs) := by
    unfold maxKeyParts
    rw [keyOf?]
    simp [hskip, hpart, hequals]
  simp [key?, hkeys]

/-! ## lines -/

/-- The text is read as the value, whatever lines follow.  Blanks may stand around what
spells the value, and a comment after it. -/
def Denotes (text : List Char) (v : Value) : Prop :=
  ∀ (n : ℕ) (rest : List Char), text.length + rest.length + 1 < n →
    ∃ tail, value? n maxDepth (skipWs (text ++ '\n' :: rest)) = some (v, tail) ∧
      lineEnd? tail = some rest

/-- A line of a document: a key, and what is written for its value. -/
structure Line where
  key : String
  text : List Char
  value : Value
  denotes : Denotes text value

namespace Line

/-- The characters of a line. -/
def toText (l : Line) : List Char :=
  keyText l.key ++ " = ".toList ++ l.text ++ ['\n']

/-- The entry that a line makes. -/
def entry (l : Line) : String × Value :=
  (l.key, l.value)

/-- Lines, one after the other. -/
def document (ls : List Line) : List Char :=
  ls.flatMap toText

theorem exists_toText (l : Line) : ∃ c cs, l.toText = c :: cs ∧ StartsKey c := by
  obtain ⟨c, cs, hkey, hc⟩ := exists_keyText l.key
  exact ⟨c, _, by rw [toText, hkey]; rfl, hc⟩

/-- A line is read as the entry that it makes. -/
theorem statement?_toText (l : Line) (rest : List Char) :
    statement? (l.toText ++ rest) = some (.entry [] l.key l.value, rest) := by
  have htext : l.toText ++ rest =
      keyText l.key ++ ' ' :: '=' :: ' ' :: (l.text ++ '\n' :: rest) := by
    simp [toText]
  have hkey := key?_keyText l.key (' ' :: (l.text ++ '\n' :: rest))
  have hblank : skipWs (' ' :: (l.text ++ '\n' :: rest)) = skipWs (l.text ++ '\n' :: rest) := by
    simp [skipWs, isWs]
  obtain ⟨tail, hvalue, hend⟩ := l.denotes ((' ' :: (l.text ++ '\n' :: rest)).length + 1) rest
    (by simp only [List.length_cons, List.length_append]; omega)
  obtain ⟨c, cs, hname, hc⟩ := exists_keyText l.key
  have hbracket : c ≠ '[' := hc.ne (by decide) (by decide)
  rw [htext]
  rw [hname, List.cons_append] at hkey ⊢
  rw [statement?.eq_def]
  split
  · simp_all
  · simp_all
  · rw [hkey]
    simp only [Option.bind_eq_bind, Option.bind_some, hblank, hvalue, hend]

/-- The statements of a document are its lines. -/
theorem statementsIn?_document {ls : List Line} {n : ℕ} (hn : ls.length < n) :
    statementsIn? n (document ls) = some (ls.map fun l => .entry [] l.key l.value) := by
  obtain ⟨n, rfl⟩ : ∃ k, n = k + 1 := Nat.exists_eq_succ_of_ne_zero (by omega)
  induction ls generalizing n with
  | nil => simp [statementsIn?, document, skipWs]
  | cons l ls ih =>
    rw [List.length_cons] at hn
    obtain ⟨n, rfl⟩ : ∃ k, n = k + 1 := Nat.exists_eq_succ_of_ne_zero (by omega)
    have hrest := ih n (by omega)
    have hstatement := l.statement?_toText (document ls)
    obtain ⟨c, cs, htext, hc⟩ := l.exists_toText
    have hne (d : Char) (hd : isBareKeyChar d = false) (hquote : d ≠ '\x22') : c ≠ d :=
      hc.ne hd hquote
    have hskip : skipWs (c :: (cs ++ document ls)) = c :: (cs ++ document ls) := by
      simp [skipWs, isWs, hne ' ' (by decide) (by decide), hne '\t' (by decide) (by decide)]
    have hdocument : document (l :: ls) = l.toText ++ document ls := rfl
    rw [hdocument]
    rw [htext, List.cons_append] at hstatement ⊢
    rw [statementsIn?, hskip]
    simp [hne '#' (by decide) (by decide), hne '\n' (by decide) (by decide),
      hne '\r' (by decide) (by decide), hstatement, hrest]

theorem dropMark_document (ls : List Line) : dropMark (document ls) = document ls := by
  cases ls with
  | nil => rfl
  | cons l ls =>
    obtain ⟨c, cs, htext, hc⟩ := l.exists_toText
    have hmark : c ≠ '\uFEFF' := hc.ne (by decide) (by decide)
    have hdocument : document (l :: ls) = c :: (cs ++ document ls) := by
      rw [document, List.flatMap_cons, htext]
      rfl
    rw [hdocument, dropMark.eq_def]
    split
    · simp_all
    · rfl

theorem length_le_document (ls : List Line) : ls.length ≤ (document ls).length := by
  induction ls with
  | nil => exact Nat.zero_le _
  | cons l ls ih =>
    obtain ⟨c, cs, htext, -⟩ := l.exists_toText
    have hdocument : document (l :: ls) = c :: (cs ++ document ls) := by
      rw [document, List.flatMap_cons, htext]
      rfl
    rw [hdocument, List.length_cons, List.length_cons, List.length_append]
    omega

theorem statements?_document (ls : List Line) :
    statements? (document ls) = some (ls.map fun l => .entry [] l.key l.value) := by
  have hlength := length_le_document ls
  rw [statements?, dropMark_document]
  exact statementsIn?_document (by omega)

end Line

/-! ## the document -/

theorem replace_of_lookup {key : String} (node : Node) {es : List (String × Node)}
    (h : Table.lookup key es = none) : Table.replace key node es = es ++ [(key, node)] := by
  induction es with
  | nil => rfl
  | cons e es ih =>
    unfold Table.lookup at h
    split at h
    · cases h
    · next hne => simp [Table.replace, hne, ih h]

theorem lookup_append (key : String) (es fs : List (String × Node)) :
    Table.lookup key (es ++ fs) = (Table.lookup key es).or (Table.lookup key fs) := by
  induction es with
  | nil => rfl
  | cons e es ih =>
    simp only [List.cons_append, Table.lookup]
    split
    · rfl
    · exact ih

/-- A new key of the root goes to the end. -/
theorem add?_entry {key : String} {es : List (String × Node)} (h : Table.lookup key es = none)
    (v : Value) :
    Draft.add? { root := ⟨false, false, es⟩ } (.entry [] key v) =
      some { root := ⟨false, false, es ++ [(key, .value v)]⟩ } := by
  have hfind : Table.find? ⟨false, false, es⟩ key = none := h
  have hput : Table.put ⟨false, false, es⟩ key (.value v) =
      ⟨false, false, es ++ [(key, .value v)]⟩ := by
    simp only [Table.put, Table.implicit, Table.dotted, Table.entries, replace_of_lookup _ h]
  simp [Draft.add?, Table.update, Table.addEntry, Table.dotted, hfind, hput]

/-- Entries under different keys are kept in order. -/
theorem foldlM_add? {vs : List (String × Value)} (hkeys : (vs.map Prod.fst).Nodup)
    {es : List (String × Node)} (hnew : ∀ e ∈ vs, Table.lookup e.1 es = none) :
    (vs.map fun (k, v) => Statement.entry [] k v).foldlM Draft.add? { root := ⟨false, false, es⟩ } =
      some { root := ⟨false, false, es ++ vs.map fun (k, v) => (k, .value v)⟩ } := by
  induction vs generalizing es with
  | nil => simp
  | cons e vs ih =>
    obtain ⟨key, v⟩ := e
    rw [List.map_cons, List.nodup_cons] at hkeys
    have hkey : Table.lookup key es = none := hnew (key, v) List.mem_cons_self
    have hnext (e : String × Value) (he : e ∈ vs) :
        Table.lookup e.1 (es ++ [(key, .value v)]) = none := by
      have hne : key ≠ e.1 := fun heq => hkeys.1 (List.mem_map.2 ⟨e, he, heq.symm⟩)
      rw [lookup_append, hnew e (List.mem_cons_of_mem _ he)]
      simp [Table.lookup, hne]
    rw [List.map_cons, List.foldlM_cons, add?_entry hkey]
    simpa using ih hkeys.2 hnext

theorem entriesToValues_map (vs : List (String × Value)) :
    Table.entriesToValues (vs.map fun (k, v) => (k, .value v)) = vs := by
  induction vs with
  | nil => rfl
  | cons e vs ih =>
    simp only [List.map_cons, Table.entriesToValues, Node.toValue, ih]

/-- Lines with different keys are read as their entries, in order. -/
theorem document?_lines {ls : List Line} (hkeys : (ls.map Line.key).Nodup) :
    document? (Line.document ls) = some (ls.map Line.entry) := by
  have hentries : (ls.map fun l => Statement.entry [] l.key l.value) =
      (ls.map Line.entry).map fun (k, v) => .entry [] k v := by
    rw [List.map_map]
    rfl
  have hnodup : ((ls.map Line.entry).map Prod.fst).Nodup := by
    rw [List.map_map]
    exact hkeys
  have hfold := @foldlM_add? _ hnodup [] (fun _ _ => rfl)
  have hroot : Table.toEntries ⟨false, false, (ls.map Line.entry).map fun (k, v) => (k, .value v)⟩ =
      ls.map Line.entry :=
    entriesToValues_map _
  have hempty : ({} : Draft) = { root := ⟨false, false, []⟩ } := rfl
  rw [document?, Line.statements?_document, Option.bind_eq_bind, Option.bind_some, hentries]
  rw [List.nil_append] at hfold
  rw [hempty, hfold, Option.bind_eq_bind, Option.bind_some, hroot]

/-! ## documents of fields -/

/-- What is written for a field denotes its value. -/
theorem denotes_text {f : Field} {t : List Char} (h : f.text? = some t) : Denotes t f.toValue := by
  intro n rest hn
  refine ⟨'\n' :: rest, ?_, ?_⟩
  · rw [skipWs_text h]
    exact value?_text h (by omega) 78 rest
  · simp [lineEnd?, skipWs, isWs, skipComment, newline?]

/-- The line of a field that can be written. -/
def Line.ofField (key : String) (f : Field) (h : f.text?.isSome) : Line :=
  ⟨key, f.text?.get h, f.toValue, denotes_text (Option.some_get h).symm⟩

theorem written?_cons {key : String} {f : Field} {fields : List (String × Field)} {text : List Char}
    (h : written? ((key, f) :: fields) = some text) :
    ∃ l more, line? key f = some l ∧ written? fields = some more ∧ text = l ++ more := by
  unfold written? at h ⊢
  rw [List.mapM_cons] at h
  cases hl : line? key f with
  | none => simp [hl] at h
  | some l =>
    cases hls : fields.mapM fun (k, f) => line? k f with
    | none => simp [hl, hls] at h
    | some ls =>
      refine ⟨l, ls.flatten, rfl, rfl, ?_⟩
      simpa [hl, hls, eq_comm] using h

/-- Fields under bare keys are written in lines. -/
theorem exists_lines {fields : List (String × Field)} (hkeys : ∀ e ∈ fields, IsBareKey e.1)
    {text : List Char} (h : written? fields = some text) :
    ∃ ls, Line.document ls = text ∧
      ls.map Line.entry = fields.map fun (k, f) => (k, f.toValue) := by
  induction fields generalizing text with
  | nil => exact ⟨[], by simpa [written?, Line.document] using h, rfl⟩
  | cons e fields ih =>
    obtain ⟨key, f⟩ := e
    obtain ⟨l, more, hl, hmore, rfl⟩ := written?_cons h
    obtain ⟨t, ht, rfl⟩ := Option.map_eq_some_iff.1 hl
    obtain ⟨ls, rfl, hentries⟩ := ih (fun e he => hkeys e (List.mem_cons_of_mem _ he)) hmore
    have hkey : keyText key = key.toList := if_pos (hkeys (key, f) List.mem_cons_self)
    refine ⟨⟨key, t, f.toValue, denotes_text ht⟩ :: ls, ?_, ?_⟩
    · rw [Line.document, List.flatMap_cons, Line.toText, hkey]
      rfl
    · rw [List.map_cons, List.map_cons, hentries]
      rfl

/-- A document of entries under different bare keys is read as these entries. -/
theorem document?_written {fields : List (String × Field)} (hkeys : ∀ e ∈ fields, IsBareKey e.1)
    (hnodup : (fields.map Prod.fst).Nodup) {text : List Char} (h : written? fields = some text) :
    document? text = some (fields.map fun (k, f) => (k, f.toValue)) := by
  obtain ⟨ls, rfl, hentries⟩ := exists_lines hkeys h
  have hnames : ls.map Line.key = fields.map Prod.fst := by
    have hfirst := congrArg (List.map Prod.fst) hentries
    simpa [List.map_map, Function.comp_def, Line.entry] using hfirst
  rw [document?_lines (hnames ▸ hnodup), hentries]

end BrowserHost.Toml
