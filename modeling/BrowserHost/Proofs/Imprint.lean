import BrowserHost.Event.Timestamp
import BrowserHost.Event.Uuid
import BrowserHost.Proofs.Decimal

/-!
# BrowserHost.Proofs.Imprint

What is stamped on an event: its identifier and its moment, written and read
again.

* `Uuid.ofText?_toText`: every identifier is read back;
* `Timestamp.IsReadable`: the moments that the reader can produce, in any spelling
  and with any offset;
* `Timestamp.ofText?_toText`: each of them is read back from its written form.
-/

namespace BrowserHost.Event

open Text

/-! ## identifiers -/

namespace Uuid

theorem takeGroup?_append {n : Nat} {ds : List Char} (h : ds.length = n) (rest : List Char) :
    takeGroup? n (ds ++ '-' :: rest) = some (ds, rest) := by
  subst h
  simp [takeGroup?]

theorem mapM_hexDigit?_map (ds : List (Fin 16)) : (ds.map hexChar).mapM hexDigit? = some ds := by
  induction ds with
  | nil => rfl
  | cons d ds ih => simp [ih, hexDigit?_hexChar]

theorem ofSimple?_map (u : Uuid) : ofSimple? (u.digits.map hexChar) = some u := by
  rw [ofSimple?, mapM_hexDigit?_map]
  simp [ofDigits?, u.length_digits]

/-- No digit is taken for the beginning of another form. -/
theorem hexChar_ne (d : Fin 16) : hexChar d ≠ '\x7b' ∧ hexChar d ≠ 'u' := by
  revert d
  decide

theorem take_append_drop_add {α : Type} (n k : Nat) (cs : List α) :
    (cs.drop n).take k ++ cs.drop (n + k) = cs.drop n := by
  rw [← List.drop_drop, List.take_append_drop]

/-- The written form, group by group. -/
theorem toText_eq (u : Uuid) : ∃ a b c d e : List Char,
    u.toText = a ++ '-' :: (b ++ '-' :: (c ++ '-' :: (d ++ '-' :: e))) ∧
      a.length = 8 ∧ b.length = 4 ∧ c.length = 4 ∧ d.length = 4 ∧ e.length = 12 ∧
      a ++ b ++ c ++ d ++ e = u.digits.map hexChar := by
  have hlength : (u.digits.map hexChar).length = 32 := by rw [List.length_map, u.length_digits]
  unfold toText
  generalize u.digits.map hexChar = cs at hlength
  refine ⟨cs.take 8, (cs.drop 8).take 4, (cs.drop 12).take 4, (cs.drop 16).take 4, cs.drop 20,
    by simp, ?_, ?_, ?_, ?_, ?_, ?_⟩
  · simp [hlength]
  · simp [hlength]
  · simp [hlength]
  · simp [hlength]
  · simp [hlength]
  · simp only [List.append_assoc, take_append_drop_add 16 4, take_append_drop_add 12 4,
      take_append_drop_add 8 4, List.take_append_drop]

/-- Every identifier is read back. -/
theorem ofText?_toText (u : Uuid) : ofText? u.toText = some u := by
  obtain ⟨a, b, c, d, e, htext, ha, hb, hc, hd, he, hall⟩ := u.toText_eq
  have hgroups : ofHyphenated? u.toText = some u := by
    simp only [ofHyphenated?, htext, takeGroup?_append ha, takeGroup?_append hb,
      takeGroup?_append hc, takeGroup?_append hd, Option.bind_eq_bind, Option.bind_some, hall,
      ofSimple?_map]
  -- the form is told from the others by its first character and its length
  obtain ⟨x, xs, hx⟩ : ∃ x xs, u.toText = hexChar x :: xs := by
    obtain ⟨x, ds, hds⟩ : ∃ x ds, u.digits = x :: ds :=
      List.exists_cons_of_ne_nil fun hnil => by simpa [hnil] using u.length_digits
    exact ⟨x, _, by simp [toText, hds]; rfl⟩
  have hlength : u.toText.length = 36 := by simp [htext, ha, hb, hc, hd, he]
  obtain ⟨hbrace, hname⟩ := hexChar_ne x
  rw [hx, List.length_cons] at hlength
  rw [hx] at hgroups ⊢
  simp [ofText?, hbrace, hname, hgroups, Nat.succ.inj hlength]

end Uuid

/-! ## dates -/

theorem daysInMonth_bounds (year : Int) (month : Nat) :
    28 ≤ daysInMonth year month ∧ daysInMonth year month ≤ 31 := by
  unfold daysInMonth
  split_ifs <;> decide

namespace Date

theorem isValid_iff (d : Date) : d.isValid ↔
    yearInRange d.year ∧ 1 ≤ d.month ∧ d.month ≤ 12 ∧ 1 ≤ d.day ∧
      d.day ≤ daysInMonth d.year d.month := by
  simp [isValid, and_assoc]

theorem isValid_next {d : Date} (h : d.isValid) (hyear : yearInRange d.next.year) :
    d.next.isValid := by
  obtain ⟨-, hmonth, hmonth', hday, hday'⟩ := d.isValid_iff.1 h
  rw [isValid_iff]
  refine ⟨hyear, ?_⟩
  unfold next
  split_ifs with hd hm
  · exact ⟨hmonth, hmonth', by simp only; omega, hd⟩
  · have hdays := daysInMonth_bounds d.year (d.month + 1)
    exact ⟨by simp only; omega, hm, Nat.le_refl 1, by simp only; omega⟩
  · simp [daysInMonth]

theorem isValid_prev {d : Date} (h : d.isValid) (hyear : yearInRange d.prev.year) :
    d.prev.isValid := by
  obtain ⟨-, hmonth, hmonth', hday, hday'⟩ := d.isValid_iff.1 h
  rw [isValid_iff]
  refine ⟨hyear, ?_⟩
  unfold prev
  split_ifs with hd hm
  · exact ⟨hmonth, hmonth', by simp only; omega, by simp only; omega⟩
  · have hdays := daysInMonth_bounds d.year (d.month - 1)
    exact ⟨by simp only; omega, by simp only; omega, by simp only; omega, Nat.le_refl _⟩
  · simp [daysInMonth]

end Date

/-! ## fields of digits -/

namespace Timestamp

theorem noDigit_cons {c : Char} (h : digit? c = none) (rest : List Char) :
    ∀ d ∈ (c :: rest).head?, digit? d = none := by
  intro d hd
  rwa [← Option.some.inj hd]

/-- The reader takes digits as long as there are some, up to the count. -/
theorem takeDigits_append {n : Nat} {ds rest : List Char} (hds : AllDigits ds)
    (hn : ds.length ≤ n) (hrest : ds.length = n ∨ ∀ c ∈ rest.head?, digit? c = none) :
    takeDigits n (ds ++ rest) = (ds, rest) := by
  induction ds generalizing n with
  | nil =>
    cases n with
    | zero => simp [takeDigits]
    | succ n =>
      cases rest with
      | nil => rfl
      | cons c rest =>
        have hc : digit? c = none := hrest.resolve_left (by simp) c rfl
        simp [takeDigits, hc]
  | cons d ds ih =>
    obtain ⟨n, rfl⟩ : ∃ k, n = k + 1 := Nat.exists_eq_succ_of_ne_zero (by simp at hn; omega)
    have hd : (digit? d).isSome := hds d List.mem_cons_self
    have hrest' : ds.length = n ∨ ∀ c ∈ rest.head?, digit? c = none :=
      hrest.imp_left (by simp)
    simp [takeDigits, hd, ih (fun c hc => hds c (.tail d hc)) (by simpa using hn) hrest']

/-- Digits are no blanks. -/
theorem not_isBlank_of_digit {c : Char} (h : (digit? c).isSome) : isBlank c = false := by
  unfold digit? at h
  split at h
  · next hc =>
    have hlow : '0'.toNat ≤ c.toNat := hc.1
    have hhigh : c.toNat ≤ '9'.toNat := hc.2
    simp only [Char.reduceToNat] at hlow hhigh
    simp [isBlank]
    omega
  · cases h

theorem trimLeft_cons {c : Char} (h : isBlank c = false) (cs : List Char) :
    trimLeft (c :: cs) = c :: cs := by
  simp [trimLeft, h]

theorem trimLeft_append {ds : List Char} (hds : AllDigits ds) (hne : ds ≠ []) (rest : List Char) :
    trimLeft (ds ++ rest) = ds ++ rest := by
  obtain ⟨d, ds, rfl⟩ := List.exists_cons_of_ne_nil hne
  exact trimLeft_cons (not_isBlank_of_digit (hds d List.mem_cons_self)) _

/-- A number that fills its field is read. -/
theorem number?_append {ds : List Char} {width n : Nat} (hds : AllDigits ds)
    (hlength : ds.length = width) (hn : digits? ds = some n) (rest : List Char) :
    number? width (ds ++ rest) = some (n, rest) := by
  have hne : ds ≠ [] := by
    rintro rfl
    cases hn
  rw [number?, trimLeft_append hds hne,
    takeDigits_append hds (Nat.le_of_eq hlength) (.inl hlength)]
  simp [hn]

theorem number?_padLeft {width n : Nat} (hwidth : 0 < width) (hn : n < 10 ^ width)
    (rest : List Char) :
    number? width ((padLeft width '0' (toString n)).toList ++ rest) = some (n, rest) :=
  number?_append (allDigits_padLeft width n) (length_padLeft hwidth hn) (digits?_padLeft width n)
    rest

theorem number?_twoDigits {n : Nat} (hn : n < 100) (rest : List Char) :
    number? 2 ((twoDigits n).toList ++ rest) = some (n, rest) :=
  number?_padLeft (by decide) hn rest

theorem mark?_cons {mark : Char} (h : isBlank mark = false) (rest : List Char) :
    mark? mark (mark :: rest) = some rest := by
  simp [mark?, trimLeft_cons h]

/-- A year of four digits. -/
theorem year?_append {ds : List Char} {n : Nat} (hds : AllDigits ds) (hlength : ds.length = 4)
    (hn : digits? ds = some n) (rest : List Char) :
    year? (ds ++ rest) = some ((n : Int), rest) := by
  obtain ⟨d, cs, rfl⟩ := List.exists_cons_of_length_eq_add_one hlength
  have hd : (digit? d).isSome := hds d List.mem_cons_self
  have hminus : d ≠ '-' := ne_of_isSome_digit? hd rfl
  have hplus : d ≠ '+' := ne_of_isSome_digit? hd rfl
  have hnumber := number?_append hds hlength hn rest
  rw [List.cons_append] at hnumber ⊢
  rw [year?, trimLeft_cons (not_isBlank_of_digit hd)]
  simp [hminus, hplus, hnumber]

/-- A year of any number of digits, behind a sign. -/
theorem year?_signed {ds : List Char} {n : Nat} (hds : AllDigits ds) (hn : digits? ds = some n)
    (rest : List Char) :
    year? ('+' :: (ds ++ '-' :: rest)) = some ((n : Int), '-' :: rest) ∧
      year? ('-' :: (ds ++ '-' :: rest)) = some (-(n : Int), '-' :: rest) := by
  have htake : takeDigits (ds ++ '-' :: rest).length (ds ++ '-' :: rest) = (ds, '-' :: rest) :=
    takeDigits_append hds (by simp) (.inr (noDigit_cons rfl rest))
  constructor
  · rw [year?, trimLeft_cons (by decide)]
    simp only [htake, hn]
    rfl
  · rw [year?, trimLeft_cons (by decide)]
    simp only [htake, hn]
    rfl

/-- A year is read back, with its sign. -/
theorem year?_yearText (year : Int) (rest : List Char) :
    year? ((yearText year).toList ++ '-' :: rest) = some (year, '-' :: rest) := by
  have hsigned (n : Nat) := year?_signed (allDigits_padLeft 4 n) (digits?_padLeft 4 n) rest
  unfold yearText
  split_ifs with hfour hpos
  · have hread := year?_append (allDigits_padLeft 4 year.toNat)
      (length_padLeft (by decide) (by omega)) (digits?_padLeft 4 year.toNat) ('-' :: rest)
    rwa [Int.toNat_of_nonneg hfour.1] at hread
  · have hread := (hsigned year.toNat).1
    rw [Int.toNat_of_nonneg hpos] at hread
    rw [String.toList_append]
    exact hread
  · have hread := (hsigned year.natAbs).2
    have hneg : -(year.natAbs : Int) = year := by omega
    rw [hneg] at hread
    rw [String.toList_append]
    exact hread

/-- A fraction in so many digits is read in nanoseconds. -/
theorem fraction?_append {ds : List Char} {n : Nat} (hds : AllDigits ds) (hle : ds.length ≤ 9)
    (hn : digits? ds = some n) :
    fraction? ('.' :: (ds ++ ['Z'])) = some (n * Nat.pow 10 (9 - ds.length), ['Z']) := by
  have htake : takeDigits 9 (ds ++ ['Z']) = (ds, ['Z']) :=
    takeDigits_append hds hle (.inr (noDigit_cons rfl []))
  simp only [fraction?, htake, hn]
  rfl

theorem fraction?_padLeft {width n : Nat} (hwidth : 0 < width) (hle : width ≤ 9)
    (hn : n < 10 ^ width) :
    fraction? (("." ++ padLeft width '0' (toString n)).toList ++ ['Z']) =
      some (n * Nat.pow 10 (9 - width), ['Z']) := by
  have hlength := length_padLeft hwidth hn
  have hshort : (padLeft width '0' (toString n)).toList.length ≤ 9 :=
    Nat.le_trans (Nat.le_of_eq hlength) hle
  have hread := fraction?_append (allDigits_padLeft width n) hshort (digits?_padLeft width n)
  rw [hlength] at hread
  rw [String.toList_append]
  exact hread

theorem fraction?_fractionText {nanos : Nat} (h : nanos < 10 ^ 9) :
    fraction? ((fractionText nanos).toList ++ ['Z']) = some (nanos, ['Z']) := by
  unfold fractionText
  simp only [Nat.pow_eq] at h ⊢
  split_ifs with hzero hmillis hmicros
  · rw [hzero]
    rfl
  · rw [fraction?_padLeft (by decide) (by decide) (by omega)]
    congr 2
    simp only [Nat.pow_eq]
    omega
  · rw [fraction?_padLeft (by decide) (by decide) (by omega)]
    congr 2
    simp only [Nat.pow_eq]
    omega
  · rw [fraction?_padLeft (by decide) (by decide) h]
    simp

/-! ## moments -/

/-- What the reader can produce: a time of an existing day, with less than a second
of nanoseconds. -/
def IsReadable (t : Timestamp) : Prop :=
  t.isValid ∧ t.nanos < 10 ^ 9

theorem isValid_iff (t : Timestamp) : t.isValid ↔
    t.date.isValid ∧ t.hour ≤ 23 ∧ t.minute ≤ 59 ∧ t.second ≤ 60 := by
  simp [isValid, and_assoc]

/-- Without an offset a moment is what the clock shows. -/
theorem toUniversal_zero {t : Timestamp} (hhour : t.hour ≤ 23) (hminute : t.minute ≤ 59) :
    t.toUniversal 0 = t := by
  unfold toUniversal
  have hday : ¬((t.hour * 60 + t.minute : Nat) - 0 : Int) < 0 := by omega
  have hday' : ((t.hour * 60 + t.minute : Nat) - 0 : Int) < 1440 := by omega
  have hclock : (((t.hour * 60 + t.minute : Nat) - 0 : Int) % 1440).toNat =
      t.hour * 60 + t.minute := by omega
  have hhours : (t.hour * 60 + t.minute) / 60 = t.hour := by omega
  have hminutes : (t.hour * 60 + t.minute) % 60 = t.minute := by omega
  simp only [hday, hday', if_true, if_false, hclock, hhours, hminutes]

theorem bind_of_eq_some {α β : Type} {o : Option α} {a : α} {f : α → Option β} (h : o = some a) :
    (o >>= f) = f a := by
  rw [h]
  rfl

/-- Each moment that the reader can produce is read back from its written form. -/
theorem ofText?_toText {t : Timestamp} (h : t.IsReadable) : ofText? t.toText.toList = some t := by
  obtain ⟨hvalid, hnanos⟩ := h
  obtain ⟨hdate, hhour, hminute, hsecond⟩ := (isValid_iff t).1 hvalid
  obtain ⟨hyear, hmonth, hmonth', hday, hday'⟩ := (Date.isValid_iff t.date).1 hdate
  have hdays := (daysInMonth_bounds t.date.year t.date.month).2
  have htext : t.toText.toList =
      (yearText t.date.year).toList ++ '-' :: ((twoDigits t.date.month).toList ++ '-' ::
        ((twoDigits t.date.day).toList ++ 'T' :: ((twoDigits t.hour).toList ++ ':' ::
          ((twoDigits t.minute).toList ++ ':' :: ((twoDigits t.second).toList ++
            ((fractionText t.nanos).toList ++ ['Z'])))))) := by
    simp [toText]
  have hzulu : offset? ['Z'] = some (0, []) := by decide
  rw [htext]
  -- one field after the other
  refine (bind_of_eq_some (year?_yearText _ _)).trans ?_
  refine (bind_of_eq_some (mark?_cons rfl _)).trans ?_
  refine (bind_of_eq_some (number?_twoDigits (by omega) _)).trans ?_
  refine (bind_of_eq_some (mark?_cons rfl _)).trans ?_
  refine (bind_of_eq_some (number?_twoDigits (by omega) _)).trans ?_
  refine (bind_of_eq_some rfl).trans ?_
  refine (bind_of_eq_some (number?_twoDigits (by omega) _)).trans ?_
  refine (bind_of_eq_some (mark?_cons rfl _)).trans ?_
  refine (bind_of_eq_some (number?_twoDigits (by omega) _)).trans ?_
  refine (bind_of_eq_some (mark?_cons rfl _)).trans ?_
  refine (bind_of_eq_some (number?_twoDigits (by omega) _)).trans ?_
  refine (bind_of_eq_some (fraction?_fractionText hnanos)).trans ?_
  refine (bind_of_eq_some hzulu).trans ?_
  have hrange : Date.yearInRange t.date.year = true := hyear
  show (if t.isValid && decide ((0 : Int).natAbs < 1440) &&
      Date.yearInRange (t.toUniversal 0).date.year && (trimLeft []).isEmpty
    then some (t.toUniversal 0) else none) = some t
  rw [toUniversal_zero hhour hminute, hvalid, hrange]
  rfl

/-! ## what the reader produces -/

/-- An offset leads from a valid moment to another, if the year is in range. -/
theorem isValid_toUniversal {t : Timestamp} (h : t.isValid) {offset : Int}
    (hyear : Date.yearInRange (t.toUniversal offset).date.year) :
    (t.toUniversal offset).isValid := by
  obtain ⟨hdate, hhour, hminute, hsecond⟩ := t.isValid_iff.1 h
  rw [isValid_iff]
  have hdate' : (t.toUniversal offset).date.isValid := by
    revert hyear
    unfold toUniversal
    simp only
    split_ifs
    · exact Date.isValid_prev hdate
    · exact fun _ => hdate
    · exact Date.isValid_next hdate
  refine ⟨hdate', ?_, ?_, hsecond⟩
  · simp only [toUniversal]
    omega
  · simp only [toUniversal]
    omega

theorem takeDigits_length (n : Nat) (cs : List Char) : (takeDigits n cs).1.length ≤ n := by
  induction n generalizing cs with
  | zero => simp [takeDigits]
  | succ n ih =>
    cases cs with
    | nil => simp [takeDigits]
    | cons c cs =>
      unfold takeDigits
      split_ifs
      · exact Nat.succ_le_succ (ih cs)
      · simp

theorem fraction?_lt {cs rest : List Char} {nanos : Nat} (h : fraction? cs = some (nanos, rest)) :
    nanos < 10 ^ 9 := by
  unfold fraction? at h
  split at h
  · next cs =>
    obtain ⟨n, hn, heq⟩ := Option.map_eq_some_iff.1 h
    obtain ⟨rfl, -⟩ := Prod.mk.inj heq
    have hlength := takeDigits_length 9 cs
    have hbound := digits?_lt hn
    generalize (takeDigits 9 cs).1.length = k at hlength hbound
    calc n * Nat.pow 10 (9 - k) < 10 ^ k * 10 ^ (9 - k) :=
          Nat.mul_lt_mul_of_pos_right hbound (Nat.pow_pos (by decide))
      _ = 10 ^ 9 := by rw [← Nat.pow_add, Nat.add_sub_cancel' hlength]
  · obtain ⟨rfl, -⟩ := Prod.mk.inj (Option.some.inj h)
    decide

/-- Whatever is read is readable: it has a written form that is read back. -/
theorem isReadable_of_ofText? {cs : List Char} {t : Timestamp} (h : ofText? cs = some t) :
    t.IsReadable := by
  -- one field after the other
  obtain ⟨⟨year, _⟩, -, h⟩ := Option.bind_eq_some_iff.1 h
  obtain ⟨_, -, h⟩ := Option.bind_eq_some_iff.1 h
  obtain ⟨⟨month, _⟩, -, h⟩ := Option.bind_eq_some_iff.1 h
  obtain ⟨_, -, h⟩ := Option.bind_eq_some_iff.1 h
  obtain ⟨⟨day, _⟩, -, h⟩ := Option.bind_eq_some_iff.1 h
  obtain ⟨_, -, h⟩ := Option.bind_eq_some_iff.1 h
  obtain ⟨⟨hour, _⟩, -, h⟩ := Option.bind_eq_some_iff.1 h
  obtain ⟨_, -, h⟩ := Option.bind_eq_some_iff.1 h
  obtain ⟨⟨minute, _⟩, -, h⟩ := Option.bind_eq_some_iff.1 h
  obtain ⟨_, -, h⟩ := Option.bind_eq_some_iff.1 h
  obtain ⟨⟨second, _⟩, -, h⟩ := Option.bind_eq_some_iff.1 h
  obtain ⟨⟨nanos, _⟩, hfraction, h⟩ := Option.bind_eq_some_iff.1 h
  obtain ⟨⟨offset, _⟩, -, h⟩ := Option.bind_eq_some_iff.1 h
  simp only at h
  split at h
  · next hchecked =>
    simp only [Bool.and_eq_true] at hchecked
    obtain ⟨⟨⟨hvalid, -⟩, hyear⟩, -⟩ := hchecked
    rw [← Option.some.inj h]
    exact ⟨isValid_toUniversal hvalid hyear, fraction?_lt hfraction⟩
  · cases h

/-- The moments that some text is read as. -/
theorem exists_ofText?_iff {t : Timestamp} : (∃ cs, ofText? cs = some t) ↔ t.IsReadable :=
  ⟨fun ⟨_, h⟩ => isReadable_of_ofText? h, fun h => ⟨_, ofText?_toText h⟩⟩

end Timestamp

end BrowserHost.Event
