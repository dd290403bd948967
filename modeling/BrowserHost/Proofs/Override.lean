import BrowserHost.Proofs.Numeral
import BrowserHost.Settings.Environment

/-!
# BrowserHost.Proofs.Override

What the environment changes of the settings.

* `text?_eq_some_iff`: a variable has a text just if its bytes are those of the text;
* `number?_eq_some_iff`: the number that a variable holds;
* `Dial.of_overriddenBy`, `url_overriddenBy`: what becomes of the three numbers, and of the
  URL;
* `overrides_decided`: nothing else changes, and each of them by its own variable.
-/

namespace BrowserHost

/-! ## variables -/

namespace Environment

variable {env : Environment} {name : String}

/-- A variable has a text just if it is set to the bytes of the text. -/
theorem text?_eq_some_iff {s : String} :
    env.text? name = some s ↔ env.lookup name = some s.toUTF8 := by
  simp only [text?, Option.bind_eq_some_iff, fromUTF8?_eq_some_iff, exists_eq_right]

/-- The variable is set to a text that is, but for blanks around, an optional plus
sign and one or more digits, which spell the number. -/
def Spells (env : Environment) (name : String) (n : UInt32) : Prop :=
  ∃ (text : String) (core : List Char), env.lookup name = some text.toUTF8 ∧
    Text.IsPadded core text.toList ∧ Text.IsNumeral n.toNat core

theorem number?_eq_some_iff {n : UInt32} : env.number? name = some n ↔ env.Spells name n := by
  have hfits : n.toNat ≤ Text.max32 := Nat.le_sub_one_of_lt n.toNat_lt
  simp only [number?, Option.bind_eq_bind, Option.bind_eq_some_iff, Option.map_eq_some_iff,
    text?_eq_some_iff, Text.unsigned?_trim_eq_some_iff]
  constructor
  · rintro ⟨text, htext, m, ⟨core, hpadded, hnumeral, hle⟩, rfl⟩
    have hm : (UInt32.ofNat m).toNat = m := UInt32.toNat_ofNat_of_lt' (Nat.lt_succ_of_le hle)
    exact ⟨text, core, htext, hpadded, hm.symm ▸ hnumeral⟩
  · rintro ⟨text, core, htext, hpadded, hnumeral⟩
    exact ⟨text, htext, n.toNat, ⟨core, hpadded, hnumeral, hfits⟩, UInt32.ofNat_toNat⟩

theorem number?_eq_none_iff : env.number? name = none ↔ ∀ n, ¬env.Spells name n := by
  simp only [Option.eq_none_iff_forall_ne_some, ne_eq, number?_eq_some_iff]

/-- The variable is set to a text that is not empty. -/
theorem nonempty?_eq_some_iff {s : String} :
    env.nonempty? name = some s ↔ env.lookup name = some s.toUTF8 ∧ s ≠ "" := by
  simp [nonempty?, Option.filter_eq_some_iff, text?_eq_some_iff]

end Environment

/-! ## numbers -/

/-- The numbers that follow a variable. -/
inductive Dial
  | width
  | height
  | maxFps

namespace Dial

/-- The variable that the number follows. -/
def name : Dial → String
  | width => "WEBHOST_WIDTH"
  | height => "WEBHOST_HEIGHT"
  | maxFps => "WEBHOST_MAX_FPS"

/-- The number in the settings. -/
def of (d : Dial) (s : Settings) : UInt32 :=
  match d with
  | width => s.width
  | height => s.height
  | maxFps => s.maxFps

theorem of_overriddenBy (d : Dial) (s : Settings) (env : Environment) :
    d.of (s.overriddenBy env) = (env.number? d.name).getD (d.of s) := by
  cases d <;> rfl

end Dial

namespace Settings

/-! ## settings -/

theorem url_overriddenBy (s : Settings) (env : Environment) :
    (s.overriddenBy env).url =
      if s.environmentOverride then (env.nonempty? "WEBHOST_URL").getD s.url else s.url := rfl

theorem overriddenBy_overriddenBy (s : Settings) (env : Environment) :
    (s.overriddenBy env).overriddenBy env = s.overriddenBy env := by
  have hsame {α : Type} (o : Option α) (x : α) : o.getD (o.getD x) = o.getD x := by
    cases o <;> rfl
  cases hallowed : s.environmentOverride <;> simp [overriddenBy, hallowed, hsame]

/-- What the environment changes of settings.  Nothing but the URL and three numbers.
A number becomes the one that its variable spells, and stays if its variable spells
none.  The URL becomes the text of its variable, if the settings allow it and that
text is not empty, and else stays.  None of the four depends on any other variable,
and doing it twice does no more. -/
theorem overrides_decided (s : Settings) (env : Environment) :
    (∃ url width height maxFps, s.overriddenBy env =
      { s with url := url, width := width, height := height, maxFps := maxFps }) ∧
    (∀ d : Dial, (∀ n, env.Spells d.name n → d.of (s.overriddenBy env) = n) ∧
      ((∀ n, ¬env.Spells d.name n) → d.of (s.overriddenBy env) = d.of s)) ∧
    (∀ text : String, s.environmentOverride → env.lookup "WEBHOST_URL" = some text.toUTF8 →
      text ≠ "" → (s.overriddenBy env).url = text) ∧
    ((¬∃ text : String, s.environmentOverride ∧ env.lookup "WEBHOST_URL" = some text.toUTF8 ∧
      text ≠ "") → (s.overriddenBy env).url = s.url) ∧
    (∀ env' : Environment,
      (∀ d : Dial, env'.lookup d.name = env.lookup d.name →
        d.of (s.overriddenBy env') = d.of (s.overriddenBy env)) ∧
      (env'.lookup "WEBHOST_URL" = env.lookup "WEBHOST_URL" →
        (s.overriddenBy env').url = (s.overriddenBy env).url)) ∧
    (s.overriddenBy env).overriddenBy env = s.overriddenBy env := by
  refine ⟨⟨_, _, _, _, rfl⟩, fun d => ⟨fun n hn => ?_, fun hnone => ?_⟩, ?_, ?_, ?_,
    overriddenBy_overriddenBy s env⟩
  · rw [d.of_overriddenBy, Environment.number?_eq_some_iff.2 hn, Option.getD_some]
  · rw [d.of_overriddenBy, Environment.number?_eq_none_iff.2 hnone, Option.getD_none]
  · intro text hallowed hset hne
    rw [url_overriddenBy, if_pos hallowed, Environment.nonempty?_eq_some_iff.2 ⟨hset, hne⟩,
      Option.getD_some]
  · intro hnone
    rw [url_overriddenBy]
    split
    · next hallowed =>
      have hunset : env.nonempty? "WEBHOST_URL" = none := by
        refine Option.eq_none_iff_forall_ne_some.2 fun text htext => hnone ⟨text, hallowed, ?_⟩
        exact Environment.nonempty?_eq_some_iff.1 htext
      rw [hunset, Option.getD_none]
    · rfl
  · refine fun env' => ⟨fun d hsame => ?_, fun hsame => ?_⟩
    · simp only [Dial.of_overriddenBy, Environment.number?, Environment.text?, hsame]
    · simp only [url_overriddenBy, Environment.nonempty?, Environment.text?, hsame]

/-- The largest number that fits, with a sign, zeros and blanks around it, and one
more than that. -/
example :
    let s := ({} : Settings).overriddenBy
      [("WEBHOST_WIDTH", "\u2003+004294967295\t".toUTF8), ("WEBHOST_HEIGHT", "4294967296".toUTF8)]
    s.width = 4294967295 ∧ s.height = 720 := by decide

end Settings

end BrowserHost
