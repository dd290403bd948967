import BrowserHost.Proofs.Entries
import BrowserHost.Settings.Home

/-!
# BrowserHost.Proofs.Keeping

Settings that are saved are loaded again.  All fields but three are always
written, under keys of their own; the three are left out if there is no text.
Only the two numbers of 64 bits can be too large to be written, and then nothing
is.

* `ofEntries?_fields`: what is written under the keys gives the settings;
* `isSome_toText?_iff`: which settings can be written;
* `load_of_save`: what a save leaves behind.
-/

namespace BrowserHost.Settings

open Toml

/-! ## fields -/

/-- The keys of a document, all of them. -/
def keys : List String :=
  ["url", "environment_override", "width", "height", "scale_factor", "max_fps", "fps_sampling",
    "page_group", "user_agent", "cookie_storage", "local_storage", "languages",
    "certificate_check", "transparent", "data_path", "mandatory_processes", "grace_period_secs",
    "teardown_timeout_ms"]

theorem map_optionalField (key : String) (s : Option String) :
    ((optionalField key s).map Prod.fst).Sublist [key] := by
  cases s <;> simp [optionalField]

theorem keys_sublist (s : Settings) : (s.fields.map Prod.fst).Sublist keys := by
  simp only [fields, List.map_append]
  have huser := map_optionalField "user_agent" s.userAgent
  have hcookie := map_optionalField "cookie_storage" s.cookieStorage
  have hlocal := map_optionalField "local_storage" s.localStorage
  exact ((((List.Sublist.refl _).append huser).append hcookie).append hlocal).append
    (List.Sublist.refl _)

theorem nodup_keys (s : Settings) : (s.fields.map Prod.fst).Nodup :=
  (keys_sublist s).nodup (by simp [keys])

theorem isBareKey_of_mem {s : Settings} {e : String × Field} (he : e ∈ s.fields) :
    IsBareKey e.1 := by
  have hall : ∀ key ∈ keys, IsBareKey key := by
    simp [keys, IsBareKey, isBareKeyChar]
  exact hall e.1 ((keys_sublist s).subset (List.mem_map_of_mem he))

/-! ## reading -/

theorem asUInt32?_toNat (n : UInt32) : asUInt32? (.integer n.toNat) = some n := by
  have hle : n.toNat ≤ Text.max32 := Nat.le_sub_one_of_lt n.toNat_lt
  simp [asUInt32?, asNat?, hle]

theorem asUInt64?_toNat (n : UInt64) : asUInt64? (.integer n.toNat) = some n := by
  have hle : n.toNat ≤ Text.max64 := Nat.le_sub_one_of_lt n.toNat_lt
  simp [asUInt64?, asNat?, hle]

theorem asStrings?_array (ss : List String) : asStrings? (.array (ss.map .string)) = some ss := by
  have hall : (ss.map Value.string).mapM asString? = some ss := by
    induction ss with
    | nil => rfl
    | cons s ss ih => simp [List.mapM_cons, ih, asString?]
  exact hall

/-- What is written under the keys gives the settings.  The cases are the fields
that may be left out. -/
theorem ofEntries?_fields (s : Settings) :
    ofEntries? (s.fields.map fun (k, f) => (k, f.toValue)) =
      some { s with scaleFactor := canonical s.scaleFactor } := by
  obtain ⟨url, override, width, height, scale, maxFps, sampling, group, user, cookie, storage,
    langs, cert, transparent, path, mandatory, grace, teardown⟩ := s
  cases user <;> cases cookie <;> cases storage <;>
    simp [ofEntries?, field?, fields, optionalField, Field.toValue, List.lookup_cons, asString?,
      asBool?, asFloat?, asUInt32?_toNat, asUInt64?_toNat, asStrings?_array]

/-- What is written is read back. -/
theorem ofText?_toText {s : Settings} {text : List Char} (h : s.toText? = some text) :
    ofText? text = some { s with scaleFactor := canonical s.scaleFactor } := by
  have hdocument := document?_written (fun _ he => isBareKey_of_mem he) (nodup_keys s) h
  rw [ofText?, hdocument, Option.bind_eq_bind, Option.bind_some, ofEntries?_fields]

/-! ## writing -/

theorem integerInRange_iff (n : ℕ) : integerInRange n ↔ n < Nat.pow 2 63 := by
  have hpow : Int.pow 2 63 = (Nat.pow 2 63 : ℕ) := by decide
  unfold integerInRange
  rw [hpow, Bool.and_eq_true, decide_eq_true_eq, decide_eq_true_eq]
  omega

theorem isSome_text?_iff (f : Field) :
    f.text?.isSome ↔ ∀ n, f = .unsigned n → n < Nat.pow 2 63 := by
  cases f with
  | unsigned n =>
    simp only [Field.text?, Field.unsigned.injEq, forall_eq', ← integerInRange_iff]
    split <;> simp_all
  | string s | float x | boolean b | strings ss => simp [Field.text?]

theorem isSome_written?_iff (fields : List (String × Field)) :
    (written? fields).isSome ↔ ∀ e ∈ fields, e.2.text?.isSome := by
  unfold written?
  rw [Option.isSome_map]
  induction fields with
  | nil => simp
  | cons e fields ih =>
    rw [List.forall_mem_cons, ← ih, List.mapM_cons]
    cases hl : e.2.text? <;>
      cases (fields.mapM fun (k, f) => line? k f) <;> simp [line?, hl]

/-- Settings can be written unless a number of 64 bits is too large. -/
theorem isSome_toText?_iff (s : Settings) :
    s.toText?.isSome ↔
      s.gracePeriodSecs.toNat < Nat.pow 2 63 ∧ s.teardownTimeoutMs.toNat < Nat.pow 2 63 := by
  have hsmall (n : UInt32) : n.toNat < Nat.pow 2 63 := Nat.lt_trans n.toNat_lt (by decide)
  have hoptional (key : String) (o : Option String) :
      ∀ e ∈ optionalField key o, ∀ n, e.2 = .unsigned n → n < Nat.pow 2 63 := by
    cases o <;> simp [optionalField]
  rw [toText?, isSome_written?_iff]
  simp only [fields, List.forall_mem_append, List.forall_mem_cons, isSome_text?_iff,
    Field.unsigned.injEq, forall_eq', hsmall, iff_true_intro (hoptional _ _)]
  simp

end BrowserHost.Settings

namespace BrowserHost.Home

/-! ## the home directory -/

theorem fromUTF8?_toUTF8 (s : String) : String.fromUTF8? s.toUTF8 = some s :=
  fromUTF8?_eq_some_iff.2 rfl

theorem bytes_of_text {s : Settings} {text : List Char} (h : s.toText? = some text) :
    bytes s = .ok (String.ofList text).toUTF8 := by
  rw [bytes, h, Option.elim_some]

theorem bytes_of_none {s : Settings} (h : s.toText? = none) : ∃ e, bytes s = .error e :=
  ⟨_, by rw [bytes, h, Option.elim_none]⟩

/-- A file with the text of settings is read as these settings. -/
theorem read_text {s : Settings} {text : List Char} (h : s.toText? = some text) (path : String)
    (mode : ℕ) :
    read path ⟨mode, (String.ofList text).toUTF8⟩ =
      .ok { s with scaleFactor := Toml.canonical s.scaleFactor } := by
  have hsettings := Settings.ofText?_toText h
  simp only [read, fromUTF8?_toUTF8, String.toList_ofList, hsettings]

theorem save_of_prepared {h h' : Home} {path : String} {s : Settings} {r : Except Fault Home}
    (hprepared : h.prepared = .ok h') (hreplaced : h'.replaced path s = r) :
    h.save path s = h'.after r := by
  unfold save
  rw [hprepared, ← hreplaced]

theorem replaced_of_text {s : Settings} {text : List Char} (h : s.toText? = some text)
    (home : Home) (path : String) :
    home.replaced path s = home.write path (String.ofList text).toUTF8 := by
  unfold replaced
  rw [bytes_of_text h]
  rfl

theorem save_of_none {s : Settings} (h : s.toText? = none) (home : Home) (path : String) :
    ∃ e h', home.save path s = (.error e, h') := by
  obtain ⟨e, he⟩ := bytes_of_none h
  have hreplaced (h' : Home) : h'.replaced path s = .error e := by
    unfold replaced
    rw [he]
    rfl
  cases hprepared : home.prepared with
  | error e' => exact ⟨e', home, by unfold save; rw [hprepared]⟩
  | ok h' => exact ⟨e, h', save_of_prepared hprepared (hreplaced h')⟩

/-- Settings that can be written are saved as their text, unless what stands in the
way is of the wrong kind. -/
theorem save_of_text {s : Settings} {text : List Char} (h : s.toText? = some text) (home : Home)
    (path : String) :
    ((home = .notDirectory ∨ home.settings = .directory) ∧
        ∃ e h', home.save path s = (.error e, h')) ∨
      (home ≠ .notDirectory ∧ home.settings ≠ .directory) ∧
        ∃ m m', home.save path s =
          (.ok (), .directory m (.file ⟨m', (String.ofList text).toUTF8⟩)) := by
  have hreplaced (h' : Home) := replaced_of_text h h' path
  generalize (String.ofList text).toUTF8 = content at hreplaced ⊢
  cases home with
  | notDirectory => exact .inl ⟨.inl rfl, _, _, by unfold save prepared; rfl⟩
  | absent =>
    have hsave := save_of_prepared (h := .absent) rfl (hreplaced _)
    exact .inr ⟨⟨nofun, nofun⟩, _, _, hsave⟩
  | directory m p =>
    have hsave := save_of_prepared (h := .directory m p) rfl (hreplaced _)
    cases p with
    | directory => exact .inl ⟨.inr rfl, _, _, hsave⟩
    | absent | file f => exact .inr ⟨⟨nofun, nofun⟩, _, _, hsave⟩

/-- What a save leaves behind.  It succeeds exactly if nothing but a directory stands
in the way of the directory, no directory in that of the file, and the settings
can be written.  Then they are loaded again, whatever the file held before; no number is
loaded as no number.  Else the file is as it was. -/
theorem load_of_save (h : Home) (path : String) (s : Settings) :
    ((h.save path s).1 = .ok () ↔
        h ≠ .notDirectory ∧ h.settings ≠ .directory ∧
          s.gracePeriodSecs.toNat < Nat.pow 2 63 ∧ s.teardownTimeoutMs.toNat < Nat.pow 2 63) ∧
      match h.save path s with
      | (.ok _, h') =>
        ∀ path', h'.loadFrom path' =
          .ok (some { s with scaleFactor := Toml.canonical s.scaleFactor })
      | (.error _, h') => h'.settings = h.settings := by
  have hkept {e : Fault} {h' : Home} (hsave : h.save path s = (.error e, h')) :
      h'.settings = h.settings := by
    have hfailed : (h.save path s).1 = .error e := by rw [hsave]
    have hkept := save_error hfailed
    rwa [hsave] at hkept
  rw [← s.isSome_toText?_iff]
  cases htext : s.toText? with
  | none =>
    obtain ⟨e, h', hsave⟩ := save_of_none htext h path
    rw [hsave]
    exact ⟨iff_of_false nofun fun ⟨_, _, hsome⟩ => Bool.noConfusion hsome, hkept hsave⟩
  | some text =>
    obtain ⟨hwhy, e, h', hsave⟩ | ⟨⟨hhome, hplace⟩, m, m', hsave⟩ := save_of_text htext h path
    · rw [hsave]
      exact ⟨iff_of_false nofun fun ⟨hhome, hplace, _⟩ => hwhy.elim hhome hplace,
        hkept hsave⟩
    · rw [hsave]
      exact ⟨iff_of_true rfl ⟨hhome, hplace, rfl⟩,
        fun path' => congrArg (Except.map some) (read_text htext path' m')⟩

end BrowserHost.Home
