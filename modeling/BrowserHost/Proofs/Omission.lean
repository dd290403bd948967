import BrowserHost.Proofs.FirstRun
import BrowserHost.Proofs.Repetition

/-!
# BrowserHost.Proofs.Omission

A settings file that lists some of the settings.  The keys of settings are told apart from
all others by a table that gives the kind of each; what a reader of one field has to do with
the kind is said once for each kind, and the settings are the fields put together.

* `Kind.ReadBy`: a function reads the values of a kind, and nothing else;
* `ofEntries?_eq_some_iff`: the settings that entries give, field by field;
* `exists_ofEntries?`: there are some, if every value is of the kind of its key;
* `loadFrom_decided`: what is loaded from a file, for every document.
-/

namespace BrowserHost.Settings

open Toml (Value Field)

/-! ## kinds of values -/

/-- The kinds of values that settings have. -/
inductive Kind
  | text
  | flag
  | number (bits : ℕ)
  | float
  | texts

namespace Kind

/-- The value is of the kind, within its range, and gives the field. -/
inductive Gives : Kind → Value → Field → Prop
  | text (s : String) : Gives text (.string s) (.string s)
  | flag (b : Bool) : Gives flag (.boolean b) (.boolean b)
  | number {bits n : ℕ} (hn : n < 2 ^ bits) : Gives (number bits) (.integer n) (.unsigned n)
  | float (x : Binary64) : Gives float (.float x) (.float x)
  | whole (n : ℤ) : Gives float (.integer n) (.float (.ofInt n))
  | texts (ss : List String) : Gives texts (.array (ss.map .string)) (.strings ss)

/-- The function reads the values of the kind, and nothing else. -/
structure ReadBy {α : Type} (kind : Kind) (read : Value → Option α) (toField : α → Field) :
    Prop where
  read_iff : ∀ v x, read v = some x ↔ kind.Gives v (toField x)
  onto : ∀ {v f}, kind.Gives v f → ∃ x, toField x = f
  injective : Function.Injective toField

theorem readBy_text : ReadBy text asString? .string where
  read_iff v s := by
    constructor
    · intro h
      cases v <;> simp only [asString?, Option.some.injEq, reduceCtorEq] at h
      exact h ▸ .text _
    · rintro ⟨⟩
      rfl
  onto := by
    rintro _ _ ⟨⟩
    exact ⟨_, rfl⟩
  injective _ _ := Field.string.inj

theorem readBy_flag : ReadBy flag asBool? .boolean where
  read_iff v b := by
    constructor
    · intro h
      cases v <;> simp only [asBool?, Option.some.injEq, reduceCtorEq] at h
      exact h ▸ .flag _
    · rintro ⟨⟩
      rfl
  onto := by
    rintro _ _ ⟨⟩
    exact ⟨_, rfl⟩
  injective _ _ := Field.boolean.inj

theorem readBy_float : ReadBy float asFloat? .float where
  read_iff v x := by
    constructor
    · intro h
      cases v <;> simp only [asFloat?, Option.some.injEq, reduceCtorEq] at h
      · exact h ▸ .whole _
      · exact h ▸ .float _
    · rintro (_ | _) <;> rfl
  onto := by
    rintro _ _ (_ | _) <;> exact ⟨_, rfl⟩
  injective _ _ := Field.float.inj

theorem asNat?_eq_some_iff {limit n : ℕ} {v : Value} :
    asNat? limit v = some n ↔ v = .integer n ∧ n ≤ limit := by
  cases v with
  | integer m =>
    simp only [asNat?, Option.ite_none_right_eq_some, Option.some.injEq, Value.integer.injEq]
    omega
  | string | float | boolean | datetime | array | table => simp [asNat?]

/-- Numbers of a width are read by checking the limit, and converting what is within. -/
theorem readBy_number {α : Type} {bits limit : ℕ} (hlimit : limit + 1 = 2 ^ bits) {ofNat : ℕ → α}
    {toNat : α → ℕ} (hto : ∀ n < 2 ^ bits, toNat (ofNat n) = n)
    (hof : ∀ x, ofNat (toNat x) = x) :
    ReadBy (number bits) (fun v => (asNat? limit v).map ofNat) fun x => .unsigned (toNat x) where
  read_iff v x := by
    simp only [Option.map_eq_some_iff, asNat?_eq_some_iff]
    constructor
    · rintro ⟨n, ⟨rfl, hle⟩, rfl⟩
      have hn : n < 2 ^ bits := by omega
      rw [hto n hn]
      exact .number hn
    · intro h
      generalize hf : Field.unsigned (toNat x) = f at h
      obtain ⟨hn⟩ := h
      obtain rfl := Field.unsigned.inj hf
      exact ⟨_, ⟨rfl, by omega⟩, hof x⟩
  onto := by
    rintro _ _ ⟨hn⟩
    exact ⟨ofNat _, congrArg Field.unsigned (hto _ (by assumption))⟩
  injective x y h := by rw [← hof x, ← hof y, Field.unsigned.inj h]

theorem readBy_number32 : ReadBy (number 32) asUInt32? fun n => .unsigned n.toNat :=
  readBy_number rfl (fun _ => UInt32.toNat_ofNat_of_lt') fun _ => UInt32.ofNat_toNat

theorem readBy_number64 : ReadBy (number 64) asUInt64? fun n => .unsigned n.toNat :=
  readBy_number rfl (fun _ => UInt64.toNat_ofNat_of_lt') fun _ => UInt64.ofNat_toNat

theorem mapM_asString?_eq_some_iff {vs : List Value} {ss : List String} :
    vs.mapM asString? = some ss ↔ vs = ss.map .string := by
  constructor
  · intro h
    induction vs generalizing ss with
    | nil => simp_all
    | cons v vs ih =>
      rw [List.mapM_cons] at h
      obtain ⟨s, hs, h⟩ := Option.bind_eq_some_iff.1 h
      obtain ⟨more, hmore, h⟩ := Option.bind_eq_some_iff.1 h
      obtain rfl := Option.some.inj h
      obtain ⟨⟩ := (readBy_text.read_iff v s).1 hs
      rw [ih hmore, List.map_cons]
  · rintro rfl
    exact asStrings?_array ss

theorem readBy_texts : ReadBy texts asStrings? .strings where
  read_iff v ss := by
    constructor
    · intro h
      cases v <;> simp only [asStrings?, mapM_asString?_eq_some_iff, reduceCtorEq] at h
      exact h ▸ .texts _
    · rintro ⟨⟩
      exact asStrings?_array ss
  onto := by
    rintro _ _ ⟨⟩
    exact ⟨_, rfl⟩
  injective _ _ := Field.strings.inj

/-! ## one field -/

/-- What settings hold under a key, given what was found under it: what that gives, or else
the default. -/
def Slot (kind : Kind) (found : Option Value) (default held : Option Field) : Prop :=
  match found with
  | some v => ∃ f, held = some f ∧ kind.Gives v f
  | none => held = default

namespace ReadBy

variable {α : Type} {kind : Kind} {read : Value → Option α} {toField : α → Field}
  {es : List (String × Value)} {key : String}

theorem field?_eq_some_iff (h : kind.ReadBy read toField) {d x : α} :
    field? es key read d = some x ↔
      kind.Slot (es.lookup key) (some (toField d)) (some (toField x)) := by
  unfold field? Slot
  cases es.lookup key with
  | none => simp [h.injective.eq_iff, eq_comm]
  | some v => simp [h.read_iff]

/-- The same for a field that may be left out. -/
theorem optional_eq_some_iff (h : kind.ReadBy read toField) {d x : Option α} :
    field? es key (fun v => (read v).map some) d = some x ↔
      kind.Slot (es.lookup key) (d.map toField) (x.map toField) := by
  unfold field? Slot
  cases es.lookup key with
  | none => simp [(Option.map_injective h.injective).eq_iff, eq_comm]
  | some v => cases x <;> simp [h.read_iff]

theorem exists_read (h : kind.ReadBy read toField) {v : Value} (hv : ∃ f, kind.Gives v f) :
    ∃ x, read v = some x := by
  obtain ⟨f, hf⟩ := hv
  obtain ⟨x, rfl⟩ := h.onto hf
  exact ⟨x, (h.read_iff v x).2 hf⟩

theorem exists_field? (h : kind.ReadBy read toField)
    (hes : ∀ v, es.lookup key = some v → ∃ f, kind.Gives v f) (d : α) :
    ∃ x, field? es key read d = some x := by
  unfold field?
  cases hv : es.lookup key with
  | none => exact ⟨d, rfl⟩
  | some v => exact h.exists_read (hes v hv)

theorem exists_optional (h : kind.ReadBy read toField)
    (hes : ∀ v, es.lookup key = some v → ∃ f, kind.Gives v f) (d : Option α) :
    ∃ x, field? es key (fun v => (read v).map some) d = some x := by
  unfold field?
  cases hv : es.lookup key with
  | none => exact ⟨d, rfl⟩
  | some v =>
    obtain ⟨x, hx⟩ := h.exists_read (hes v hv)
    exact ⟨some x, by simp [hx]⟩

end ReadBy

end Kind

/-! ## all fields -/

/-- The keys of settings, and the kinds of their values. -/
def schema : List (String × Kind) :=
  [ ("url", .text),
    ("environment_override", .flag),
    ("width", .number 32),
    ("height", .number 32),
    ("scale_factor", .float),
    ("max_fps", .number 32),
    ("fps_sampling", .flag),
    ("page_group", .text),
    ("user_agent", .text),
    ("cookie_storage", .text),
    ("local_storage", .text),
    ("languages", .texts),
    ("certificate_check", .flag),
    ("transparent", .flag),
    ("data_path", .text),
    ("mandatory_processes", .texts),
    ("grace_period_secs", .number 64),
    ("teardown_timeout_ms", .number 64) ]

/-- What the settings hold under a key. -/
def held (s : Settings) (key : String) : Option Field :=
  s.fields.lookup key

theorem lookup_optionalField (key k : String) (s : Option String) :
    (optionalField key s).lookup k = if k == key then s.map .string else none := by
  cases s with
  | none => simp [optionalField]
  | some s =>
    simp only [optionalField, Option.toList_some, List.map_cons, List.map_nil, List.lookup_cons]
    cases k == key <;> rfl

/-- The slots of all keys, written out as the readings of the fields. -/
theorem forall_slot_iff {es : List (String × Value)} {d s : Settings} :
    (∀ e ∈ schema, e.2.Slot (es.lookup e.1) (d.held e.1) (s.held e.1)) ↔
      field? es "url" asString? d.url = some s.url ∧
      field? es "environment_override" asBool? d.environmentOverride =
        some s.environmentOverride ∧
      field? es "width" asUInt32? d.width = some s.width ∧
      field? es "height" asUInt32? d.height = some s.height ∧
      field? es "scale_factor" asFloat? d.scaleFactor = some s.scaleFactor ∧
      field? es "max_fps" asUInt32? d.maxFps = some s.maxFps ∧
      field? es "fps_sampling" asBool? d.fpsSampling = some s.fpsSampling ∧
      field? es "page_group" asString? d.pageGroup = some s.pageGroup ∧
      field? es "user_agent" (fun v => (asString? v).map some) d.userAgent = some s.userAgent ∧
      field? es "cookie_storage" (fun v => (asString? v).map some) d.cookieStorage =
        some s.cookieStorage ∧
      field? es "local_storage" (fun v => (asString? v).map some) d.localStorage =
        some s.localStorage ∧
      field? es "languages" asStrings? d.languages = some s.languages ∧
      field? es "certificate_check" asBool? d.certificateCheck = some s.certificateCheck ∧
      field? es "transparent" asBool? d.transparent = some s.transparent ∧
      field? es "data_path" asString? d.dataPath = some s.dataPath ∧
      field? es "mandatory_processes" asStrings? d.mandatoryProcesses =
        some s.mandatoryProcesses ∧
      field? es "grace_period_secs" asUInt64? d.gracePeriodSecs = some s.gracePeriodSecs ∧
      field? es "teardown_timeout_ms" asUInt64? d.teardownTimeoutMs =
        some s.teardownTimeoutMs := by
  simp [schema, held, fields, List.lookup_append, List.lookup_cons, lookup_optionalField,
    Kind.readBy_text.field?_eq_some_iff, Kind.readBy_text.optional_eq_some_iff,
    Kind.readBy_flag.field?_eq_some_iff, Kind.readBy_number32.field?_eq_some_iff,
    Kind.readBy_number64.field?_eq_some_iff, Kind.readBy_float.field?_eq_some_iff,
    Kind.readBy_texts.field?_eq_some_iff]

/-- The settings that entries give are those that hold, under every key, what the entries
or the defaults have there. -/
theorem ofEntries?_eq_some_iff {es : List (String × Value)} {s : Settings} :
    ofEntries? es = some s ↔
      ∀ e ∈ schema, e.2.Slot (es.lookup e.1) (({} : Settings).held e.1) (s.held e.1) := by
  rw [forall_slot_iff]
  unfold ofEntries?
  generalize ({} : Settings) = d
  dsimp only [bind]
  simp only [↓Option.bind_eq_some_iff, Option.some.injEq]
  constructor
  · rintro ⟨url, hurl, override, hoverride, width, hwidth, height, hheight, scale, hscale, fps,
      hfps, sampling, hsampling, group, hgroup, user, huser, cookie, hcookie, storage, hstorage,
      langs, hlangs, cert, hcert, transparent, htransparent, path, hpath, mandatory, hmandatory,
      grace, hgrace, teardown, hteardown, rfl⟩
    exact ⟨hurl, hoverride, hwidth, hheight, hscale, hfps, hsampling, hgroup, huser, hcookie,
      hstorage, hlangs, hcert, htransparent, hpath, hmandatory, hgrace, hteardown⟩
  · rintro ⟨hurl, hoverride, hwidth, hheight, hscale, hfps, hsampling, hgroup, huser, hcookie,
      hstorage, hlangs, hcert, htransparent, hpath, hmandatory, hgrace, hteardown⟩
    exact ⟨_, hurl, _, hoverride, _, hwidth, _, hheight, _, hscale, _, hfps, _, hsampling, _,
      hgroup, _, huser, _, hcookie, _, hstorage, _, hlangs, _, hcert, _, htransparent, _, hpath, _,
      hmandatory, _, hgrace, _, hteardown, rfl⟩

/-- There are settings, if what stands under each of their keys is of its kind. -/
theorem exists_ofEntries? {es : List (String × Value)}
    (h : ∀ e ∈ schema, ∀ v, es.lookup e.1 = some v → ∃ f, e.2.Gives v f) :
    ∃ s, ofEntries? es = some s := by
  simp only [schema, List.forall_mem_cons] at h
  obtain ⟨hurl, hoverride, hwidth, hheight, hscale, hfps, hsampling, hgroup, huser, hcookie,
    hstorage, hlangs, hcert, htransparent, hpath, hmandatory, hgrace, hteardown, -⟩ := h
  let d : Settings := {}
  obtain ⟨url, hurl⟩ := Kind.readBy_text.exists_field? hurl d.url
  obtain ⟨override, hoverride⟩ := Kind.readBy_flag.exists_field? hoverride d.environmentOverride
  obtain ⟨width, hwidth⟩ := Kind.readBy_number32.exists_field? hwidth d.width
  obtain ⟨height, hheight⟩ := Kind.readBy_number32.exists_field? hheight d.height
  obtain ⟨scale, hscale⟩ := Kind.readBy_float.exists_field? hscale d.scaleFactor
  obtain ⟨fps, hfps⟩ := Kind.readBy_number32.exists_field? hfps d.maxFps
  obtain ⟨sampling, hsampling⟩ := Kind.readBy_flag.exists_field? hsampling d.fpsSampling
  obtain ⟨group, hgroup⟩ := Kind.readBy_text.exists_field? hgroup d.pageGroup
  obtain ⟨user, huser⟩ := Kind.readBy_text.exists_optional huser d.userAgent
  obtain ⟨cookie, hcookie⟩ := Kind.readBy_text.exists_optional hcookie d.cookieStorage
  obtain ⟨storage, hstorage⟩ := Kind.readBy_text.exists_optional hstorage d.localStorage
  obtain ⟨langs, hlangs⟩ := Kind.readBy_texts.exists_field? hlangs d.languages
  obtain ⟨cert, hcert⟩ := Kind.readBy_flag.exists_field? hcert d.certificateCheck
  obtain ⟨transparent, htransparent⟩ := Kind.readBy_flag.exists_field? htransparent d.transparent
  obtain ⟨path, hpath⟩ := Kind.readBy_text.exists_field? hpath d.dataPath
  obtain ⟨mandatory, hmandatory⟩ :=
    Kind.readBy_texts.exists_field? hmandatory d.mandatoryProcesses
  obtain ⟨grace, hgrace⟩ := Kind.readBy_number64.exists_field? hgrace d.gracePeriodSecs
  obtain ⟨teardown, hteardown⟩ :=
    Kind.readBy_number64.exists_field? hteardown d.teardownTimeoutMs
  refine ⟨⟨url, override, width, height, scale, fps, sampling, group, user, cookie, storage, langs,
    cert, transparent, path, mandatory, grace, teardown⟩, ?_⟩
  rw [ofEntries?_eq_some_iff, forall_slot_iff]
  exact ⟨hurl, hoverride, hwidth, hheight, hscale, hfps, hsampling, hgroup, huser, hcookie,
    hstorage, hlangs, hcert, htransparent, hpath, hmandatory, hgrace, hteardown⟩

/-! ## documents -/

/-- Every entry under a key of settings has a value of its kind. -/
def Fits (es : List (String × Value)) : Prop :=
  ∀ key kind, (key, kind) ∈ schema → ∀ v, (key, v) ∈ es → ∃ f, kind.Gives v f

/-- The settings hold what the entries give under the keys of settings that they list, and
the defaults under all that they omit. -/
structure Follows (s : Settings) (es : List (String × Value)) : Prop where
  listed : ∀ key kind, (key, kind) ∈ schema → ∀ v, (key, v) ∈ es →
    ∃ f, s.held key = some f ∧ kind.Gives v f
  omitted : ∀ key kind, (key, kind) ∈ schema → key ∉ es.map Prod.fst →
    s.held key = ({} : Settings).held key

section

variable {es : List (String × Value)} {key : String}

theorem lookup_eq_some_iff_mem (hes : (es.map Prod.fst).Nodup) {v : Value} :
    es.lookup key = some v ↔ (key, v) ∈ es := by
  induction es with
  | nil => simp
  | cons e es ih =>
    obtain ⟨k, w⟩ := e
    rw [List.map_cons, List.nodup_cons] at hes
    by_cases hk : key = k
    · subst hk
      have hnew (v : Value) : (key, v) ∉ es := fun hv => hes.1 (List.mem_map.2 ⟨_, hv, rfl⟩)
      simp [hnew, eq_comm]
    · have hne : (key == k) = false := beq_eq_false_iff_ne.2 hk
      simp [List.lookup_cons, hne, hk, ih hes.2]

theorem lookup_eq_none_iff_not_mem : es.lookup key = none ↔ key ∉ es.map Prod.fst := by
  simp only [List.lookup_eq_none_iff, List.mem_map, not_exists, not_and, bne_iff_ne]
  exact forall₂_congr fun _ _ => ne_comm

variable (hes : (es.map Prod.fst).Nodup)
include hes

/-- A slot of a document that lists no key twice. -/
theorem slot_iff {kind : Kind} {default held : Option Field} :
    kind.Slot (es.lookup key) default held ↔
      (∀ v, (key, v) ∈ es → ∃ f, held = some f ∧ kind.Gives v f) ∧
        (key ∉ es.map Prod.fst → held = default) := by
  simp only [← lookup_eq_none_iff_not_mem, ← lookup_eq_some_iff_mem hes, Kind.Slot]
  cases es.lookup key <;> simp

theorem follows_iff {s : Settings} : s.Follows es ↔ ofEntries? es = some s := by
  simp only [ofEntries?_eq_some_iff, slot_iff hes, Prod.forall]
  constructor
  · exact fun h key kind hkey => ⟨h.listed key kind hkey, h.omitted key kind hkey⟩
  · exact fun h =>
      ⟨fun key kind hkey => (h key kind hkey).1, fun key kind hkey => (h key kind hkey).2⟩

theorem fits_iff : Fits es ↔ ∃ s, ofEntries? es = some s := by
  constructor
  · intro h
    refine exists_ofEntries? fun e he v hv => ?_
    exact h e.1 e.2 he v ((lookup_eq_some_iff_mem hes).1 hv)
  · rintro ⟨s, hs⟩ key kind hkey v hv
    obtain ⟨f, -, hf⟩ := ((follows_iff hes).2 hs).listed key kind hkey v hv
    exact ⟨f, hf⟩

end

end BrowserHost.Settings

namespace BrowserHost.Home

open Toml (Line document?)

/-- A home directory whose settings file has a text. -/
def ofText (dirMode fileMode : ℕ) (text : List Char) : Home :=
  .directory dirMode (.file ⟨fileMode, (String.ofList text).toUTF8⟩)

section

variable (dirMode fileMode : ℕ) (path : String) (text : List Char)

theorem settings?_ofText :
    File.settings? ⟨fileMode, (String.ofList text).toUTF8⟩ = Settings.ofText? text := by
  rw [File.settings?, fromUTF8?_toUTF8, Option.bind_some, String.toList_ofList]

theorem loadFrom_of_ofText? {s : Settings} (hs : Settings.ofText? text = some s) :
    (ofText dirMode fileMode text).loadFrom path = .ok (some s) := by
  have hread := read_of_settings? path ((settings?_ofText fileMode text).trans hs)
  exact congrArg (Except.map some) hread

theorem loadFrom_of_none (hs : Settings.ofText? text = none) :
    ∃ reason, (ofText dirMode fileMode text).loadFrom path = .error (.config reason) := by
  obtain ⟨reason, hread⟩ := read_error path ((settings?_ofText fileMode text).trans hs)
  exact ⟨reason, congrArg (Except.map some) hread⟩

/-- What is loaded from a file with a text.  If the text is a document, it lists no key twice.
If then what it lists under keys of settings is of their kinds, it is loaded as the one
settings that hold what is listed, and the defaults for the rest, in whatever order and
whatever other keys are between them; else, as if it is no document, nothing is
loaded.  Lines under different keys are a document, and every field that can be written at
all can stand on a line. -/
theorem loadFrom_decided :
    (∀ es, document? text = some es →
      (es.map Prod.fst).Nodup ∧
      (Settings.Fits es →
        ∃ s, (ofText dirMode fileMode text).loadFrom path = .ok (some s) ∧
          ∀ t : Settings, t.Follows es ↔ t = s) ∧
      (¬Settings.Fits es →
        ∃ reason, (ofText dirMode fileMode text).loadFrom path = .error (.config reason))) ∧
    (document? text = none →
      ∃ reason, (ofText dirMode fileMode text).loadFrom path = .error (.config reason)) ∧
    (∀ ls : List Line, (ls.map Line.key).Nodup → text = Line.document ls →
      document? text = some (ls.map Line.entry)) ∧
    ∀ (key : String) (f : Toml.Field), f.text?.isSome → ∃ l : Line, l.entry = (key, f.toValue) := by
  refine ⟨fun es hes => ?_, fun hnone => ?_, ?_, fun key f hf => ⟨.ofField key f hf, rfl⟩⟩
  · have hnodup := Toml.nodup_document? hes
    have hsettings : Settings.ofText? text = Settings.ofEntries? es := by
      rw [Settings.ofText?, hes, Option.bind_eq_bind, Option.bind_some]
    refine ⟨hnodup, fun hfits => ?_, fun hfits => ?_⟩
    · obtain ⟨s, hs⟩ := (Settings.fits_iff hnodup).1 hfits
      refine ⟨s, loadFrom_of_ofText? _ _ _ _ (hsettings.trans hs), fun t => ?_⟩
      rw [Settings.follows_iff hnodup, hs, Option.some.injEq, eq_comm]
    · refine loadFrom_of_none _ _ _ _ (hsettings.trans (Option.eq_none_iff_forall_ne_some.2 ?_))
      exact fun s hs => hfits ((Settings.fits_iff hnodup).2 ⟨s, hs⟩)
  · refine loadFrom_of_none _ _ _ _ ?_
    rw [Settings.ofText?, hnone]
    rfl
  · rintro ls hkeys rfl
    exact Toml.document?_lines hkeys

end

/-- The lines of a file for the screen of a lobby, one of which settings know nothing of. -/
def lobby : List Line :=
  [ .ofField "screen id" (.unsigned 7) rfl, .ofField "scale_factor" (.unsigned 2) rfl,
    .ofField "url" (.string "https://kiosk.local") rfl ]

/-- The line of a file for a screen that is too wide by one. -/
def panorama : List Line :=
  [.ofField "width" (.unsigned 4294967296) rfl]

/-- The file of the lobby is loaded, that of the screen too wide is not. -/
theorem loadFrom_decided_lobby :
    (lobby.map Line.key).Nodup ∧ Settings.Fits (lobby.map Line.entry) ∧
    (ofText 0o755 0o644 (Line.document lobby)).loadFrom "config.toml" =
      .ok (some { url := "https://kiosk.local", scaleFactor := .ofInt 2 }) ∧
    ¬Settings.Fits (panorama.map Line.entry) ∧
    ∃ reason, (ofText 0o755 0o644 (Line.document panorama)).loadFrom "config.toml" =
      .error (.config reason) := by
  have hkeys : (lobby.map Line.key).Nodup := by decide
  have hentries : ((lobby.map Line.entry).map Prod.fst).Nodup := hkeys
  have hsettings : Settings.ofEntries? (lobby.map Line.entry) =
      some { url := "https://kiosk.local", scaleFactor := .ofInt 2 } := rfl
  have hfits := (Settings.fits_iff hentries).2 ⟨_, hsettings⟩
  have hwide : (panorama.map Line.key).Nodup := by decide
  have hentry : ((panorama.map Line.entry).map Prod.fst).Nodup := hwide
  have hunfit : ¬Settings.Fits (panorama.map Line.entry) := by
    rw [Settings.fits_iff hentry]
    rintro ⟨s, hs⟩
    cases hs
  obtain ⟨hdocument, -, hlines, -⟩ :=
    loadFrom_decided 0o755 0o644 "config.toml" (Line.document lobby)
  obtain ⟨-, hload, -⟩ := hdocument _ (hlines lobby hkeys rfl)
  obtain ⟨s, hs, hunique⟩ := hload hfits
  obtain rfl := (hunique _).1 ((Settings.follows_iff hentries).2 hsettings)
  obtain ⟨hdocument, -, hlines, -⟩ :=
    loadFrom_decided 0o755 0o644 "config.toml" (Line.document panorama)
  exact ⟨hkeys, hfits, hs, hunfit, (hdocument _ (hlines panorama hwide rfl)).2.2 hunfit⟩

end BrowserHost.Home
