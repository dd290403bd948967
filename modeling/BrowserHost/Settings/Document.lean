import BrowserHost.Settings.Basic
import BrowserHost.Toml.Document
import BrowserHost.Toml.Written

/-!
# BrowserHost.Settings.Document

Settings as a TOML document.  A key that the document lacks keeps its default,
an unknown key is passed over, and a known key with a value of the wrong kind
spoils the whole.
-/

namespace BrowserHost.Settings

open Toml (Value Field)

/-! ## reading -/

/-- Text. -/
def asString? : Value → Option String
  | .string s => some s
  | _ => none

/-- A truth value. -/
def asBool? : Value → Option Bool
  | .boolean b => some b
  | _ => none

/-- A whole number from zero up to a limit. -/
def asNat? (limit : Nat) : Value → Option Nat
  | .integer n => if 0 ≤ n ∧ n ≤ limit then some n.toNat else none
  | _ => none

/-- A number of 32 bits. -/
def asUInt32? (v : Value) : Option UInt32 :=
  (asNat? Text.max32 v).map UInt32.ofNat

/-- A number of 64 bits. -/
def asUInt64? (v : Value) : Option UInt64 :=
  (asNat? Text.max64 v).map UInt64.ofNat

/-- A float, or an integer as the nearest float. -/
def asFloat? : Value → Option Binary64
  | .float x => some x
  | .integer n => some (.ofInt n)
  | _ => none

/-- A list of texts. -/
def asStrings? : Value → Option (List String)
  | .array vs => vs.mapM asString?
  | _ => none

/-- What `f` reads under a key, or the default if the key is absent. -/
def field? {α : Type} (entries : List (String × Value)) (key : String) (f : Value → Option α)
    (default : α) : Option α :=
  match entries.lookup key with
  | some v => f v
  | none => some default

/-- The settings that the entries of a document give. -/
def ofEntries? (es : List (String × Value)) : Option Settings := do
  let d : Settings := {}
  some
    { url := ← field? es "url" asString? d.url
      environmentOverride := ← field? es "environment_override" asBool? d.environmentOverride
      width := ← field? es "width" asUInt32? d.width
      height := ← field? es "height" asUInt32? d.height
      scaleFactor := ← field? es "scale_factor" asFloat? d.scaleFactor
      maxFps := ← field? es "max_fps" asUInt32? d.maxFps
      fpsSampling := ← field? es "fps_sampling" asBool? d.fpsSampling
      pageGroup := ← field? es "page_group" asString? d.pageGroup
      userAgent := ← field? es "user_agent" (fun v => (asString? v).map some) d.userAgent
      cookieStorage := ← field? es "cookie_storage" (fun v => (asString? v).map some) d.cookieStorage
      localStorage := ← field? es "local_storage" (fun v => (asString? v).map some) d.localStorage
      languages := ← field? es "languages" asStrings? d.languages
      certificateCheck := ← field? es "certificate_check" asBool? d.certificateCheck
      transparent := ← field? es "transparent" asBool? d.transparent
      dataPath := ← field? es "data_path" asString? d.dataPath
      mandatoryProcesses := ← field? es "mandatory_processes" asStrings? d.mandatoryProcesses
      gracePeriodSecs := ← field? es "grace_period_secs" asUInt64? d.gracePeriodSecs
      teardownTimeoutMs := ← field? es "teardown_timeout_ms" asUInt64? d.teardownTimeoutMs }

/-- The settings that a document gives. -/
def ofText? (text : List Char) : Option Settings := do
  ofEntries? (← Toml.document? text)

/-! ## writing -/

/-- A field that is left out when there is no text. -/
def optionalField (key : String) (s : Option String) : List (String × Field) :=
  s.toList.map fun s => (key, .string s)

/-- The keys and fields of a document. -/
def fields (s : Settings) : List (String × Field) :=
  [ ("url", .string s.url),
    ("environment_override", .boolean s.environmentOverride),
    ("width", .unsigned s.width.toNat),
    ("height", .unsigned s.height.toNat),
    ("scale_factor", .float s.scaleFactor),
    ("max_fps", .unsigned s.maxFps.toNat),
    ("fps_sampling", .boolean s.fpsSampling),
    ("page_group", .string s.pageGroup) ] ++
  optionalField "user_agent" s.userAgent ++
  optionalField "cookie_storage" s.cookieStorage ++
  optionalField "local_storage" s.localStorage ++
  [ ("languages", .strings s.languages),
    ("certificate_check", .boolean s.certificateCheck),
    ("transparent", .boolean s.transparent),
    ("data_path", .string s.dataPath),
    ("mandatory_processes", .strings s.mandatoryProcesses),
    ("grace_period_secs", .unsigned s.gracePeriodSecs.toNat),
    ("teardown_timeout_ms", .unsigned s.teardownTimeoutMs.toNat) ]

/-- The document of the settings, unless a number is out of range. -/
def toText? (s : Settings) : Option (List Char) :=
  Toml.written? s.fields

/-- Whether two settings are equal as values: no number is unequal to
itself. -/
def same (s t : Settings) : Bool :=
  s.scaleFactor.same t.scaleFactor && { s with scaleFactor := t.scaleFactor } == t

end BrowserHost.Settings
