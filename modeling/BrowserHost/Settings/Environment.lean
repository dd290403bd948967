import BrowserHost.Settings.Basic
import BrowserHost.Text.Blank

/-!
# BrowserHost.Settings.Environment

Environment variables and what they change.  A variable whose value is not
text counts as unset.  Three numbers of the settings follow their variables
whenever those hold a number; the URL does so only where the settings allow
it.
-/

namespace BrowserHost

/-! ## variables -/

/-- The variables of an environment and their values. -/
abbrev Environment := List (String × ByteArray)

/-- Bytes are read as a text just if they are its bytes. -/
theorem fromUTF8?_eq_some_iff {bytes : ByteArray} {s : String} :
    String.fromUTF8? bytes = some s ↔ bytes = s.toUTF8 := by
  unfold String.fromUTF8?
  split
  · next h =>
    rw [Option.some.injEq, String.toUTF8_eq_toByteArray, ← String.toByteArray_inj]
    exact Iff.rfl
  · next h =>
    refine iff_of_false nofun fun heq => h ?_
    rw [heq, String.toUTF8_eq_toByteArray]
    exact s.isValidUTF8

/-- The text of a variable that is set. -/
def Environment.text? (env : Environment) (name : String) : Option String :=
  (env.lookup name).bind String.fromUTF8?

/-! ## overrides -/

/-- The 32-bit number that a variable holds, with blanks around it. -/
def Environment.number? (env : Environment) (name : String) : Option UInt32 := do
  let text ← env.text? name
  (Text.unsigned? Text.max32 (Text.trim text.toList)).map UInt32.ofNat

/-- The text of a variable that is set and not empty. -/
def Environment.nonempty? (env : Environment) (name : String) : Option String :=
  (env.text? name).filter (· ≠ "")

/-- The settings as the environment changes them. -/
def Settings.overriddenBy (s : Settings) (env : Environment) : Settings :=
  { s with
    url := if s.environmentOverride then (env.nonempty? "WEBHOST_URL").getD s.url else s.url
    width := (env.number? "WEBHOST_WIDTH").getD s.width
    height := (env.number? "WEBHOST_HEIGHT").getD s.height
    maxFps := (env.number? "WEBHOST_MAX_FPS").getD s.maxFps }

/-- The defaults as the environment changes them. -/
def Settings.ofEnvironment (env : Environment) : Settings :=
  ({} : Settings).overriddenBy env

/-! ## paths -/

/-- The path of `name` in the directory `base`. -/
def joinPath (base name : String) : String :=
  if base = "" ∨ base.toList.getLast? = some '/' then base ++ name else base ++ "/" ++ name

/-- The directory of the settings of the user with the given home directory. -/
def settingsDirectoryIn (home : String) : String :=
  joinPath home ".webhost"

/-- Where the settings of the user with the given home directory are. -/
def settingsPathIn (home : String) : String :=
  joinPath (settingsDirectoryIn home) "config.toml"

/-- The home directory that the environment names, or else the working
directory. -/
def Environment.home (env : Environment) : String :=
  ((env.text? "HOME").or (env.text? "USERPROFILE")).getD "."

/-- Where the settings are. -/
def Environment.settingsPath (env : Environment) : String :=
  settingsPathIn env.home

end BrowserHost
