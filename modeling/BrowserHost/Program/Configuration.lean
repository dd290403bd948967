import BrowserHost.Settings.Home
import BrowserHost.Text.Style

/-!
# BrowserHost.Program.Configuration

Which settings the program runs with.  Those of the file, where it can be
read; else the defaults, which are saved where no file is found.  The
environment has its say in every case.
-/

namespace BrowserHost.Program

open Text (painted)

/-- Whether colour is shown: the environment can only force it. -/
def showsColor (env : Environment) : Bool :=
  match env.text? "CLICOLOR_FORCE" with
  | some s => s != "0"
  | none => false

/-- The settings to run with, what is said about them, and the home directory
as it is left. -/
structure Configuration where
  settings : Settings
  report : String
  home : Home

namespace Configuration

/-- What is said about settings that were loaded. -/
def loadedText (color : Bool) (path : String) : String :=
  "  Config loaded from " ++ painted color .bold path ++ "\n"

/-- What is said about defaults that were saved. -/
def savedText (color : Bool) (path : String) : String :=
  "  " ++ painted color .boldGreen "✓" ++ " Default config written to " ++
    painted color .bold path ++ "\n"

/-- What is said about a fault. -/
def faultText (color : Bool) (what : String) (e : Fault) : String :=
  painted color .red what ++ ": " ++ e.message ++ "\n"

/-- Save the defaults, and run with them. -/
def first (home : Home) (env : Environment) (u : User := .superuser) : Configuration :=
  let color := showsColor env
  let path := env.settingsPath
  match home.save path {} u with
  | (.ok _, h) => ⟨.ofEnvironment env, savedText color path, h⟩
  | (.error e, h) => ⟨.ofEnvironment env, faultText color "Error saving config" e, h⟩

/-- Find the settings to run with. -/
def find (home : Home) (env : Environment) (u : User := .superuser) : Configuration :=
  let color := showsColor env
  match home.load env u with
  | .ok (some s) => ⟨s, loadedText color env.settingsPath, home⟩
  | .ok none => first home env u
  | .error e =>
    ⟨.ofEnvironment env,
      faultText color "Config error" e ++ "  Using default configuration.\n", home⟩

end Configuration

end BrowserHost.Program
