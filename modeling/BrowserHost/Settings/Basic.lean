import BrowserHost.Binary64

/-!
# BrowserHost.Settings.Basic

The settings that a user keeps, and the parts of them that the browser
instance and the process monitor are given.
-/

namespace BrowserHost

/-! ## what is kept -/

/-- The settings, with their defaults. -/
structure Settings where
  url : String := "http://www.google.com"
  /-- Whether the environment may replace the URL. -/
  environmentOverride : Bool := false
  width : UInt32 := 1280
  height : UInt32 := 720
  scaleFactor : Binary64 := ⟨0x3FF0000000000000⟩
  maxFps : UInt32 := 60
  /-- Whether displayed frames are counted. -/
  fpsSampling : Bool := false
  pageGroup : String := "WPEPageGroup"
  userAgent : Option String := none
  cookieStorage : Option String := none
  localStorage : Option String := none
  languages : List String := []
  certificateCheck : Bool := true
  transparent : Bool := false
  dataPath : String := ""
  mandatoryProcesses : List String := ["WPENetworkProcess", "WPEWebProcess"]
  gracePeriodSecs : UInt64 := 10
  teardownTimeoutMs : UInt64 := 6000
  deriving DecidableEq, Repr

/-! ## what is handed on -/

/-- What a browser instance is started with; the timeout is in nanoseconds. -/
structure BrowserSettings where
  url : String
  width : UInt32
  height : UInt32
  scaleFactor : Binary64
  maxFps : UInt32
  fpsSampling : Bool
  pageGroup : String
  userAgent : Option String
  cookieStorage : Option String
  localStorage : Option String
  languages : List String
  certificateCheck : Bool
  transparent : Bool
  dataPath : String
  teardownTimeout : Nat
  deriving DecidableEq, Repr

/-- What the process monitor needs; the grace window is in seconds. -/
structure MonitorSettings where
  mandatory : List String
  graceSecs : Nat
  deriving DecidableEq, Repr

namespace Settings

/-- The instance's part. -/
def browser (s : Settings) : BrowserSettings :=
  { url := s.url, width := s.width, height := s.height, scaleFactor := s.scaleFactor,
    maxFps := s.maxFps, fpsSampling := s.fpsSampling, pageGroup := s.pageGroup,
    userAgent := s.userAgent, cookieStorage := s.cookieStorage, localStorage := s.localStorage,
    languages := s.languages, certificateCheck := s.certificateCheck,
    transparent := s.transparent, dataPath := s.dataPath,
    teardownTimeout := s.teardownTimeoutMs.toNat * Nat.pow 10 6 }

/-- The monitor's part. -/
def monitor (s : Settings) : MonitorSettings :=
  { mandatory := s.mandatoryProcesses, graceSecs := s.gracePeriodSecs.toNat }

end Settings

/-- The settings for an engine that runs no helper processes. -/
def MonitorSettings.withoutHelpers (m : MonitorSettings) : MonitorSettings :=
  { m with mandatory := [] }

end BrowserHost
