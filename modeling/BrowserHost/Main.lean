import BrowserHost.Program.Basic

/-!
# BrowserHost.Main

The program on a real system: what it is given is read here, what it decides is
carried out here.
-/

open BrowserHost

namespace BrowserHost.Main

/-! ## what the program is given -/

/-- The variables that the program looks at. -/
def variableNames : List String :=
  [ "HOME", "USERPROFILE", "CLICOLOR_FORCE", "OTEL_EXPORTER_OTLP_ENDPOINT", "WEBHOST_URL",
    "WEBHOST_WIDTH", "WEBHOST_HEIGHT", "WEBHOST_MAX_FPS" ]

/-- The variables that are set. -/
def readEnvironment : IO Environment :=
  variableNames.filterMapM fun name => do
    return (← IO.getEnv name).map fun value => (name, value.toUTF8)

/-- What stands at the path of the settings. -/
def readHome (path : String) : IO Home := do
  try
    let content ← IO.FS.readBinFile path
    return .directory 0o755 (.file ⟨0o644, content⟩)
  catch
    | .noFileOrDirectory .. => return .absent
    | .inappropriateType _ code _ =>
      return if code = 21 then .directory 0o755 .directory else .notDirectory
    | _ => return .directory 0o755 .directory

/-! ## what it does -/

/-- What an owner may do, and nobody else. -/
def ownerOnly (isDirectory : Bool) : IO.FileRight :=
  { user := { read := true, write := true, execution := isDirectory } }

/-- Write the settings file where the program has changed it. -/
def writeHome (env : Environment) (before after : Home) : IO Unit := do
  let directory := settingsDirectoryIn env.home
  match after.content? with
  | some content =>
    if before ≠ after then
      IO.FS.createDirAll directory
      IO.setAccessRights directory (ownerOnly true)
      IO.FS.writeBinFile env.settingsPath content
      IO.setAccessRights env.settingsPath (ownerOnly false)
  | none => return

/-- Print pieces of output. -/
def printPieces (color : Bool) (ps : List Shell.Piece) : IO Unit :=
  ps.forM fun p => IO.print (p.toText color)

/-- Print what a session has to print, and forget it. -/
def flushed (s : Shell.Session) : IO Shell.Session := do
  printPieces s.console.color s.out.reverse
  (← IO.getStdout).flush
  IO.eprint s.err
  return { s with out := [], err := "" }

/-- The bytes of the next line; none at the end of the input. -/
def nextLine : IO (Option (List UInt8)) := do
  try
    let line ← (← IO.getStdin).getLine
    return if line.isEmpty then none else some line.toUTF8.toList
  catch _ => return some [0xFF]

/-- Read lines until there is a reason to stop. -/
partial def serve (s : Shell.Session) : IO Shell.Session := do
  if s.isOver then return s
  IO.print (Shell.promptText s.console.color)
  (← IO.getStdout).flush
  match ← nextLine with
  | none => return s
  | some l =>
    let s := Program.readLine s l
    serve (← flushed { s with out := s.out.filter (· != .prompt) })

end BrowserHost.Main

/-- Run the program. -/
def main : IO UInt32 := do
  let env ← Main.readEnvironment
  let home ← Main.readHome env.settingsPath
  let c := Program.Configuration.find home env
  Main.writeHome env home c.home
  let s ← Main.flushed (Program.started env c)
  let s ← Main.serve s
  let _ ← Main.flushed (Program.ended s)
  return 0
