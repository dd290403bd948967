import BrowserHost.Fault
import BrowserHost.Settings.Document
import BrowserHost.Settings.Environment

/-!
# BrowserHost.Settings.Home

The settings file in a user's home directory.  Only what matters to it is
kept: the directory of the file, the file itself, and the permission bits of
both.  What the program can do with them depends on who runs it; the home
directory itself is taken to be open to them, and the superuser is meant where
nobody is named.

* `Home.loadFrom`: a file that the user may not look up counts as missing;
* `Home.save_error`: what a failed save leaves behind in place of the file is
  what was there before.
-/

namespace BrowserHost

/-! ## users -/

/-- How somebody stands to a file or a directory. -/
inductive Standing
  | owner
  | group
  | other
  deriving DecidableEq, Repr

/-- Where the bits for them begin among permission bits. -/
def Standing.shift : Standing → Nat
  | .owner => 6
  | .group => 3
  | .other => 0

/-- Who runs the program: the superuser, whom permission bits do not stop, or
somebody who stands in some way to the directory of the settings and to their
file. -/
inductive User
  | superuser
  | plain (directory file : Standing)
  deriving DecidableEq, Repr

namespace User

/-- Whether they may look up files in a directory with these permission bits. -/
def searches : User → Nat → Bool
  | .superuser, _ => true
  | .plain d _, mode => mode.testBit d.shift

/-- Whether they may change the permission bits of the directory. -/
def restricts : User → Bool
  | .superuser => true
  | .plain d _ => d == .owner

/-- Whether they may read a file with these permission bits. -/
def reads : User → Nat → Bool
  | .superuser, _ => true
  | .plain _ f, mode => mode.testBit (f.shift + 2)

/-- Whether they may write to such a file. -/
def writes : User → Nat → Bool
  | .superuser, _ => true
  | .plain _ f, mode => mode.testBit (f.shift + 1)

end User

/-! ## directories and files -/

/-- A file's permission bits and its bytes. -/
structure File where
  mode : Nat
  content : ByteArray

instance : DecidableEq File := fun f g =>
  decidable_of_iff (f.mode = g.mode ∧ f.content.data = g.content.data) <| by
    obtain ⟨m, ⟨c⟩⟩ := f
    obtain ⟨n, ⟨d⟩⟩ := g
    simp

/-- What stands where the settings file is looked for. -/
inductive Place
  | absent
  | directory
  | file (f : File)
  deriving DecidableEq

/-- What stands where the directory of the settings is looked for: nothing,
something else, or a directory with its permission bits. -/
inductive Home
  | absent
  | notDirectory
  | directory (mode : Nat) (settings : Place)
  deriving DecidableEq

namespace Home

/-- The place of the settings file. -/
def settings : Home → Place
  | .directory _ p => p
  | _ => .absent

/-- The bytes of the settings file. -/
def content? (h : Home) : Option ByteArray :=
  match h.settings with
  | .file f => some f.content
  | _ => none

/-- The permission bits of the settings file. -/
def fileMode? (h : Home) : Option Nat :=
  match h.settings with
  | .file f => some f.mode
  | _ => none

/-- The permission bits of the directory. -/
def directoryMode? : Home → Option Nat
  | .directory m _ => some m
  | _ => none

/-! ## loading -/

/-- What a user finds in place of the settings file. -/
def seenBy (h : Home) (u : User) : Place :=
  match h with
  | .directory m p => if u.searches m then p else .absent
  | _ => .absent

/-- The settings of a file, without the environment's overrides. -/
def read (path : String) (f : File) : Except Fault Settings :=
  match String.fromUTF8? f.content with
  | none => .error (.config ("failed to read " ++ path ++ ": stream did not contain valid UTF-8"))
  | some text =>
    match Settings.ofText? text.toList with
    | none => .error (.config ("failed to parse " ++ path))
    | some s => .ok s

/-- The settings in the home directory, `none` if no file is found; `path` is
named in faults. -/
def loadFrom (h : Home) (path : String) (u : User := .superuser) :
    Except Fault (Option Settings) :=
  match h.seenBy u with
  | .absent => .ok none
  | .directory => .error (.config ("failed to read " ++ path ++ ": Is a directory (os error 21)"))
  | .file f =>
    if u.reads f.mode then (read path f).map some
    else .error (.config ("failed to read " ++ path ++ ": Permission denied (os error 13)"))

/-- The settings in the home directory as the environment changes them. -/
def load (h : Home) (env : Environment) (u : User := .superuser) :
    Except Fault (Option Settings) :=
  (h.loadFrom env.settingsPath u).map (·.map (·.overriddenBy env))

/-! ## saving -/

/-- The permission bits of a directory that only its owner may use. -/
def privateDirectory : Nat := 0o700

/-- The permission bits of a new file that only its owner may use. -/
def privateFile : Nat := 0o600

/-- Create the directory if it is missing, and restrict it to its owner. -/
def prepared (h : Home) (u : User := .superuser) : Except Fault Home :=
  match h with
  | .absent => .ok (.directory privateDirectory .absent)
  | .notDirectory =>
    .error (.config "failed to create config directory: File exists (os error 17)")
  | .directory _ p =>
    if u.restricts then .ok (.directory privateDirectory p)
    else
      .error (.config "failed to restrict config directory: Operation not permitted (os error 1)")

/-- Write the file in a directory that is prepared.  It keeps its permission bits
if it exists. -/
def write (h : Home) (path : String) (content : ByteArray) (u : User := .superuser) :
    Except Fault Home :=
  match h with
  | .directory m .absent => .ok (.directory m (.file ⟨privateFile, content⟩))
  | .directory m (.file f) =>
    if u.writes f.mode then .ok (.directory m (.file { f with content := content }))
    else .error (.config ("failed to write " ++ path ++ ": Permission denied (os error 13)"))
  | _ => .error (.config ("failed to write " ++ path ++ ": Is a directory (os error 21)"))

/-- The bytes of the document of settings. -/
def bytes (s : Settings) : Except Fault ByteArray :=
  s.toText?.elim
    (.error (.config "failed to serialize config: out-of-range value for u64 type"))
    fun text => .ok (String.ofList text).toUTF8

/-- Replace the settings in a directory that is prepared. -/
def replaced (h : Home) (path : String) (s : Settings) (u : User := .superuser) :
    Except Fault Home := do
  h.write path (← bytes s) u

/-- The fault of a step, if there is one, and what it leaves behind. -/
def after (h : Home) : Except Fault Home → Except Fault Unit × Home
  | .error e => (.error e, h)
  | .ok h' => (.ok (), h')

/-- Save settings at `path`: the fault, if there is one, and the home directory
as it is left. -/
def save (h : Home) (path : String) (s : Settings) (u : User := .superuser) :
    Except Fault Unit × Home :=
  match h.prepared u with
  | .error e => (.error e, h)
  | .ok h => h.after (h.replaced path s u)

section

variable {h h' : Home} {path : String} {s : Settings} {u : User}

theorem settings_prepared (hp : h.prepared u = .ok h') : h'.settings = h.settings := by
  unfold prepared at hp
  cases h with
  | notDirectory => cases hp
  | absent =>
    obtain rfl := Except.ok.inj hp
    rfl
  | directory m p =>
    simp only at hp
    split at hp
    · obtain rfl := Except.ok.inj hp
      rfl
    · cases hp

theorem settings_after {r : Except Fault Home} {e : Fault} (he : (h.after r).1 = .error e) :
    (h.after r).2.settings = h.settings := by
  cases r <;> simp_all [after]

theorem save_error {e : Fault} (he : (h.save path s u).1 = .error e) :
    (h.save path s u).2.settings = h.settings := by
  revert he
  unfold save
  cases hp : h.prepared u with
  | error e => exact fun _ => rfl
  | ok h' => exact fun he => (settings_after he).trans (settings_prepared hp)

end

end Home

end BrowserHost
