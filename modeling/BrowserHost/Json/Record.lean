import BrowserHost.Event.Notice
import BrowserHost.Event.Timestamp
import BrowserHost.Event.Uuid
import BrowserHost.Health.ProcessInfo
import BrowserHost.Json.Text
import BrowserHost.Json.Value
import BrowserHost.Lifecycle

/-!
# BrowserHost.Json.Record

The JSON form of the data that leaves the process.  A name, of a state, a
command or a notice, is a string, or an object with the name as its one key
and null as its value.  A record is an object of its fields, or an array of
them in order; other fields are passed over, and an optional field may be
absent or null.  A notice is an object of its name and its value, in either
order, or the array of the two.
-/

namespace BrowserHost

/-- A moment's notice: who said it and when. -/
structure BrowserEvent where
  id : Event.Uuid
  timestamp : Event.Timestamp
  source : String
  payload : Notice
  deriving DecidableEq, Repr

namespace Json

open Value

/-! ## names -/

/-- The name of a state. -/
def stateName : State → String
  | .uninitialized => "Uninitialized"
  | .suspended => "Suspended"
  | .resumed => "Resumed"

/-- The state of that name. -/
def stateOfName? : String → Option State
  | "Uninitialized" => some .uninitialized
  | "Suspended" => some .suspended
  | "Resumed" => some .resumed
  | _ => none

/-- The name of a command. -/
def commandName : Command → String
  | .suspend => "Suspend"
  | .resume => "Resume"

/-- The command of that name. -/
def commandOfName? : String → Option Command
  | "Suspend" => some .suspend
  | "Resume" => some .resume
  | _ => none

/-- The name that a value spells: as a string, or as the one key of an object
whose value `isUnit`. -/
def unitName? (isUnit : Value → Bool) : Value → Option String
  | .string s => s
  | .object [(some k, v)] => if isUnit v then some k else none
  | _ => none

/-- Null is the unit. -/
def isNull : Value → Bool
  | .null => true
  | _ => false

/-- In a value read ahead of its name, an empty object is a unit too. -/
def isNullOrEmpty : Value → Bool
  | .null => true
  | .object [] => true
  | _ => false

/-- The text of a name. -/
def nameText (name : String) : List Char :=
  quote name.toList

/-! ## records -/

def viewText (v : View) : List Char :=
  objectText [("visible", boolText v.visible), ("in_window", boolText v.inWindow)]

def view? (v : Value) : Option View := do
  match ← fields? ["visible", "in_window"] v with
  | [some visible, some inWindow] => some ⟨← visible.asBool?, ← inWindow.asBool?⟩
  | _ => none

def processText (p : ProcessInfo) : List Char :=
  objectText
    [ ("pid", natText p.pid.toNat),
      ("parent", p.parent.elim nullText fun n => natText n.toNat),
      ("name", quote p.name.toList),
      ("resident", natText p.resident.toNat),
      ("allocated", natText p.allocated.toNat),
      ("shared", natText p.shared.toNat),
      ("active", boolText p.active) ]

/-- A 32-bit number. -/
def asUInt32? (v : Value) : Option UInt32 :=
  (v.asNat? Text.max32).map UInt32.ofNat

/-- A 64-bit number. -/
def asUInt64? (v : Value) : Option UInt64 :=
  (v.asNat? Text.max64).map UInt64.ofNat

/-- An optional field: absent, null, or a value that `f` reads. -/
def optional? {α : Type} (f : Value → Option α) : Option Value → Option (Option α)
  | none => some none
  | some .null => some none
  | some v => (f v).map some

def process? (v : Value) : Option ProcessInfo := do
  match ← fields? ["pid", "parent", "name", "resident", "allocated", "shared", "active"] v with
  | [some pid, parent, some name, some resident, some allocated, some shared, some active] =>
    some
      { pid := ← asUInt32? pid, parent := ← optional? asUInt32? parent, name := ← name.asString?,
        resident := ← asUInt64? resident, allocated := ← asUInt64? allocated,
        shared := ← asUInt64? shared, active := ← active.asBool? }
  | _ => none

/-! ## notices -/

def noticeText : Notice → List Char
  | .stateChanged s =>
    objectText [("event", nameText "StateChanged"), ("data", nameText (stateName s))]
  | .urlChanged u => objectText [("event", nameText "UrlChanged"), ("data", quote u.toList)]
  | .loadFinished u => objectText [("event", nameText "LoadFinished"), ("data", quote u.toList)]
  | .hidden h => objectText [("event", nameText "Hidden"), ("data", boolText h)]
  | .closureRequested => objectText [("event", nameText "ClosureRequested")]

/-- The notice of the given name with the given data; `ahead` tells that the
data stood before the name. -/
def noticeOf? (ahead : Bool) (name : String) (data : Option Value) : Option Notice :=
  match name, data with
  | "StateChanged", some v =>
    ((unitName? (if ahead then isNullOrEmpty else isNull) v).bind stateOfName?).map .stateChanged
  | "UrlChanged", some v => v.asString?.map .urlChanged
  | "LoadFinished", some v => v.asString?.map .loadFinished
  | "Hidden", some v => v.asBool?.map .hidden
  | "ClosureRequested", none => some .closureRequested
  | "ClosureRequested", some .null => some .closureRequested
  | _, _ => none

/-- Whether the data stands before the name. -/
def dataAhead : Value → Bool
  | .object ms =>
    (ms.find? fun m => m.1 == some "event" || m.1 == some "data").any (·.1 == some "data")
  | _ => false

def notice? (v : Value) : Option Notice := do
  match ← fields? ["event", "data"] v with
  | [some name, data] => noticeOf? (dataAhead v) (← unitName? isNull name) data
  | _ => none

/-! ## events -/

def eventText (e : BrowserEvent) : List Char :=
  objectText
    [ ("id", quote e.id.toText),
      ("timestamp", quote e.timestamp.toText.toList),
      ("source", quote e.source.toList),
      ("payload", noticeText e.payload) ]

def event? (v : Value) : Option BrowserEvent := do
  match ← fields? ["id", "timestamp", "source", "payload"] v with
  | [some id, some timestamp, some source, some payload] =>
    some
      { id := ← Event.Uuid.ofText? (← id.asString?).toList,
        timestamp := ← Event.Timestamp.ofText? (← timestamp.asString?).toList,
        source := ← source.asString?, payload := ← notice? payload }
  | _ => none

/-! ## normal form -/

/-- The kinds of value that have a JSON form. -/
inductive Kind
  | state
  | command
  | view
  | process
  | notice
  | event

/-- Read a text as a value of a kind, and write the value. -/
def normalize? (k : Kind) (text : List Char) : Option (List Char) := do
  let v ← Value.ofText? text
  match k with
  | .state => ((unitName? isNull v).bind stateOfName?).map (nameText ∘ stateName)
  | .command => ((unitName? isNull v).bind commandOfName?).map (nameText ∘ commandName)
  | .view => (view? v).map viewText
  | .process => (process? v).map processText
  | .notice => (notice? v).map noticeText
  | .event => (event? v).map eventText

theorem stateOfName?_stateName (s : State) : stateOfName? (stateName s) = some s := by
  cases s <;> rfl

theorem commandOfName?_commandName (c : Command) : commandOfName? (commandName c) = some c := by
  cases c <;> rfl

end Json

end BrowserHost
