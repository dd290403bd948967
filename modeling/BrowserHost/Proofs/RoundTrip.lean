import BrowserHost.Json.Record
import BrowserHost.Proofs.Imprint
import BrowserHost.Proofs.Spelling

/-!
# BrowserHost.Proofs.RoundTrip

The data that leaves the process, written and read again.

* `fields?_objectOf`: a record finds its fields in the object of them;
* `Kind.spells_value`: what is written of a value spells its JSON form;
* `Kind.read?_value`: the JSON form is read as the value;
* `json_round_trip`: so what is written is read back, and a text that was read and
  written once is in normal form.
-/

namespace BrowserHost.Json

open Value Text

/-! ## records -/

/-- The object with these members. -/
def objectOf (ms : List (String × Value)) : Value :=
  .object (ms.map fun m => (some m.1, m.2))

theorem keyed?_map (ms : List (String × Value)) :
    keyed? (ms.map fun m => (some m.1, m.2)) = some ms := by
  induction ms with
  | nil => rfl
  | cons m ms ih => simp [keyed?, ih]

/-- Where no key repeats, a key has the one value that stands with it. -/
theorem valuesOf_of_mem {ms : List (String × Value)} (h : (ms.map (·.1)).Nodup)
    {m : String × Value} (hm : m ∈ ms) : valuesOf m.1 ms = [m.2] := by
  induction ms with
  | nil => cases hm
  | cons n ms ih =>
    obtain ⟨hnot, hnodup⟩ := List.nodup_cons.1 h
    rcases List.mem_cons.1 hm with rfl | hm
    · have hrest : ms.filter (·.1 == m.1) = [] := by
        refine List.filter_eq_nil_iff.2 fun k hk hkm => hnot ?_
        exact List.mem_map.2 ⟨k, hk, by simpa using hkm⟩
      simp [valuesOf, hrest]
    · have hne : n.1 ≠ m.1 := fun hne => hnot (List.mem_map.2 ⟨m, hm, hne.symm⟩)
      have hrest := ih hnodup hm
      unfold valuesOf at hrest ⊢
      rwa [List.filter_cons_of_neg (by simpa using hne)]

theorem mapM_map {α β γ : Type} {key : α → β} {f : β → Option γ} {g : α → γ} {xs : List α}
    (h : ∀ x ∈ xs, f (key x) = some (g x)) : (xs.map key).mapM f = some (xs.map g) := by
  induction xs with
  | nil => rfl
  | cons x xs ih =>
    have hrest := ih fun y hy => h y (.tail x hy)
    rw [List.map_cons, List.mapM_cons, h x List.mem_cons_self, hrest]
    rfl

/-- A record finds its fields in the object of them. -/
theorem fields?_objectOf (ms : List (String × Value)) (h : (ms.map (·.1)).Nodup) :
    fields? (ms.map (·.1)) (objectOf ms) = some (ms.map fun m => some m.2) := by
  simp only [fields?, objectOf, keyed?_map, Option.bind_eq_bind, Option.bind_some]
  exact mapM_map fun m hm => by rw [valuesOf_of_mem h hm]

/-- A number in JSON. -/
def numberOf (n : Nat) : Value :=
  .number (natText n)

theorem asNat?_numberOf {limit n : Nat} (h : n ≤ limit) : (numberOf n).asNat? limit = some n := by
  simp [numberOf, asNat?, natText_eq, digits?_toDigits, h]

theorem asUInt32?_numberOf (n : UInt32) : asUInt32? (numberOf n.toNat) = some n := by
  have hle : n.toNat ≤ max32 := by
    have := n.toNat_lt
    simp only [max32, Nat.pow_eq]
    omega
  simp [asUInt32?, asNat?_numberOf hle]

theorem asUInt64?_numberOf (n : UInt64) : asUInt64? (numberOf n.toNat) = some n := by
  have hle : n.toNat ≤ max64 := by
    have := n.toNat_lt
    simp only [max64, Nat.pow_eq]
    omega
  simp [asUInt64?, asNat?_numberOf hle]

/-! ## the JSON form of the data -/

def viewFields (v : View) : List (String × Value) :=
  [("visible", .bool v.visible), ("in_window", .bool v.inWindow)]

def processFields (p : ProcessInfo) : List (String × Value) :=
  [ ("pid", numberOf p.pid.toNat),
    ("parent", p.parent.elim .null fun n => numberOf n.toNat),
    ("name", .string (some p.name)),
    ("resident", numberOf p.resident.toNat),
    ("allocated", numberOf p.allocated.toNat),
    ("shared", numberOf p.shared.toNat),
    ("active", .bool p.active) ]

def noticeFields : Notice → List (String × Value)
  | .stateChanged s =>
    [("event", .string (some "StateChanged")), ("data", .string (some (stateName s)))]
  | .urlChanged u => [("event", .string (some "UrlChanged")), ("data", .string (some u))]
  | .loadFinished u => [("event", .string (some "LoadFinished")), ("data", .string (some u))]
  | .hidden h => [("event", .string (some "Hidden")), ("data", .bool h)]
  | .closureRequested => [("event", .string (some "ClosureRequested"))]

def eventFields (e : BrowserEvent) : List (String × Value) :=
  [ ("id", .string (some (String.ofList e.id.toText))),
    ("timestamp", .string (some e.timestamp.toText)),
    ("source", .string (some e.source)),
    ("payload", objectOf (noticeFields e.payload)) ]

theorem spells_viewText (v : View) : Spells (viewText v) (objectOf (viewFields v)) :=
  spells_objectText
    (.cons ⟨rfl, spells_boolText _⟩ (.cons ⟨rfl, spells_boolText _⟩ .nil)) (by simp)

theorem spells_nameText (name : String) : Spells (nameText name) (.string (some name)) :=
  spells_quote name

theorem spells_processText (p : ProcessInfo) :
    Spells (processText p) (objectOf (processFields p)) := by
  have hparent : Spells (p.parent.elim nullText fun n => natText n.toNat)
      (p.parent.elim .null fun n => numberOf n.toNat) := by
    cases p.parent with
    | none => exact spells_nullText
    | some n => exact spells_natText _
  exact spells_objectText
    (.cons ⟨rfl, spells_natText _⟩ (.cons ⟨rfl, hparent⟩ (.cons ⟨rfl, spells_quote _⟩
      (.cons ⟨rfl, spells_natText _⟩ (.cons ⟨rfl, spells_natText _⟩
        (.cons ⟨rfl, spells_natText _⟩ (.cons ⟨rfl, spells_boolText _⟩ .nil))))))) (by simp)

theorem spells_noticeText (n : Notice) : Spells (noticeText n) (objectOf (noticeFields n)) := by
  have hname (name : String) : MemberSpells ("event", nameText name)
      (some "event", .string (some name)) := ⟨rfl, spells_quote name⟩
  cases n with
  | stateChanged s =>
    exact spells_objectText (.cons (hname _) (.cons ⟨rfl, spells_quote _⟩ .nil)) (by simp)
  | urlChanged u | loadFinished u =>
    exact spells_objectText (.cons (hname _) (.cons ⟨rfl, spells_quote u⟩ .nil)) (by simp)
  | hidden h =>
    exact spells_objectText (.cons (hname _) (.cons ⟨rfl, spells_boolText h⟩ .nil)) (by simp)
  | closureRequested => exact spells_objectText (.cons (hname _) .nil) (by simp)

theorem spells_eventText (e : BrowserEvent) : Spells (eventText e) (objectOf (eventFields e)) := by
  have hid : Spells (quote e.id.toText) (.string (some (String.ofList e.id.toText))) := by
    have hquote := spells_quote (String.ofList e.id.toText)
    rwa [String.toList_ofList] at hquote
  exact spells_objectText
    (.cons ⟨rfl, hid⟩ (.cons ⟨rfl, spells_quote _⟩ (.cons ⟨rfl, spells_quote _⟩
      (.cons ⟨rfl, spells_noticeText _⟩ .nil)))) (by simp)

/-! ## reading it -/

theorem view?_objectOf (v : View) : view? (objectOf (viewFields v)) = some v := by
  have hfields : fields? ["visible", "in_window"] (objectOf (viewFields v)) =
      some [some (.bool v.visible), some (.bool v.inWindow)] :=
    fields?_objectOf (viewFields v) (by simp [viewFields])
  simp [view?, hfields, asBool?]

theorem optional?_parent (parent : Option UInt32) :
    optional? asUInt32? (some (parent.elim .null fun n => numberOf n.toNat)) = some parent := by
  cases parent with
  | none => rfl
  | some n =>
    have hread := asUInt32?_numberOf n
    simp [optional?, numberOf] at hread ⊢
    exact hread

theorem process?_objectOf (p : ProcessInfo) : process? (objectOf (processFields p)) = some p := by
  have hfields :
      fields? ["pid", "parent", "name", "resident", "allocated", "shared", "active"]
        (objectOf (processFields p)) =
      some [some (numberOf p.pid.toNat), some (p.parent.elim .null fun n => numberOf n.toNat),
        some (.string (some p.name)), some (numberOf p.resident.toNat),
        some (numberOf p.allocated.toNat), some (numberOf p.shared.toNat),
        some (.bool p.active)] :=
    fields?_objectOf (processFields p) (by simp [processFields])
  simp [process?, hfields, asUInt32?_numberOf, asUInt64?_numberOf, optional?_parent, asString?,
    asBool?]

/-- A name with data, in the order in which they are written. -/
theorem notice?_tagged (name : String) (data : Value) :
    notice? (objectOf [("event", .string (some name)), ("data", data)]) =
      noticeOf? false name (some data) := by
  have hfields : fields? ["event", "data"]
      (objectOf [("event", .string (some name)), ("data", data)]) =
      some [some (.string (some name)), some data] :=
    fields?_objectOf [("event", .string (some name)), ("data", data)] (by simp)
  have hbehind : dataAhead (objectOf [("event", .string (some name)), ("data", data)]) = false :=
    rfl
  simp [notice?, hfields, hbehind, unitName?]

theorem notice?_objectOf (n : Notice) : notice? (objectOf (noticeFields n)) = some n := by
  cases n with
  | stateChanged s =>
    rw [noticeFields, notice?_tagged]
    simp [noticeOf?, unitName?, stateOfName?_stateName]
  | urlChanged _ | loadFinished _ | hidden _ =>
    rw [noticeFields, notice?_tagged]
    rfl
  | closureRequested => rfl

theorem event?_objectOf (e : BrowserEvent) (h : e.timestamp.IsReadable) :
    event? (objectOf (eventFields e)) = some e := by
  have hfields : fields? ["id", "timestamp", "source", "payload"] (objectOf (eventFields e)) =
      some [some (.string (some (String.ofList e.id.toText))),
        some (.string (some e.timestamp.toText)), some (.string (some e.source)),
        some (objectOf (noticeFields e.payload))] :=
    fields?_objectOf (eventFields e) (by simp [eventFields])
  simp [event?, hfields, asString?, Event.Uuid.ofText?_toText,
    Event.Timestamp.ofText?_toText h, notice?_objectOf]

/-- The moment of an event that was read was read too. -/
theorem exists_timestamp_of_event? {v : Value} {e : BrowserEvent} (h : event? v = some e) :
    ∃ text, Event.Timestamp.ofText? text = some e.timestamp := by
  simp only [event?, Option.bind_eq_bind, Option.bind_eq_some_iff] at h
  obtain ⟨fields, -, h⟩ := h
  split at h
  · simp only [Option.bind_eq_some_iff] at h
    obtain ⟨_, -, _, -, _, -, timestamp, htimestamp, _, -, _, -, h⟩ := h
    rw [← Option.some.inj h]
    exact ⟨_, htimestamp⟩
  · cases h

/-! ## every kind -/

/-- The values of a kind. -/
def Kind.Carrier : Kind → Type
  | .state => State
  | .command => Command
  | .view => View
  | .process => ProcessInfo
  | .notice => Notice
  | .event => BrowserEvent

/-- Read a JSON value as a value of the kind. -/
def Kind.read? : (k : Kind) → Value → Option k.Carrier
  | .state, v => (unitName? isNull v).bind stateOfName?
  | .command, v => (unitName? isNull v).bind commandOfName?
  | .view, v => view? v
  | .process, v => process? v
  | .notice, v => notice? v
  | .event, v => event? v

/-- Write a value of the kind. -/
def Kind.text : (k : Kind) → k.Carrier → List Char
  | .state, s => nameText (stateName s)
  | .command, c => nameText (commandName c)
  | .view, v => viewText v
  | .process, p => processText p
  | .notice, n => noticeText n
  | .event, e => eventText e

/-- The JSON form of a value of the kind. -/
def Kind.value : (k : Kind) → k.Carrier → Value
  | .state, s => .string (some (stateName s))
  | .command, c => .string (some (commandName c))
  | .view, v => objectOf (viewFields v)
  | .process, p => objectOf (processFields p)
  | .notice, n => objectOf (noticeFields n)
  | .event, e => objectOf (eventFields e)

/-- The moment of an event, if the value is one, is one that some text is read as. -/
def Kind.IsStamped : (k : Kind) → k.Carrier → Prop
  | .event, e => ∃ text, Event.Timestamp.ofText? text = some (BrowserEvent.timestamp e)
  | _, _ => True

/-- To normalize is to read and to write. -/
theorem normalize?_eq (k : Kind) (text : List Char) :
    normalize? k text = ((Value.ofText? text).bind k.read?).map k.text := by
  unfold normalize?
  cases Value.ofText? text with
  | none => rfl
  | some v => cases k <;> rfl

theorem Kind.spells_value (k : Kind) (a : k.Carrier) : Spells (k.text a) (k.value a) := by
  cases k with
  | state | command => exact spells_nameText _
  | view => exact spells_viewText a
  | process => exact spells_processText a
  | notice => exact spells_noticeText a
  | event => exact spells_eventText a

theorem Kind.read?_value (k : Kind) {a : k.Carrier} (h : k.IsStamped a) :
    k.read? (k.value a) = some a := by
  cases k with
  | state => exact stateOfName?_stateName a
  | command => exact commandOfName?_commandName a
  | view => exact view?_objectOf a
  | process => exact process?_objectOf a
  | notice => exact notice?_objectOf a
  | event =>
    exact event?_objectOf a (Event.Timestamp.exists_ofText?_iff.1 h)

/-- Whatever is read has a moment that was read, if it has one. -/
theorem Kind.isStamped_of_read? (k : Kind) {v : Value} {a : k.Carrier} (h : k.read? v = some a) :
    k.IsStamped a := by
  cases k with
  | event =>
    exact exists_timestamp_of_event? h
  | _ => trivial

/-- Reading is the inverse of writing, for every kind of data and every value, with
any characters in its texts, any numbers that fit, and any moment that can be read.
So a text that is accepted has a normal form, which is accepted as the same value
and is its own normal form. -/
theorem json_round_trip (k : Kind) :
    (∀ a : k.Carrier, k.IsStamped a → (Value.ofText? (k.text a)).bind k.read? = some a) ∧
      (∀ text a, (Value.ofText? text).bind k.read? = some a → k.IsStamped a ∧
        normalize? k text = some (k.text a)) ∧
      ∀ text out, normalize? k text = some out →
        normalize? k out = some out ∧
          (Value.ofText? out).bind k.read? = (Value.ofText? text).bind k.read? := by
  have hread (a : k.Carrier) (ha : k.IsStamped a) :
      (Value.ofText? (k.text a)).bind k.read? = some a := by
    rw [ofText?_of_spells (k.spells_value a)]
    exact k.read?_value ha
  have hstamped (text : List Char) (a : k.Carrier)
      (ha : (Value.ofText? text).bind k.read? = some a) : k.IsStamped a := by
    obtain ⟨v, -, hv⟩ := Option.bind_eq_some_iff.1 ha
    exact k.isStamped_of_read? hv
  refine ⟨hread, fun text a ha => ⟨hstamped text a ha, by rw [normalize?_eq, ha]; rfl⟩, ?_⟩
  intro text out hout
  rw [normalize?_eq] at hout
  obtain ⟨a, ha, rfl⟩ := Option.map_eq_some_iff.1 hout
  have hback := hread a (hstamped text a ha)
  exact ⟨by rw [normalize?_eq, hback]; rfl, hback.trans ha.symm⟩

/-- A leap second long ago, read with an offset, and a source of quotes, control
characters and a character beyond the first plane. -/
def leapEvent : BrowserEvent :=
  { id := ⟨List.replicate 16 0 ++ List.replicate 16 15, rfl⟩
    timestamp := ⟨⟨-1, 1, 1⟩, 0, 29, 60, 1500000⟩
    source := "\x22\\\n\x01😀"
    payload := .stateChanged .resumed }

theorem json_round_trip_leapEvent :
    (Value.ofText? (eventText leapEvent)).bind event? = some leapEvent := by
  have hread := (json_round_trip .event).1 leapEvent
  exact hread ⟨"-0002-12-31 23:59:60.0015-00:30".toList, by decide⟩

end BrowserHost.Json
