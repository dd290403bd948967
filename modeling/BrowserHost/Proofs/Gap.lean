import BrowserHost.Proofs.Run

/-!
# BrowserHost.Proofs.Gap

Two instances of which one has seen a few loops, engines and tellings that the
other has not.  Loops, engines and tellings are numbered in the order of their
beginning, so all that came later have greater numbers in the one than in the
other: there is a gap in its numbers.

* `Gap`: the numbers that are left out;
* `Shifted`: the same but for a gap;
* `Shifted.setLoop`, `Shifted.note`: what both do keeps it that way.
-/

namespace BrowserHost.Hub

/-! ## hubs -/

/-- The two hubs have the same observers and subscribers.  What was sent over their
channels is the same too unless `deaf`. -/
structure SameHub (deaf : Bool) (h h' : Hub) : Prop where
  state : h.state = h'.state
  lifecycle : h.lifecycle = h'.lifecycle
  isOpen : h.channel.isOpen = h'.channel.isOpen
  ids : h.channel.places.map Prod.fst = h'.channel.places.map Prod.fst
  exact : deaf = false → h.channel = h'.channel

theorem Channel.ids_without (id : String) (places : List (String × Nat)) :
    (without id places).map Prod.fst = (places.map Prod.fst).filter (· != id) := by
  unfold without
  rw [List.filter_map]
  rfl

theorem Channel.isSome_place? (c : Channel) (id : String) :
    (c.place? id).isSome = (c.places.map Prod.fst).contains id := by
  unfold place?
  induction c.places with
  | nil => rfl
  | cons p places ih =>
    rw [List.lookup_cons, List.map_cons, List.contains_cons, ← ih]
    cases id == p.1 <;> rfl

theorem Channel.places_publish (c : Channel) (n : Notice) : (c.publish n).places = c.places := by
  unfold publish
  split <;> rfl

theorem Channel.isOpen_publish (c : Channel) (n : Notice) : (c.publish n).isOpen = c.isOpen := by
  unfold publish
  split <;> rfl

namespace SameHub

variable {deaf : Bool} {h h' : Hub}

theorem refl (deaf : Bool) (h : Hub) : SameHub deaf h h :=
  ⟨rfl, rfl, rfl, rfl, fun _ => rfl⟩

theorem isOpen_eq (hh : SameHub deaf h h') : h.isOpen = h'.isOpen :=
  hh.isOpen

theorem registry (hh : SameHub deaf h h') (role : Role) : h.registry role = h'.registry role := by
  cases role with
  | state => exact hh.state
  | lifecycle => exact hh.lifecycle

theorem audience (hh : SameHub deaf h h') (n : Notice) : h.audience n = h'.audience n := by
  unfold Hub.audience
  rw [hh.registry]

/-- Another channel for both. -/
theorem withChannel (hh : SameHub deaf h h') {c c' : Channel} (hopen : c.isOpen = c'.isOpen)
    (hids : c.places.map Prod.fst = c'.places.map Prod.fst)
    (hexact : h.channel = h'.channel → c = c') :
    SameHub deaf { h with channel := c } { h' with channel := c' } :=
  ⟨hh.state, hh.lifecycle, hopen, hids, fun hd => hexact (hh.exact hd)⟩

theorem setRegistry (hh : SameHub deaf h h') (r : Registry) (role : Role) :
    SameHub deaf (h.setRegistry r role) (h'.setRegistry r role) := by
  cases role with
  | state => exact { hh with state := rfl }
  | lifecycle => exact { hh with lifecycle := rfl }

theorem publish (hh : SameHub deaf h h') (n : Notice) :
    SameHub deaf (h.publish n) (h'.publish n) := by
  refine hh.withChannel ?_ ?_ fun heq => by rw [heq]
  · rw [Channel.isOpen_publish, Channel.isOpen_publish, hh.isOpen]
  · rw [Channel.places_publish, Channel.places_publish, hh.ids]

/-- A hub may publish what nobody wants to hear. -/
theorem publish_left (hh : SameHub true h h') (n : Notice) : SameHub true (h.publish n) h' where
  state := hh.state
  lifecycle := hh.lifecycle
  isOpen := (Channel.isOpen_publish _ n).trans hh.isOpen
  ids := (congrArg _ (Channel.places_publish _ n)).trans hh.ids
  exact := nofun

theorem drop (hh : SameHub deaf h h') : SameHub deaf h.drop h'.drop :=
  hh.withChannel rfl hh.ids fun heq => by rw [heq]

theorem setPlace (hh : SameHub deaf h h') (id : String) {p p' : Nat}
    (hp : h.channel = h'.channel → p = p') :
    SameHub deaf { h with channel := h.channel.setPlace id p }
      { h' with channel := h'.channel.setPlace id p' } := by
  refine hh.withChannel hh.isOpen ?_ fun heq => by rw [heq, hp heq]
  simp only [Channel.setPlace, List.map_cons, Channel.ids_without, hh.ids]

theorem subscribe (hh : SameHub deaf h h') (id : String) :
    SameHub deaf { h with channel := h.channel.subscribe id }
      { h' with channel := h'.channel.subscribe id } :=
  hh.setPlace id fun heq => by rw [heq]

theorem isSome_place? (hh : SameHub deaf h h') (id : String) :
    (h.channel.place? id).isSome = (h'.channel.place? id).isSome := by
  rw [Channel.isSome_place?, Channel.isSome_place?, hh.ids]

theorem unsubscribe (hh : SameHub deaf h h') (id : String) :
    SameHub deaf { h with channel := (h.channel.unsubscribe id).2 }
      { h' with channel := (h'.channel.unsubscribe id).2 } := by
  refine hh.withChannel hh.isOpen ?_ fun heq => by rw [heq]
  simp only [Channel.unsubscribe, Channel.ids_without, hh.ids]

/-- Who reads from the two gets something from both, and the same unless it is
disregarded. -/
theorem receive (hh : SameHub deaf h h') (id : String) (n : Nat) :
    (h.channel.receive id n).1.isSome = (h'.channel.receive id n).1.isSome ∧
      (deaf = false → (h.channel.receive id n).1 = (h'.channel.receive id n).1) ∧
      SameHub deaf { h with channel := (h.channel.receive id n).2 }
        { h' with channel := (h'.channel.receive id n).2 } := by
  have hplace := hh.isSome_place? id
  have hset := @setPlace deaf h h' hh id
  have hexact (hd : deaf = false) : (h.channel.receive id n).1 = (h'.channel.receive id n).1 := by
    rw [hh.exact hd]
  unfold Channel.receive at hexact ⊢
  cases hp : h.channel.place? id with
  | none =>
    cases hp' : h'.channel.place? id with
    | none => exact ⟨rfl, fun _ => rfl, hh⟩
    | some p' => simp [hp, hp'] at hplace
  | some p =>
    cases hp' : h'.channel.place? id with
    | none => simp [hp, hp'] at hplace
    | some p' =>
      rw [hp, hp'] at hexact
      refine ⟨rfl, hexact, hset fun heq => ?_⟩
      rw [heq] at hp ⊢
      rw [Option.some.inj (hp.symm.trans hp')]

end SameHub

end BrowserHost.Hub

namespace BrowserHost.Instance

open Engine Hub

/-! ## gaps -/

/-- What one of two instances has seen and the other has not: some loops, engines
and tellings.  The two are compared from the moment at which their journals
were `here` and `there`. -/
structure Gap where
  /-- The first loop that is left out. -/
  loop : Nat
  loops : Nat
  /-- The first engine that is left out; engines are counted from one. -/
  engine : Nat
  engines : Nat
  tellings : Nat
  /-- Whether it is disregarded what subscribers read. -/
  deaf : Bool
  here : List Entry
  there : List Entry
  pos : 0 < engine

namespace Gap

variable (g : Gap)

/-- The index of a loop beside the gap. -/
def index (i : Nat) : Nat :=
  if i < g.loop then i else i + g.loops

/-- The loop of that index, if it is none in the gap. -/
def index? (i : Nat) : Option Nat :=
  if i < g.loop then some i else if i < g.loop + g.loops then none else some (i - g.loops)

/-- The number of an engine beside the gap. -/
def number (e : Nat) : Nat :=
  if e < g.engine then e else e + g.engines

/-- A loop beside the gap. -/
def renumber (l : Loop) : Loop :=
  { l with engine := g.number l.engine }

/-- What is regarded of a reply. -/
def reply : Reply → Reply
  | .reads rs => .reads (if g.deaf then [] else rs)
  | r => r

/-- What is regarded of an entry. -/
def known : Entry → Entry
  | .answered name c r => .answered name c (g.reply r)
  | e => e

/-- An entry beside the gap. -/
def entry : Entry → Entry
  | .began e s => .began (g.number e) s
  | .ended e => .ended (g.number e)
  | .queued e t => .queued (g.number e) t
  | .ran e t => .ran (g.number e) t
  | .created e s => .created (g.number e) s
  | .submitted e accepted => .submitted (g.number e) accepted
  | .loaded e u => .loaded (g.number e) u
  | .viewed e v => .viewed (g.number e) v
  | .dropped e => .dropped (g.number e)
  | .telling k n => .telling (k + g.tellings) n
  | .heard k o n => .heard (k + g.tellings) o n
  | .told k n => .told (k + g.tellings) n
  | .answered name c r => .answered name c (g.reply r)
  | e => e

/-- The turn that is taken on the other side, if it is none of a loop in the
gap. -/
def turn? : Turn → Option Turn
  | .call c => some (.call c)
  | .message i => (g.index? i).map .message
  | .tick i => (g.index? i).map .tick
  | .stall i => (g.index? i).map .stall
  | .goOn i => (g.index? i).map .goOn

theorem index_inj {i j : Nat} : g.index i = g.index j ↔ i = j := by
  unfold index
  split <;> split <;> omega

theorem index_lt {i n : Nat} (hn : g.loop ≤ n) : g.index i < n + g.loops ↔ i < n := by
  unfold index
  split <;> omega

theorem index_eq {n : Nat} (hn : g.loop ≤ n) : g.index n = n + g.loops := by
  unfold index
  rw [if_neg (Nat.not_lt.2 hn)]

theorem number_eq {n : Nat} (hn : g.engine ≤ n) : g.number n = n + g.engines := by
  unfold number
  rw [if_neg (Nat.not_lt.2 hn)]

theorem number_zero : g.number 0 = 0 := by
  unfold number
  rw [if_pos g.pos]

theorem index_ne {i j : Nat} (hj : g.loop ≤ j) (hj' : j < g.loop + g.loops) : g.index i ≠ j := by
  unfold index
  split <;> omega

theorem index?_eq_some {i j : Nat} (h : g.index? i = some j) : i = g.index j := by
  unfold index? at h
  unfold index
  split at h
  · obtain rfl := Option.some.inj h
    rw [if_pos ‹_›]
  · split at h
    · cases h
    · obtain rfl := Option.some.inj h
      rw [if_neg (by omega)]
      omega

theorem index?_eq_none {i : Nat} (h : g.index? i = none) : g.loop ≤ i ∧ i < g.loop + g.loops := by
  unfold index? at h
  split at h
  · cases h
  · split at h
    · omega
    · cases h

/-! ### loops beside the gap -/

variable (l : Loop)

theorem renumber_push (t : Task) : (g.renumber l).push t = g.renumber (l.push t) := by
  have haccepts : (g.renumber l).accepts = l.accepts := rfl
  simp only [Loop.push_eq]
  rw [haccepts]
  split <;> rfl

theorem renumber_rest : (g.renumber l).rest = g.renumber l.rest := by
  have hphase : (g.renumber l).phase = l.phase := rfl
  unfold Loop.rest
  rw [hphase]
  split <;> rfl

theorem renumber_close : (g.renumber l).close = g.renumber l.close := by
  have hclosed : (g.renumber l).closed = l.closed := rfl
  simp only [Loop.close_eq]
  rw [hclosed]
  split <;> rfl

theorem renumber_tick (now : Nat) :
    (g.renumber l).tick now = ((l.tick now).1, g.renumber (l.tick now).2) := by
  have hphase : (g.renumber l).phase = l.phase := rfl
  have hticker : (g.renumber l).ticker = l.ticker := rfl
  unfold Loop.tick
  rw [hphase, hticker]
  split <;> rfl

end Gap

/-! ## instances beside a gap -/

/-- The two instances are the same but for the gap in the numbers of the first.
Its loops in the gap never had an engine.  Frames may differ without a session.
Observers have names of their own, and the loops that are referred to exist. -/
structure Shifted (g : Gap) (x y : Instance) : Prop where
  settings : x.settings = y.settings
  machine : x.machine = y.machine
  url : x.url = y.url
  hidden : x.hidden = y.hidden
  observers : x.observers = y.observers
  quiet : x.quiet = y.quiet
  now : x.now = y.now
  hub : SameHub g.deaf x.hub y.hub
  frames : y.dispatcher.isSome → x.frames = y.frames
  dispatcher : x.dispatcher = y.dispatcher.map g.index
  owned : x.owned = y.owned.map g.index
  sessions : x.sessions = y.sessions.map g.index
  holding : x.holding = y.holding.map g.index
  loop : ∀ i, x.loop? (g.index i) = (y.loop? i).map g.renumber
  count : x.loops.length = y.loops.length + g.loops
  past : g.loop ≤ y.loops.length
  gap : ∀ i, g.loop ≤ i → i < g.loop + g.loops → ∃ l, x.loop? i = some l ∧ l.phase = .refused
  attempts : x.attempts = y.attempts + g.engines
  numbered : g.engine ≤ y.attempts + 1
  tellings : x.tellings = y.tellings + g.tellings
  journal : ∃ es es', x.journal = es ++ g.here ∧ y.journal = es' ++ g.there ∧
    es.map g.known = es'.map g.entry
  names : (y.observers.map (·.name)).Nodup
  live : ∀ i, y.dispatcher = some i → i < y.loops.length
  held : ∀ i, y.holding = some i → i < y.loops.length

namespace Shifted

variable {g : Gap} {x y : Instance}

/-! ### what both are asked -/

theorem reach (h : Shifted g x y) : x.reach = y.reach := by
  unfold Instance.reach
  rw [h.observers]

theorem reactions? (h : Shifted g x y) (name : String) : x.reactions? name = y.reactions? name := by
  unfold Instance.reactions?
  rw [h.observers]

theorem backlog (h : Shifted g x y) (i : Nat) : x.backlog (g.index i) = y.backlog i := by
  unfold Instance.backlog
  rw [h.loop, Option.map_map]
  rfl

theorem engineOf (h : Shifted g x y) (i : Nat) :
    x.engineOf (g.index i) = g.number (y.engineOf i) := by
  unfold Instance.engineOf
  rw [h.loop]
  cases y.loop? i with
  | none => exact g.number_zero.symm
  | some l => rfl

theorem session? (h : Shifted g x y) (k : Nat) : x.session? k = (y.session? k).map g.index := by
  unfold Instance.session?
  rw [h.sessions, List.getElem?_map]

theorem loopOf? (h : Shifted g x y) (k : Option Nat) :
    x.loopOf? k = (y.loopOf? k).map g.index := by
  cases k with
  | none =>
    unfold Instance.loopOf?
    rw [h.sessions, List.getLast?_map]
  | some k => exact h.session? k

theorem running (h : Shifted g x y) : x.dispatcher.isSome = y.dispatcher.isSome := by
  rw [h.dispatcher, Option.isSome_map]

theorem status (h : Shifted g x y) : x.status = y.status := by
  have hfps : x.fps = y.fps := by
    unfold Instance.fps
    rw [h.settings, h.running]
    cases hrunning : y.dispatcher.isSome with
    | false => simp
    | true => rw [h.frames hrunning]
  unfold Instance.status
  rw [h.machine, h.url, h.hidden, h.running, hfps, h.hub.state, h.hub.lifecycle]

theorem length_eq (h : Shifted g x y) : x.loops.length = g.index y.loops.length := by
  rw [h.count, g.index_eq h.past]

theorem next_engine (h : Shifted g x y) : x.attempts + 1 = g.number (y.attempts + 1) := by
  rw [h.attempts, g.number_eq h.numbered]
  omega

/-! ### what both do -/

theorem note (h : Shifted g x y) {e e' : Entry} (he : g.known e = g.entry e') :
    Shifted g (x.note e) (y.note e') := by
  obtain ⟨es, es', hx, hy, hes⟩ := h.journal
  refine { h with journal := ⟨e :: es, e' :: es', ?_, ?_, ?_⟩ }
  · exact congrArg (e :: ·) hx
  · exact congrArg (e' :: ·) hy
  · rw [List.map_cons, List.map_cons, he, hes]

theorem withHub (h : Shifted g x y) {hub hub' : Hub} (hh : SameHub g.deaf hub hub') :
    Shifted g { x with hub := hub } { y with hub := hub' } :=
  { h with hub := hh }

theorem withUrl (h : Shifted g x y) (url : String) :
    Shifted g { x with url := url } { y with url := url } :=
  { h with url := rfl }

theorem withMachine (h : Shifted g x y) (m : Machine) :
    Shifted g { x with machine := m } { y with machine := m } :=
  { h with machine := rfl }

/-- A loop changes in the same way. -/
theorem setLoop (h : Shifted g x y) (i : Nat) (l : Loop) :
    Shifted g (x.setLoop (g.index i) (g.renumber l)) (y.setLoop i l) := by
  have hlength : (y.setLoop i l).loops.length = y.loops.length := List.length_set
  refine { h with
    loop := fun j => ?_
    count := ?_
    past := hlength ▸ h.past
    gap := fun j hj hj' => ?_
    live := hlength ▸ h.live
    held := hlength ▸ h.held }
  · have hj := h.loop j
    unfold loop? Instance.setLoop at *
    rw [List.getElem?_set, List.getElem?_set, h.count]
    by_cases hij : i = j
    · subst hij
      rw [if_pos rfl, if_pos rfl]
      simp only [g.index_lt h.past]
      split <;> rfl
    · rw [if_neg hij, if_neg (mt g.index_inj.1 hij), hj]
  · rw [hlength, ← h.count]
    exact List.length_set
  · have hkept := h.gap j hj hj'
    unfold loop? Instance.setLoop at *
    rwa [List.getElem?_set_ne (g.index_ne hj hj')]

/-- A loop is opened. -/
theorem openLoop (h : Shifted g x y) (kind : Kind) :
    Shifted g (x.openLoop kind) (y.openLoop kind) := by
  have hcreated : g.known (.created (x.attempts + 1) { x.settings with url := x.url }) =
      g.entry (.created (y.attempts + 1) { y.settings with url := y.url }) := by
    rw [h.next_engine, h.settings, h.url]
    rfl
  have hnoted := h.note hcreated
  have hlength (z : Instance) : (z.openLoop kind).loops.length = z.loops.length + 1 :=
    List.length_append
  refine { hnoted with
    loop := fun i => ?_
    count := ?_
    past := ?_
    gap := fun i hi hi' => ?_
    attempts := ?_
    numbered := Nat.le_succ_of_le h.numbered
    live := fun i hi => ?_
    held := fun i hi => ?_ }
  · rw [loop?_openLoop, loop?_openLoop, h.length_eq, h.next_engine, h.loop]
    simp only [g.index_inj]
    split <;> rfl
  · rw [hlength, hlength, h.count]
    omega
  · rw [hlength]
    exact Nat.le_succ_of_le h.past
  · have hlt : i ≠ x.loops.length := by
      rw [h.length_eq]
      exact (g.index_ne hi hi').symm
    rw [loop?_openLoop, if_neg hlt]
    exact h.gap i hi hi'
  · have hattempts := h.attempts
    show x.attempts + 1 = y.attempts + 1 + g.engines
    omega
  · rw [hlength]
    exact Nat.lt_succ_of_lt (h.live i hi)
  · rw [hlength]
    exact Nat.lt_succ_of_lt (h.held i hi)

end Shifted

end BrowserHost.Instance
