import BrowserHost.Instance.Schedule
import Mathlib.Logic.Relation
import Mathlib.Tactic.Common

/-!
# BrowserHost.Proofs.Move

The moves of an instance: the changes it makes between two points at which
observers can call in.  A call or a task that tells observers something is many
moves, with the moves of the observers' own calls among them.  What every move
keeps therefore holds at every moment of every run, however deep tellings
nest.

* `Move`, `Change`: everything that can happen between two such points;
* `Move.extends`, `Change.extends`: calls stay within what callers and observers
  may do, loops are never taken away nor given another engine, and the journal
  only grows.
-/

namespace BrowserHost.Instance

open Engine Hub

/-! ## calls within calls -/

mutual

/-- Whether a call, and every call that it brings along, satisfies `p`. -/
def Call.every (p : Call → Bool) : Call → Bool
  | .register role name rs => p (.register role name rs) && Reaction.everyAll p rs
  | .unregister role name rs => p (.unregister role name rs) && Reaction.everyAll p rs
  | .repeat n cs => p (.repeat n cs) && Call.everyAll p cs
  | c => p c

/-- Whether all calls of a list do. -/
def Call.everyAll (p : Call → Bool) : List Call → Bool
  | [] => true
  | c :: cs => c.every p && Call.everyAll p cs

/-- Whether the call that a reaction makes does. -/
def Reaction.every (p : Call → Bool) : Reaction → Bool
  | ⟨_, c, _⟩ => c.every p

/-- Whether the calls of all reactions of a list do. -/
def Reaction.everyAll (p : Call → Bool) : List Reaction → Bool
  | [] => true
  | r :: rs => r.every p && Reaction.everyAll p rs

end

/-- Whether the calls of a turn do. -/
def Turn.every (p : Call → Bool) : Turn → Bool
  | .call c => c.every p
  | _ => true

/-- Every call that an observer may still make satisfies `p`. -/
def Obeys (p : Call → Bool) (x : Instance) : Prop :=
  ∀ o ∈ x.observers, Reaction.everyAll p o.reactions

theorem Call.everyAll_iff {p : Call → Bool} {cs : List Call} :
    Call.everyAll p cs ↔ ∀ c ∈ cs, c.every p := by
  induction cs with
  | nil => simp [Call.everyAll]
  | cons c cs ih => simp [Call.everyAll, ih]

theorem Call.everyAll_append {p : Call → Bool} {cs ds : List Call} :
    Call.everyAll p (cs ++ ds) ↔ Call.everyAll p cs ∧ Call.everyAll p ds := by
  simp only [Call.everyAll_iff, List.mem_append, or_imp, forall_and]

mutual

/-- A repetition written out brings no other calls along. -/
theorem Call.everyAll_flatten {p : Call → Bool} :
    (c : Call) → c.every p → Call.everyAll p c.flatten
  | .repeat n cs, h => by
    have hcs : Call.everyAll p (Call.flattenAll cs) :=
      Call.everyAll_flattenAll cs (by simp_all [Call.every])
    rw [Call.flatten, Call.everyAll_iff]
    intro c hc
    obtain ⟨ds, hds, hc⟩ := List.mem_flatten.1 hc
    exact Call.everyAll_iff.1 hcs c (List.eq_of_mem_replicate hds ▸ hc)
  | .register .., h | .registerQuiet, h | .unregister .., h | .notify _, h | .dropHub, h
  | .subscribe _, h | .unsubscribe _, h | .receive .., h | .start _, h | .shutdown, h
  | .suspend, h | .resume, h | .request _, h | .setUrl _, h | .hide _, h | .dispatch _, h
  | .submit .., h | .isClosed _, h | .emit .., h | .hold, h | .release, h | .advance _, h
  | .settings, h | .read, h => by simp [Call.flatten, Call.everyAll, h]

theorem Call.everyAll_flattenAll {p : Call → Bool} :
    (cs : List Call) → Call.everyAll p cs → Call.everyAll p (Call.flattenAll cs)
  | [], _ => by simp [Call.flattenAll, Call.everyAll]
  | c :: cs, h => by
    simp only [Call.everyAll, Bool.and_eq_true] at h
    exact Call.everyAll_append.2
      ⟨Call.everyAll_flatten c h.1, Call.everyAll_flattenAll cs h.2⟩

end

mutual

/-- Every call does what every call does. -/
theorem Call.every_true : (c : Call) → c.every fun _ => true
  | .register _ _ rs | .unregister _ _ rs => by
    simp [Call.every, Reaction.everyAll_true rs]
  | .repeat _ cs => by simp [Call.every, Call.everyAll_true cs]
  | .registerQuiet | .notify _ | .dropHub | .subscribe _ | .unsubscribe _ | .receive ..
  | .start _ | .shutdown | .suspend | .resume | .request _ | .setUrl _ | .hide _ | .dispatch _
  | .submit .. | .isClosed _ | .emit .. | .hold | .release | .advance _ | .settings | .read => rfl

theorem Call.everyAll_true : (cs : List Call) → Call.everyAll (fun _ => true) cs
  | [] => rfl
  | c :: cs => by simp [Call.everyAll, Call.every_true c, Call.everyAll_true cs]

theorem Reaction.everyAll_true : (rs : List Reaction) → Reaction.everyAll (fun _ => true) rs
  | [] => rfl
  | ⟨_, c, _⟩ :: rs => by
    simp [Reaction.everyAll, Reaction.every, Call.every_true c, Reaction.everyAll_true rs]

end

theorem Turn.every_true (t : Turn) : t.every fun _ => true := by
  cases t with
  | call c => exact Call.every_true c
  | _ => rfl

/-- What an observer chooses from its reactions is among them. -/
theorem Reaction.every_choose {p : Call → Bool} (n : Notice) {rs : List Reaction}
    (h : Reaction.everyAll p rs) :
    Call.everyAll p (Reaction.choose n rs).1 ∧ Reaction.everyAll p (Reaction.choose n rs).2 := by
  induction rs with
  | nil => simp [Reaction.choose, Call.everyAll, Reaction.everyAll]
  | cons r rs ih =>
    obtain ⟨on, call, times⟩ := r
    simp only [Reaction.everyAll, Reaction.every, Bool.and_eq_true] at h
    obtain ⟨hcalls, hrest⟩ := ih h.2
    unfold Reaction.choose
    simp only
    split <;> simp_all [Call.everyAll, Reaction.everyAll, Reaction.every]

/-! ## what happens at once -/

/-- A call that makes no other calls and tells nobody anything. -/
def Call.isPlain : Call → Bool
  | .notify _ | .start _ | .shutdown | .emit .. | .hold | .repeat .. => false
  | _ => true

/-- The loop of that index makes the engine of that number. -/
def IsBuilding (x : Instance) (i engine : Nat) : Prop :=
  ∃ l, x.loop? i = some l ∧ l.phase = .building ∧ l.engine = engine

/-- Attempt a start on a new loop. -/
def openLoop (x : Instance) (k : Kind) : Instance :=
  let l : Loop := { engine := x.attempts + 1, kind := k }
  { x with attempts := x.attempts + 1, loops := x.loops ++ [l] }.note
    (.created (x.attempts + 1) { x.settings with url := x.url })

/-- Close a loop. -/
def closeLoop (x : Instance) (i : Nat) : Instance :=
  match x.loop? i with
  | none => x
  | some l => x.setLoop i l.close

/-- Give up the session on a loop. -/
def giveUp (x : Instance) (i : Nat) : Instance :=
  ({ x with owned := none, dispatcher := none, frames := {} }.note
    (.ended (x.engineOf i))).closeLoop i

/-- What a report changes by itself. -/
def raise (x : Instance) : Report → Instance
  | .urlChanged u => announce (.urlChanged u) { x with url := u }
  | .loadFinished u => announce (.loadFinished u) { x with url := u }
  | .closureRequested => announce .closureRequested x
  | .frames n => framesDisplayed n x

/-- A loop takes a task from its queue. -/
def take (x : Instance) (i : Nat) (l : Loop) (t : Task) (rest : List Message) : Instance :=
  (x.setLoop i { l with phase := .busy, queue := rest }).note (.ran l.engine t)

/-- The engine of a loop gets a URL to load. -/
def arrive (x : Instance) (i : Nat) (url : String) : Instance :=
  match x.loop? i with
  | none => x
  | some l =>
    let x := x.note (.loaded l.engine url)
    if l.kind.failsOn url then x.endLoop i .crashed else x

/-- The machine takes note of what the engine applied. -/
def settleOn (x : Instance) (s : State) : Instance :=
  let (news, m) := x.machine.confirm s
  let x := { x with machine := m }
  if news then x.announce (.stateChanged s) else x

/-- What a task does before anyone hears of it. -/
def effect (x : Instance) (i : Nat) : Task → Instance
  | .work (.load u) => x.arrive i u
  | .work (.view v) => x.setView i v
  | .lifecycle s => (x.setView i (View.of s x.hidden)).settleOn s
  | .visibility h => (x.setView i (View.of x.machine.applied h)).announce (.hidden h)
  | .report r => x.raise r
  | .block => x.block i

/-! ## moves -/

/-- A change that an instance makes at once, by a call that satisfies `p` or by
a loop. -/
inductive Move (p : Call → Bool) : Instance → Instance → Prop
  | plain {x : Instance} {c : Call} (answer : Caller) (hp : c.every p) (hc : c.isPlain) :
    Move p x (performWith answer c x).2
  | notify {x : Instance} {n : Notice} (hp : p (.notify n)) : Move p x (x.announce n)
  | hear {x : Instance} (k : Nat) (o : ObserverId) (n : Notice) : Move p x (x.note (.heard k o n))
  | choose {x : Instance} (name : String) (n : Notice) : Move p x (x.choose name n).2
  | answer {x : Instance} (name : String) (c : Call) (r : Reply) :
    Move p x (x.note (.answered name c r))
  | conclude {x : Instance} (k : Nat) (n : Notice) : Move p x (x.conclude k n)
  /-- A start while a session is running. -/
  | reject {x : Instance} {pl : Plan} (hp : p (.start pl)) (hx : x.owned.isSome) :
    Move p x { x with attempts := x.attempts + 1 }
  | openLoop {x : Instance} {pl : Plan} (hp : p (.start pl)) (hx : x.owned = none) :
    Move p x (x.openLoop pl.kind)
  /-- The maker of an engine queues work. -/
  | prepare {x : Instance} {pl : Plan} {w : Work} {i e : Nat} (hp : p (.start pl))
    (hw : .submit w ∈ pl.preparations) (hi : x.IsBuilding i e) :
    Move p x ((x.submitTo i (.work w)).2.note (.submitted e (x.submitTo i (.work w)).1))
  /-- The maker of an engine reports something. -/
  | precede {x : Instance} {pl : Plan} {r : Report} (hp : p (.start pl))
    (hr : .report r ∈ pl.preparations) : Move p x (x.raise r)
  | emit {x : Instance} {r : Report} {k : Option Nat} (hp : p (.emit r k)) : Move p x (x.raise r)
  /-- A report is queued on the loop of the session. -/
  | post {x : Instance} {r : Report} {k : Option Nat} {i : Nat} (hp : p (.emit r k))
    (hi : x.dispatcher = some i) : Move p x (x.submitTo i (.report r)).2
  /-- A block is queued on the loop of the session. -/
  | hold {x : Instance} {i : Nat} (hp : p .hold) (hi : x.dispatcher = some i) :
    Move p x (x.submitTo i .block).2
  | mark {x : Instance} (h : Option Nat) : Move p x { x with holding := h }
  | giveUp {x : Instance} {i : Nat} (hp : p .shutdown) (hi : x.owned = some i) :
    Move p x (x.giveUp i)
  | stop {x : Instance} {i : Nat} {l : Loop} {rest : List Message} (hl : x.loop? i = some l)
    (hi : l.phase = .idle) (hq : l.queue = .stop :: rest) : Move p x (x.endLoop i .stopped)
  | run {x : Instance} {i : Nat} {l : Loop} {t : Task} {rest : List Message}
    (hl : x.loop? i = some l) (hi : l.phase = .idle) (hq : l.queue = .run t :: rest) :
    Move p x ((x.take i l t rest).effect i t)
  /-- An engine reports a load of its own. -/
  | echo {x : Instance} {i : Nat} {l : Loop} {u : String} {r : Report} (hl : x.loop? i = some l)
    (hk : l.kind.reports) (hr : r = .urlChanged u ∨ r = .loadFinished u) : Move p x (x.raise r)
  | rest {x : Instance} (i : Nat) : Move p x (x.restLoop i)
  | tick {x : Instance} (i : Nat) : Move p x (x.tickLoop i)
  | stall {x : Instance} (i : Nat) : Move p x (x.stall i)
  | goOn {x : Instance} (i : Nat) : Move p x (x.unblock i)

/-- A move, or the end of the making of an engine.  An engine that is ready
begins a session at once. -/
inductive Change (p : Call → Bool) : Instance → Instance → Prop
  | move {x y : Instance} (h : Move p x y) : Change p x y
  | ready {x : Instance} {pl : Plan} {i e : Nat} (hp : p (.start pl)) (hi : x.IsBuilding i e)
    (ho : pl.outcome = .ready) : Change p x ((x.built i pl).begin i e)
  | fail {x : Instance} {pl : Plan} {i e : Nat} (hp : p (.start pl)) (hi : x.IsBuilding i e)
    (ho : pl.outcome ≠ .ready) : Change p x (x.built i pl)

/-- Any number of changes. -/
abbrev Changes (p : Call → Bool) : Instance → Instance → Prop :=
  Relation.ReflTransGen (Change p)

/-! ## loops -/

theorem loop?_setLoop {x : Instance} {i : Nat} {l : Loop} (h : x.loop? i = some l) (l' : Loop)
    (j : Nat) : (x.setLoop i l').loop? j = if i = j then some l' else x.loop? j := by
  have hi : i < x.loops.length := (List.getElem?_eq_some_iff.1 h).1
  by_cases hij : i = j
  · subst hij
    simp [loop?, setLoop, hi]
  · simp [loop?, setLoop, hij]

theorem loop?_take {x : Instance} {i : Nat} {l : Loop} (h : x.loop? i = some l) (t : Task)
    (rest : List Message) (j : Nat) :
    (x.take i l t rest).loop? j =
      if i = j then some { l with phase := .busy, queue := rest } else x.loop? j :=
  loop?_setLoop h _ j

theorem setLoop_self {x : Instance} {i : Nat} {l : Loop} (h : x.loop? i = some l) :
    x.setLoop i l = x := by
  obtain ⟨hi, he⟩ := List.getElem?_eq_some_iff.1 h
  unfold setLoop
  rw [← he, List.set_getElem_self]

/-- A task sets the view of the loop that took it. -/
theorem setView_take {x : Instance} {i : Nat} {l : Loop} {t : Task} {rest : List Message}
    (h : x.loop? i = some l) (v : View) :
    (x.take i l t rest).setView i v =
      { x.take i l t rest with
        loops := x.loops.set i { l with phase := .busy, queue := rest, view := v }
        journal := .viewed l.engine v :: .ran l.engine t :: x.journal } := by
  unfold setView
  rw [loop?_take h, if_pos rfl]
  simp only [Instance.take, setLoop, note, List.set_set]

theorem loop?_openLoop (x : Instance) (k : Kind) (j : Nat) :
    (x.openLoop k).loop? j =
      if j = x.loops.length then some { engine := x.attempts + 1, kind := k } else x.loop? j := by
  simp only [openLoop, note, loop?, List.getElem?_append]
  split
  · next h => rw [if_neg (by omega)]
  · next h =>
    by_cases hj : j = x.loops.length
    · simp [hj]
    · rw [if_neg hj, List.getElem?_eq_none (by simp; omega), List.getElem?_eq_none (by omega)]

/-- A loop is the one that was put there, or it was there before. -/
theorem setLoop_cases {x : Instance} {i k : Nat} {l l' m : Loop} (hl : x.loop? i = some l)
    (hm : (x.setLoop i l').loop? k = some m) :
    (i = k ∧ m = l') ∨ (i ≠ k ∧ x.loop? k = some m) := by
  rw [loop?_setLoop hl] at hm
  by_cases hik : i = k
  · rw [if_pos hik] at hm
    exact .inl ⟨hik, (Option.some.inj hm).symm⟩
  · rw [if_neg hik] at hm
    exact .inr ⟨hik, hm⟩

/-- A loop is the new one, or it was there before. -/
theorem openLoop_cases {x : Instance} {kind : Kind} {i : Nat} {l : Loop}
    (hl : (x.openLoop kind).loop? i = some l) :
    (i = x.loops.length ∧ l = { engine := x.attempts + 1, kind := kind }) ∨
      x.loop? i = some l := by
  rw [loop?_openLoop] at hl
  by_cases hi : i = x.loops.length
  · rw [if_pos hi] at hl
    exact .inl ⟨hi, (Option.some.inj hl).symm⟩
  · rw [if_neg hi] at hl
    exact .inr hl

/-! ## what every move keeps -/

/-- `y` can come after `x`: observers have nothing new to do but calls that
satisfy `p`, every loop is there with its engine, and the journal goes on.  A
loop that is being built stays so, unless it is the one named. -/
structure Extends (p : Call → Bool) (built : Option Nat) (x y : Instance) : Prop where
  obeys : x.Obeys p → y.Obeys p
  loop : ∀ i l, x.loop? i = some l → ∃ l', y.loop? i = some l' ∧ l'.engine = l.engine ∧
    l'.kind = l.kind ∧ (l.phase = .building → built = some i ∨ l'.phase = .building)
  journal : x.journal <:+ y.journal

namespace Extends

variable {p : Call → Bool} {x y z : Instance}

theorem of_eq (ho : y.observers = x.observers) (hl : y.loops = x.loops)
    (hj : x.journal <:+ y.journal) : Extends p none x y where
  obeys h := by rwa [Obeys, ho]
  loop i l h := ⟨l, by rwa [loop?, hl], rfl, rfl, .inr⟩
  journal := hj

theorem refl (x : Instance) : Extends p none x x :=
  of_eq rfl rfl List.suffix_rfl

theorem trans {b : Option Nat} (h : Extends p b x y) (h' : Extends p b y z) :
    Extends p b x z where
  obeys := h'.obeys ∘ h.obeys
  loop i l hi := by
    obtain ⟨l₁, hl₁, he₁, hk₁, hb₁⟩ := h.loop i l hi
    obtain ⟨l₂, hl₂, he₂, hk₂, hb₂⟩ := h'.loop i l₁ hl₁
    exact ⟨l₂, hl₂, he₂.trans he₁, hk₂.trans hk₁, fun hb => (hb₁ hb).elim .inl hb₂⟩
  journal := h.journal.trans h'.journal

theorem note (x : Instance) (e : Entry) : Extends p none x (x.note e) :=
  of_eq rfl rfl (List.suffix_cons e _)

/-- That a loop was built is no matter to those who do not ask. -/
theorem weaken {i : Nat} (h : Extends p none x y) : Extends p (some i) x y where
  obeys := h.obeys
  loop j l hj := by
    obtain ⟨l', hl', he, hk, hb⟩ := h.loop j l hj
    exact ⟨l', hl', he, hk, fun hl => .inr ((hb hl).resolve_left (by simp))⟩
  journal := h.journal

theorem thenNote (h : Extends p none x y) (e : Entry) : Extends p none x (y.note e) :=
  h.trans (note y e)

theorem setLoop {b : Option Nat} {i : Nat} {l l' : Loop} (hl : x.loop? i = some l)
    (he : l'.engine = l.engine) (hk : l'.kind = l.kind)
    (hb : l.phase = .building → b = some i ∨ l'.phase = .building) :
    Extends p b x (x.setLoop i l') where
  obeys h := h
  loop j m hj := by
    rw [loop?_setLoop hl]
    by_cases hij : i = j
    · subst hij
      rw [hl] at hj
      obtain rfl := Option.some.inj hj
      exact ⟨l', by simp, he, hk, hb⟩
    · exact ⟨m, by simpa [hij] using hj, rfl, rfl, .inr⟩
  journal := List.suffix_rfl

theorem isBuilding (h : Extends p none x y) {i e : Nat} (hi : x.IsBuilding i e) :
    y.IsBuilding i e := by
  obtain ⟨l, hl, hb, he⟩ := hi
  obtain ⟨l', hl', he', -, hb'⟩ := h.loop i l hl
  exact ⟨l', hl', (hb' hb).resolve_left (by simp), he'.trans he⟩

end Extends

section

variable {p : Call → Bool} {x : Instance}

theorem submitTo_extends (x : Instance) (i : Nat) (t : Task) :
    Extends p none x (x.submitTo i t).2 := by
  rw [submitTo_eq]
  split
  · exact .refl x
  · next l hl =>
    split
    · next ha =>
      refine .thenNote (.setLoop hl ?_ ?_ ?_) _ <;> simp [Loop.push_eq, ha]
    · exact .refl x

theorem submit_extends (x : Instance) (t : Task) : Extends p none x (x.submit t).2 := by
  unfold submit
  split
  · exact .refl x
  · exact submitTo_extends x _ t

theorem announce_extends (x : Instance) (n : Notice) : Extends p none x (x.announce n) :=
  .of_eq rfl rfl (List.suffix_cons _ _)

theorem frameDisplayed_extends (x : Instance) : Extends p none x x.frameDisplayed := by
  unfold frameDisplayed
  split
  · exact .of_eq rfl rfl (List.suffix_cons _ _)
  · exact .refl x

theorem framesDisplayed_extends (n : Nat) (x : Instance) :
    Extends p none x (framesDisplayed n x) := by
  induction n generalizing x with
  | zero => exact .refl x
  | succ n ih => exact (frameDisplayed_extends x).trans (ih _)

theorem raise_extends (x : Instance) (r : Report) : Extends p none x (x.raise r) := by
  cases r with
  | urlChanged u => exact .of_eq rfl rfl (List.suffix_cons _ _)
  | loadFinished u => exact .of_eq rfl rfl (List.suffix_cons _ _)
  | closureRequested => exact announce_extends x _
  | frames n => exact framesDisplayed_extends n x

theorem setView_extends (x : Instance) (i : Nat) (v : View) :
    Extends p none x (x.setView i v) := by
  unfold setView
  split
  · exact .refl x
  · next l hl =>
    refine .thenNote (.setLoop hl ?_ ?_ ?_) _
    exacts [rfl, rfl, .inr]

theorem endLoop_extends {i : Nat} {phase : Phase}
    (hi : ∀ l, x.loop? i = some l → l.phase ≠ .building) :
    Extends p none x (x.endLoop i phase) := by
  unfold endLoop
  split
  · exact .refl x
  · next l hl =>
    refine .thenNote (.setLoop hl ?_ ?_ ?_) _
    exacts [rfl, rfl, fun hb => absurd hb (hi l hl)]

theorem arrive_extends {i : Nat} (hi : ∀ l, x.loop? i = some l → l.phase ≠ .building)
    (u : String) : Extends p none x (x.arrive i u) := by
  unfold arrive
  split
  · exact .refl x
  · next l hl =>
    simp only
    split
    · exact (Extends.note x _).trans (endLoop_extends hi)
    · exact .note x _

theorem settleOn_extends (x : Instance) (s : State) : Extends p none x (x.settleOn s) := by
  unfold settleOn
  simp only
  split
  · exact .of_eq rfl rfl (List.suffix_cons _ _)
  · exact .of_eq rfl rfl List.suffix_rfl

theorem block_extends {i : Nat} (hi : ∀ l, x.loop? i = some l → l.phase ≠ .building) :
    Extends p none x (x.block i) := by
  unfold block
  split
  · exact .refl x
  · next l hl => exact .setLoop hl rfl rfl fun hb => absurd hb (hi l hl)

/-- A task of a loop that is not being built. -/
theorem effect_extends {i : Nat} (hi : ∀ l, x.loop? i = some l → l.phase ≠ .building) (t : Task) :
    Extends p none x (x.effect i t) := by
  match t with
  | .work (.load u) => exact arrive_extends hi u
  | .work (.view v) => exact setView_extends x i v
  | .lifecycle s => exact (setView_extends x i _).trans (settleOn_extends _ s)
  | .visibility h => exact (setView_extends x i _).trans (announce_extends _ _)
  | .report r => exact raise_extends x r
  | .block => exact block_extends hi

theorem restLoop_extends (x : Instance) (i : Nat) : Extends p none x (x.restLoop i) := by
  unfold restLoop
  split
  · exact .refl x
  · next l hl =>
    refine .setLoop hl ?_ ?_ ?_ <;> unfold Loop.rest <;> split <;> simp_all

theorem tickLoop_eq {i : Nat} {l : Loop} (hl : x.loop? i = some l) :
    x.tickLoop i =
      framesDisplayed (l.tick x.now).1
        (x.setLoop i { l with ticker := (l.tick x.now).2.ticker }) := by
  rw [← Loop.tick_snd]
  simp only [tickLoop, hl]

theorem tickLoop_extends (x : Instance) (i : Nat) : Extends p none x (x.tickLoop i) := by
  cases hl : x.loop? i with
  | none => simpa only [tickLoop, hl] using .refl x
  | some l =>
    rw [tickLoop_eq hl]
    refine .trans (.setLoop hl ?_ ?_ ?_) (framesDisplayed_extends _ _)
    exacts [rfl, rfl, .inr]

theorem stall_extends (x : Instance) (i : Nat) : Extends p none x (x.stall i) := by
  unfold stall
  split
  · exact .refl x
  · next l hl =>
    split
    · next hidle => exact .setLoop hl rfl rfl (by simp [hidle])
    · exact .refl x

theorem unblock_extends (x : Instance) (i : Nat) : Extends p none x (x.unblock i) := by
  unfold unblock
  split
  · exact .refl x
  · next l hl =>
    split
    · next hheld => exact .setLoop hl rfl rfl (by simp [hheld])
    · exact .refl x

theorem closeLoop_extends (x : Instance) (i : Nat) : Extends p none x (x.closeLoop i) := by
  unfold closeLoop
  split
  · exact .refl x
  · next l hl => refine .setLoop hl ?_ ?_ ?_ <;> rw [Loop.close_eq] <;> split <;> simp_all

theorem openLoop_extends (x : Instance) (k : Kind) : Extends p none x (x.openLoop k) where
  obeys h := h
  loop i l hi := by
    have hlt : i < x.loops.length := (List.getElem?_eq_some_iff.1 hi).1
    exact ⟨l, by rw [loop?_openLoop, if_neg (by omega), hi], rfl, rfl, .inr⟩
  journal := List.suffix_cons _ _

theorem built_extends (x : Instance) (i : Nat) (pl : Plan) :
    Extends p (some i) x (x.built i pl) := by
  unfold built
  split
  · exact (Extends.refl x).weaken
  · next l hl => split <;> exact .setLoop hl rfl rfl fun _ => .inl rfl

theorem begin_extends (x : Instance) (i e : Nat) : Extends p none x (x.begin i e) := by
  unfold begin
  simp only
  refine .trans (.of_eq ?_ ?_ ?_) ((submitTo_extends _ i _).trans
    ((submitTo_extends _ i _).trans (.of_eq rfl rfl List.suffix_rfl)))
  · rfl
  · rfl
  · exact List.suffix_cons _ _

/-! ## observers -/

theorem mention_extends (x : Instance) (name : String) {rs : List Reaction}
    (h : Reaction.everyAll p rs) : Extends p none x (x.mention name rs) := by
  unfold mention
  split
  · exact .refl x
  · refine ⟨fun ho o hmem => ?_, fun i l hi => ⟨l, hi, rfl, rfl, .inr⟩, List.suffix_rfl⟩
    rcases List.mem_append.1 hmem with hmem | hmem
    · exact ho o hmem
    · rwa [List.mem_singleton.1 hmem]

theorem choose_extends (x : Instance) (name : String) (n : Notice) :
    Extends p none x (x.choose name n).2 := by
  unfold choose
  split
  · exact .refl x
  · next rs hrs =>
    refine ⟨fun ho o hmem => ?_, fun i l hi => ⟨l, hi, rfl, rfl, .inr⟩, List.suffix_rfl⟩
    obtain ⟨o', ho', rfl⟩ := List.mem_map.1 hmem
    split
    · obtain ⟨q, hq, rfl⟩ := Option.map_eq_some_iff.1 hrs
      exact (Reaction.every_choose n (ho q (List.mem_of_find?_eq_some hq))).2
    · exact ho o' ho'

/-- What an observer of an instance that obeys calls satisfies `p`. -/
theorem choose_everyAll (h : x.Obeys p) (name : String) (n : Notice) :
    Call.everyAll p (x.choose name n).1 := by
  unfold choose
  split
  · rfl
  · next rs hrs =>
    obtain ⟨q, hq, rfl⟩ := Option.map_eq_some_iff.1 hrs
    exact (Reaction.every_choose n (h q (List.mem_of_find?_eq_some hq))).1

theorem register_extends (x : Instance) (role : Role) (o : ObserverId) :
    Extends p none x (x.register role o).2 := by
  unfold register
  split
  · split <;> exact .of_eq rfl rfl List.suffix_rfl
  · exact .refl x

theorem unregister_extends (x : Instance) (role : Role) (o : ObserverId) :
    Extends p none x (x.unregister role o).2 := by
  unfold unregister
  split
  · split <;> exact .of_eq rfl rfl List.suffix_rfl
  · exact .refl x

/-! ## calls -/

theorem request_extends (x : Instance) (c : Command) : Extends p none x (x.request c).2 := by
  unfold request
  split
  · exact .refl x
  · next t m _ =>
    have h : Extends p none x ({ x with machine := m }.note (.requested c t.next)) :=
      .of_eq rfl rfl (List.suffix_cons _ _)
    simp only
    split
    · exact h.trans (submit_extends _ _)
    · exact h

theorem setUrl_extends (x : Instance) (url : String) : Extends p none x (x.setUrl url) := by
  have h : Extends p none x ({ x with url := url }.note (.navigated url)) :=
    .of_eq rfl rfl (List.suffix_cons _ _)
  exact h.trans (submit_extends _ _)

theorem hide_extends (x : Instance) (hidden : Bool) : Extends p none x (x.hide hidden) := by
  unfold hide
  split
  · exact .refl x
  · have h : Extends p none x ({ x with hidden := hidden }.note (.flipped hidden)) :=
      .of_eq rfl rfl (List.suffix_cons _ _)
    exact h.trans (submit_extends _ _)

theorem release_extends (x : Instance) : Extends p none x x.release.2 := by
  unfold release
  split
  · exact .refl x
  · have h : Extends p none x { x with holding := none } := .of_eq rfl rfl List.suffix_rfl
    exact h.trans (unblock_extends _ _)

theorem submitWork_extends (x : Instance) (session : Nat) (w : Work) :
    Extends p none x (x.submitWork session w).2 := by
  unfold submitWork
  split
  · exact .refl x
  · exact submitTo_extends x _ _

theorem plain_extends {c : Call} (answer : Caller) (hp : c.every p) (hc : c.isPlain) :
    Extends p none x (performWith answer c x).2 := by
  cases c with
  | register role name rs =>
    simp only [Call.every, Bool.and_eq_true] at hp
    exact (mention_extends x name hp.2).trans (register_extends _ _ _)
  | registerQuiet =>
    have h : Extends p none x { x with quiet := x.quiet + 1 } := .of_eq rfl rfl List.suffix_rfl
    exact h.trans (register_extends _ _ _)
  | unregister role name rs =>
    simp only [Call.every, Bool.and_eq_true] at hp
    exact (mention_extends x name hp.2).trans (unregister_extends _ _ _)
  | subscribe id =>
    simp only [performWith, subscribe]
    split
    · exact .of_eq rfl rfl List.suffix_rfl
    · exact .refl x
  | dropHub | unsubscribe id | receive id n | isClosed k | advance ns | settings | read =>
    exact .of_eq rfl rfl List.suffix_rfl
  | suspend | resume | request c => exact request_extends x _
  | setUrl url => exact setUrl_extends x url
  | hide hidden => exact hide_extends x hidden
  | dispatch w => exact submit_extends x _
  | submit k w => exact submitWork_extends x k w
  | release => exact release_extends x
  | notify _ | start _ | shutdown | emit _ _ | hold | «repeat» _ _ => simp [Call.isPlain] at hc

/-! ## moves and changes -/

theorem Move.extends {y : Instance} (h : Move p x y) : Extends p none x y := by
  cases h with
  | plain answer hp hc => exact plain_extends answer hp hc
  | notify _ => exact announce_extends x _
  | hear _ _ _ | answer _ _ _ => exact .note x _
  | choose name n => exact choose_extends x name n
  | conclude _ _ => exact .of_eq rfl rfl (List.suffix_cons _ _)
  | reject _ _ | mark _ => exact .of_eq rfl rfl List.suffix_rfl
  | openLoop _ _ => exact openLoop_extends x _
  | prepare _ _ _ => exact (submitTo_extends x _ _).thenNote _
  | precede _ _ | emit _ | echo _ _ _ => exact raise_extends x _
  | post _ _ | hold _ _ => exact submitTo_extends x _ _
  | @giveUp i _ _ =>
    have h : Extends p none x ({ x with owned := none, dispatcher := none, frames := {} }.note
        (.ended (x.engineOf i))) := .of_eq rfl rfl (List.suffix_cons _ _)
    exact h.trans (closeLoop_extends _ _)
  | stop hl hi _ => exact endLoop_extends (by simp_all)
  | @run i l t rest hl hi _ =>
    have htake : Extends p none x (x.take i l t rest) := by
      refine .thenNote (.setLoop hl ?_ ?_ ?_) _
      exacts [rfl, rfl, by simp [hi]]
    refine htake.trans (effect_extends (fun m hm => ?_) t)
    rw [loop?_take hl, if_pos rfl] at hm
    simp [← Option.some.inj hm]
  | rest i => exact restLoop_extends x i
  | tick i => exact tickLoop_extends x i
  | stall i => exact stall_extends x i
  | goOn i => exact unblock_extends x i

theorem Change.extends {y : Instance} (h : Change p x y) : ∃ b, Extends p b x y := by
  cases h with
  | move h => exact ⟨none, h.extends⟩
  | ready _ _ _ => exact ⟨_, (built_extends x _ _).trans (begin_extends _ _ _).weaken⟩
  | fail _ _ _ => exact ⟨_, built_extends x _ _⟩

end

end BrowserHost.Instance
