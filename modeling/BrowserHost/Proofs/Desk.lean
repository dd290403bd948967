import BrowserHost.Proofs.Move

/-!
# BrowserHost.Proofs.Desk

The calls that the hub answers at once, without anyone else being asked: all but
those that tell something.  What they reply and what becomes of the hub depends
on nothing but the hub, and on how many nameless observers there have been.

* `direct_view`: such a call changes a registry or the channel;
* `direct_desk`: the same hub, the same reply;
* `direct_proper`, `direct_channel`: what becomes of the registries, and of the
  channel.
-/

namespace BrowserHost

/-! ## registries -/

namespace Hub

/-- A hub whose registries hold nobody twice. -/
structure Proper (h : Hub) : Prop where
  state : h.state.members.Nodup
  lifecycle : h.lifecycle.members.Nodup

/-- A change of a registry: nobody is in it twice afterwards, and the channel stays
what it is. -/
structure Edits (f : Hub → Except Fault Hub) : Prop where
  proper : ∀ {h h' : Hub}, f h = .ok h' → h.Proper → h'.Proper
  channel : ∀ {h h' : Hub}, f h = .ok h' → h'.channel = h.channel

variable {h : Hub}

theorem Proper.registry (hp : h.Proper) (role : Role) : (h.registry role).members.Nodup := by
  cases role
  · exact hp.state
  · exact hp.lifecycle

theorem Proper.audience (hp : h.Proper) (n : Notice) : (h.audience n).Nodup :=
  hp.registry n.role

/-- What is done to one of the registries is a change of a registry. -/
theorem Edits.of_registry {g : Registry → Except Fault Registry} (role : Role)
    (hg : ∀ {r r' : Registry}, r.members.Nodup → g r = .ok r' → r'.members.Nodup) :
    Edits fun h => (g (h.registry role)).map (h.setRegistry · role) := by
  have hset : ∀ {h h' : Hub}, (g (h.registry role)).map (h.setRegistry · role) = .ok h' →
      ∃ r, g (h.registry role) = .ok r ∧ h' = h.setRegistry r role := by
    intro h h' heq
    cases hr : g (h.registry role) with
    | error e => simp [hr, Except.map] at heq
    | ok r => exact ⟨r, rfl, by simpa [hr, Except.map] using heq.symm⟩
  refine ⟨fun heq hp => ?_, fun heq => ?_⟩
  · obtain ⟨r, hr, rfl⟩ := hset heq
    have hnodup := hg (hp.registry role) hr
    cases role
    · exact ⟨hnodup, hp.lifecycle⟩
    · exact ⟨hp.state, hnodup⟩
  · obtain ⟨r, -, rfl⟩ := hset heq
    cases role <;> rfl

theorem register_edits (role : Role) (o : ObserverId) : Edits (·.register role o) :=
  .of_registry role Registry.register_nodup

theorem unregister_edits (role : Role) (o : ObserverId) : Edits (·.unregister role o) :=
  .of_registry role Registry.unregister_nodup

end Hub

namespace Instance

open Hub

/-! ## calls to the hub -/

/-- A call to the hub that it answers at once. -/
def Call.isDirect : Call → Bool
  | .register .. | .registerQuiet | .unregister .. | .dropHub | .subscribe _ | .unsubscribe _
  | .receive .. => true
  | _ => false

/-- A call to the hub. -/
def Call.isHub : Call → Bool
  | .notify _ => true
  | c => c.isDirect

/-- Nobody does anything. -/
def idle : Caller := fun _ x => (.done, x)

/-- What becomes of the channel when a call is answered at once. -/
def Call.onChannel (c : Channel) : Call → Channel
  | .dropHub => { c with isOpen := false }
  | .subscribe id => if c.isOpen then c.subscribe id else c
  | .unsubscribe id => (c.unsubscribe id).2
  | .receive id m => (c.receive id m).2
  | _ => c

/-- What registering and unregistering have in common: a registry is changed, if
there is a hub and it lets that happen. -/
def edit (f : Hub → Except Fault Hub) (x : Instance) : Reply × Instance :=
  if x.hub.isOpen then
    match f x.hub with
    | .ok h => (.done, { x with hub := h })
    | .error e => (.fault e, x)
  else (.noHub, x)

/-- What the hub goes by: itself, and the number of the next nameless observer. -/
def desk (x : Instance) : Hub × Nat :=
  (x.hub, x.quiet)

section

variable {x y : Instance} {c : Call}

theorem Call.isHub_cases (h : c.isHub) : (∃ n, c = .notify n) ∨ c.isDirect := by
  cases c <;> simp_all [Call.isHub]

theorem Call.isHub_of_every (h : c.every Call.isHub) : c.isHub := by
  cases c <;> simp_all [Call.every]

theorem Call.isPlain_of_isDirect (h : c.isDirect) : c.isPlain := by
  cases c <;> simp_all [Call.isDirect, Call.isPlain]

theorem performWith_direct (answer : Caller) (h : c.isDirect) (x : Instance) :
    performWith answer c x = performWith idle c x := by
  cases c <;> first | rfl | simp [Call.isDirect] at h

/-! ## calls that are answered at once -/

theorem desk_mention (x : Instance) (name : String) (rs : List Reaction) :
    (x.mention name rs).desk = x.desk := by
  unfold mention
  split <;> rfl

theorem desk_announce (x : Instance) (n : Notice) : (x.announce n).desk = x.desk := rfl

theorem edit_desk (h : x.desk = y.desk) (f : Hub → Except Fault Hub) :
    (edit f x).1 = (edit f y).1 ∧ (edit f x).2.desk = (edit f y).2.desk := by
  obtain ⟨hhub, hquiet⟩ := Prod.mk.inj h
  unfold edit
  rw [hhub]
  split
  · split
    · exact ⟨rfl, by simp [desk, hquiet]⟩
    · exact ⟨rfl, h⟩
  · exact ⟨rfl, h⟩

theorem edit_frame (f : Hub → Except Fault Hub) (x : Instance) :
    ∃ h, (edit f x).2 = { x with hub := h } := by
  unfold edit
  split
  · split <;> exact ⟨_, rfl⟩
  · exact ⟨_, rfl⟩

theorem edit_proper {f : Hub → Except Fault Hub} (hf : Edits f) (hp : x.hub.Proper) :
    (edit f x).2.hub.Proper := by
  unfold edit
  split
  · split
    · next h hfx => exact hf.proper hfx hp
    · exact hp
  · exact hp

theorem edit_channel {f : Hub → Except Fault Hub} (hf : Edits f) (x : Instance) :
    (edit f x).2.hub.channel = x.hub.channel := by
  unfold edit
  split
  · split
    · next h hfx => exact hf.channel hfx
    · rfl
  · rfl

theorem mention_frame (x : Instance) (name : String) (rs : List Reaction) :
    ∃ os, x.mention name rs = { x with observers := os } := by
  unfold mention
  split <;> exact ⟨_, rfl⟩

/-- A call that the hub answers at once changes a registry, whoever is known by
then, or the channel. -/
theorem direct_view (hc : c.isDirect) (x : Instance) :
    (∃ os q f, Edits f ∧
      performWith idle c x = edit f { x with observers := os, quiet := q }) ∨
      ∃ r ch, performWith idle c x = (r, { x with hub := { x.hub with channel := ch } }) := by
  cases c with
  | register role name rs =>
    obtain ⟨os, hos⟩ := mention_frame x name rs
    refine .inl ⟨os, x.quiet, _, register_edits role (.named name), ?_⟩
    simp only [performWith, hos]
    rfl
  | unregister role name rs =>
    obtain ⟨os, hos⟩ := mention_frame x name rs
    refine .inl ⟨os, x.quiet, _, unregister_edits role (.named name), ?_⟩
    simp only [performWith, hos]
    rfl
  | registerQuiet =>
    exact .inl ⟨x.observers, x.quiet + 1, _, register_edits .lifecycle (.quiet x.quiet), rfl⟩
  | subscribe id =>
    simp only [performWith, subscribe]
    split <;> exact .inr ⟨_, _, rfl⟩
  | dropHub | unsubscribe id | receive id m => exact .inr ⟨_, _, rfl⟩
  | _ => simp [Call.isDirect] at hc

/-- What the hub answers, and what becomes of it, depends on nothing else. -/
theorem direct_desk (hc : c.isDirect) (h : x.desk = y.desk) :
    (performWith idle c x).1 = (performWith idle c y).1 ∧
      (performWith idle c x).2.desk = (performWith idle c y).2.desk := by
  have hmention : ∀ name rs, (x.mention name rs).desk = (y.mention name rs).desk := by
    intro name rs
    rw [desk_mention, desk_mention, h]
  obtain ⟨hhub, hquiet⟩ := Prod.mk.inj h
  cases c with
  | register role name rs => exact edit_desk (hmention name rs) (·.register role (.named name))
  | unregister role name rs => exact edit_desk (hmention name rs) (·.unregister role (.named name))
  | registerQuiet =>
    simp only [performWith, registerQuiet, hquiet]
    exact edit_desk (by simp [desk, hhub]) (·.register .lifecycle (.quiet y.quiet))
  | dropHub => exact ⟨by simp [performWith, dropHub, hhub], by simp [performWith, dropHub, desk, *]⟩
  | subscribe id =>
    simp only [performWith, subscribe, hhub]
    split
    · exact ⟨rfl, by simp [desk, hquiet]⟩
    · exact ⟨rfl, h⟩
  | unsubscribe id =>
    exact ⟨by simp [performWith, unsubscribe, hhub], by simp [performWith, unsubscribe, desk, *]⟩
  | receive id m =>
    exact ⟨by simp [performWith, receive, hhub], by simp [performWith, receive, desk, *]⟩
  | _ => simp [Call.isDirect] at hc

/-- A call that the hub answers at once changes nothing but the hub and what is
known of observers. -/
theorem direct_frame (hc : c.isDirect) (x : Instance) :
    ∃ os h q, (performWith idle c x).2 = { x with observers := os, hub := h, quiet := q } := by
  rcases direct_view hc x with ⟨os, q, f, -, heq⟩ | ⟨r, ch, heq⟩
  · obtain ⟨h, hframe⟩ := edit_frame f { x with observers := os, quiet := q }
    exact ⟨os, h, q, by rw [heq, hframe]⟩
  · exact ⟨x.observers, _, x.quiet, by rw [heq]⟩

theorem direct_proper (hc : c.isDirect) (hp : x.hub.Proper) :
    (performWith idle c x).2.hub.Proper := by
  rcases direct_view hc x with ⟨os, q, f, hf, heq⟩ | ⟨r, ch, heq⟩
  · rw [heq]
    exact edit_proper (x := { x with observers := os, quiet := q }) hf hp
  · rw [heq]
    exact ⟨hp.state, hp.lifecycle⟩

theorem direct_channel (hc : c.isDirect) (x : Instance) :
    (performWith idle c x).2.hub.channel = c.onChannel x.hub.channel := by
  have hmention : ∀ name rs, (x.mention name rs).hub.channel = x.hub.channel := by
    intro name rs
    rw [(Prod.mk.inj (desk_mention x name rs)).1]
  cases c with
  | register role name rs =>
    exact (edit_channel (register_edits role (.named name)) _).trans (hmention name rs)
  | unregister role name rs =>
    exact (edit_channel (unregister_edits role (.named name)) _).trans (hmention name rs)
  | registerQuiet => exact edit_channel (register_edits .lifecycle (.quiet x.quiet)) _
  | subscribe id =>
    by_cases ho : x.hub.channel.isOpen <;>
      simp [performWith, subscribe, Hub.isOpen, Call.onChannel, ho]
  | dropHub | unsubscribe id | receive id m => rfl
  | _ => simp [Call.isDirect] at hc

end

end Instance

end BrowserHost
